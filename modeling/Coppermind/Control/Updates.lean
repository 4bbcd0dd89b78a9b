import Coppermind.Control.StateFiles

/-!
# No update of a control file is lost

A writer that holds the lock has the file to itself, and the revision of the file grows with
every write, so a writer whose revision still matches replaces exactly what it read.  The
notices a file ends with are therefore what the changes that were written make of those it
started with, one after another.
-/

namespace Coppermind.Control

open Coppermind.Lib Coppermind.Frontmatter Coppermind.Schema
open Coppermind.Notes (FileBytes strOf strValue strValue_cases strOf_strValue)

section Round

/-- A mapping of strings to strings. -/
def isStrings : Value → Bool
  | .map entries => entries.all fun e => (str? e.1).isSome && (str? e.2).isSome
  | _ => false

/-- What the store itself writes into a state file: integers, and mappings of mappings of
strings. -/
def isPlain : Value → Bool
  | .int _ => true
  | .map entries => entries.all fun e => (str? e.1).isSome && isStrings e.2
  | _ => false

/-- What is dumped loads, and a plain value loads as it was. -/
def Codec.Faithful (codec : Codec) : Prop :=
  ∀ record text, codec.dump record = some text →
    ∃ loaded, codec.load (.utf8 text) = some loaded ∧
      ∀ key value, isPlain value = true → record.get? key = some value →
        loaded.get? key = some value

theorem str?_strValue (s : Str) : str? (strValue s.1) = some s.1 := by
  have hstr : ∀ p, str? (strValue s.1) = some p → str? (strValue s.1) = some s.1 := by
    intro p hp
    let py : Python := ⟨fun _ => [], fun _ => [], fun _ => [], id, fun _ => none, fun _ => none,
      fun _ => none, fun _ => true, false⟩
    rw [hp, ← @strOf_of_str? py _ _ hp, strOf_strValue s.2]
  obtain ⟨t, ht⟩ | ht := strValue_cases s.1
  · exact hstr _ (by rw [ht]; rfl)
  · exact hstr _ (by rw [ht]; rfl)

variable {py : Python}

theorem isStrings_value (notice : Notice) : isStrings notice.value = true := by
  unfold Notice.value isStrings
  dsimp only
  rw [List.all_map]
  apply List.all_eq_true.2
  intro e _
  simp [str?_strValue]

theorem isPlain_notices (notices : Notices) :
    isPlain (.map (notices.entries.map fun e => (strValue e.1.1, e.2.value))) = true := by
  unfold isPlain
  dsimp only
  rw [List.all_map]
  apply List.all_eq_true.2
  intro e _
  simp [str?_strValue, isStrings_value]

theorem ofPyStr_strOf_strValue (s : Str) : Str.ofPyStr (strOf py (strValue s.1)) = s := by
  rw [strOf_strValue s.2, Str.ofPyStr_val]

theorem ofPyStr_noticeKey {k : PyStr} (hk : k ∈ noticeKeys) : (Str.ofPyStr k).1 = k := by
  have hall : ∀ k ∈ noticeKeys, ∀ c ∈ k, c < 0x110000 := by decide
  exact List.filter_eq_self.2 fun c hc => decide_eq_true (hall k hk c hc)

/-- A notice is read back as it was written. -/
theorem noticeOf_value (id : Str) (notice : Notice) :
    noticeOf py (strValue id.1, notice.value) = some (id, notice) := by
  have hfields : fieldsOf py (notice.fields.entries.map fun e =>
      (strValue e.1.1, strValue e.2.1)) = notice.fields.entries.map fun e => (e.1, e.2) := by
    unfold fieldsOf
    rw [List.map_map]
    apply List.map_congr_left
    intro e _
    simp only [Function.comp_apply, ofPyStr_strOf_strValue]
  have hkeys : ∀ k ∈ noticeKeys, (notice.fields.entries.map fun e =>
      (strValue e.1.1, strValue e.2.1)).any (fun e => str? e.1 == some k) = true := by
    intro k hk
    obtain ⟨e, he, hek⟩ := List.mem_map.1 (AList.mem_keys.1 (notice.complete k hk))
    apply List.any_eq_true.2
    refine ⟨_, List.mem_map.2 ⟨e, he, rfl⟩, ?_⟩
    rw [str?_strValue, hek, ofPyStr_noticeKey hk, beq_self_eq_true]
  unfold noticeOf Notice.value
  dsimp only
  rw [dif_pos hkeys, ofPyStr_strOf_strValue]
  congr 2
  cases notice
  simp only [Notice.mk.injEq]
  rw [hfields]
  exact ofPairs_entries _

/-- **Round trip**: the notices of a body are read as they were written. -/
theorem validNotices_of_get? {body : Entries} {notices : Notices}
    (h : body.get? noticesKey =
      some (.map (notices.entries.map fun e => (strValue e.1.1, e.2.value)))) :
    validNotices py body = notices := by
  have hraw : (notices.entries.map fun e => (strValue e.1.1, e.2.value)).filterMap (noticeOf py) =
      notices.entries.map fun e => (e.1, e.2) := by
    rw [List.filterMap_map, ← List.filterMap_eq_map]
    apply List.filterMap_congr
    intro e _
    exact noticeOf_value e.1 e.2
  unfold validNotices
  rw [h]
  dsimp only
  rw [hraw]
  exact ofPairs_entries _

end Round

section Contents

variable (codec : Codec)

/-- The revision of a file, 0 before its first. -/
def revisionOf (file : Option FileBytes) : Int :=
  match read codec file with
  | .ok (some state) => state.revision
  | _ => 0

variable {codec} {file : Option FileBytes} {body : Entries} {text : Text}

/-- A write goes ahead where the revision it names is the file's, and makes the next one. -/
theorem prepare_ok {ifRevision : Option Int} (h : prepare codec file body ifRevision = .ok text) :
    ∃ state, read codec file = .ok state ∧ ifRevision = state.map (·.revision) ∧
      prepare.finish codec body (revisionOf codec file + 1) = .ok text := by
  unfold prepare at h
  cases hread : read codec file with
  | error e =>
    rw [hread] at h
    cases h
  | ok state =>
    rw [hread] at h
    refine ⟨state, rfl, ?_⟩
    unfold revisionOf
    rw [hread]
    cases state with
    | none =>
      cases ifRevision with
      | none => exact ⟨rfl, h⟩
      | some r => cases h
    | some state =>
      cases ifRevision with
      | none => cases h
      | some r =>
        dsimp only at h
        split at h
        · next hr => exact ⟨congrArg some hr, h⟩
        · cases h

theorem get?_recordOf {next : Int} {record : Entries} (h : recordOf body next = .ok record) :
    record.get? revisionKey = some (.int next) ∧ record.get? noticesKey = body.get? noticesKey := by
  unfold recordOf at h
  split at h
  · cases h
  · cases h
    constructor
    · rfl
    · change Entries.get? noticesKey (body.filter _) = _
      unfold Entries.get?
      rw [List.find?_filter]
      congr 2
      funext e
      cases hnotices : e.1.isText noticesKey with
      | false => simp
      | true =>
        have hkey : e.1 = .str noticesKey := by
          cases hv : e.1 <;> simp_all [Value.isText]
        rw [hkey]
        decide

variable (hcodec : codec.Faithful)

include hcodec

/-- What a write leaves: the next revision, and the notices of its body. -/
theorem finish_ok {next : Int} (h : prepare.finish codec body next = .ok text) :
    revisionOf codec (some (.utf8 text)) = next ∧
      ∀ value, isPlain value = true → body.get? noticesKey = some value →
        ∃ loaded, codec.load (.utf8 text) = some loaded ∧ loaded.get? noticesKey = some value := by
  unfold prepare.finish at h
  cases hrecord : recordOf body next with
  | error e =>
    rw [hrecord] at h
    cases h
  | ok record =>
    rw [hrecord] at h
    cases hdump : codec.dump record with
    | none => simp [hdump] at h
    | some written =>
      simp only [hdump, Except.ok.injEq] at h
      subst h
      obtain ⟨hrevision, hnotices⟩ := get?_recordOf hrecord
      obtain ⟨loaded, hload, hkeep⟩ := hcodec record written hdump
      constructor
      · have hloaded := hkeep revisionKey (.int next) rfl hrevision
        have hread : read codec (some (.utf8 written)) = .ok (some ⟨next, loaded⟩) := by
          simp [read, parse, hload, hloaded, intOf, Except.map]
        rw [revisionOf, hread]
      · intro value hplain hvalue
        exact ⟨loaded, hload, hkeep noticesKey value hplain (hnotices.trans hvalue)⟩

variable {py : Python}

theorem noticesIn_finish {notices : Notices} {next : Int}
    (h : prepare.finish codec (noticesBody notices) next = .ok text) :
    noticesIn py codec (some (.utf8 text)) = notices := by
  obtain ⟨loaded, hload, hget⟩ := (finish_ok hcodec h).2 _ (isPlain_notices notices) rfl
  simp only [noticesIn, hload]
  exact validNotices_of_get? hget

omit hcodec in
theorem noticesIn_of_read {state : Option StateFile} (h : read codec file = .ok state) :
    noticesIn py codec file = (state.map fun f => validNotices py f.body).getD ∅ := by
  cases file with
  | none =>
    cases h
    rfl
  | some data =>
    unfold read parse at h
    unfold noticesIn
    cases hload : codec.load data with
    | none => simp [hload, Except.map] at h
    | some loaded =>
      simp only [hload] at h ⊢
      split at h <;> simp only [Except.map, Except.ok.injEq, reduceCtorEq] at h
      rw [← h]
      rfl

end Contents

section System

variable {W : Type} (codec : Codec) (py : Python) (jobs : W → Job)

/-- What a write does to the notices. -/
def Write.effect (e : Write W) : Notices → Notices :=
  match jobs e.writer with
  | .notices change => fun notices => (change notices).getD notices
  | .write _ => fun _ => noticesIn py codec e.left

/-- A write is what the job of its writer makes of what the writer had read. -/
def Write.Made (e : Write W) : Prop :=
  ∃ state body text, read codec e.seen = .ok state ∧ (jobs e.writer).body py state = some body ∧
    prepare.finish codec body (revisionOf codec e.seen + 1) = .ok text ∧
    e.left = some (.utf8 text)

/-- The job makes nothing of what the file held at some time. -/
def LeavesNothing (file : Option FileBytes) (log : List (Write W)) (w : W) : Prop :=
  ∃ seen ∈ contents Write.left file log, ∃ state, read codec seen = .ok state ∧
    (jobs w).body py state = none

/-- How many writes of its own a writer has in the history, where it stands: the one that it
calls written, and else none, but that a writer may be stopped behind its write. -/
def Pc.Owns : Pc → Nat → Prop
  | .unlocking _ .written, n | .finished .written, n => n = 1
  | .finished .stopped, n => n ≤ 1
  | _, n => n = 0

/-- A writer that stands inside the lock. -/
def Pc.inside : Pc → Bool
  | .checking .. | .replacing .. | .unlocking .. => true
  | _ => false

/-- What a writer knows of the file it read, where it stands. -/
def Knows (file : Option FileBytes) (log : List (Write W)) (s : System W) (w : W) : Pc → Prop
  | .locking _ seen ifRevision body | .checking _ seen ifRevision body =>
    seen ∈ contents Write.left file log ∧
      ∃ state, read codec seen = .ok state ∧ ifRevision = state.map (·.revision) ∧
        (jobs w).body py state = some body
  | .replacing seen text =>
    seen = s.file ∧ ∃ state body, read codec seen = .ok state ∧ (jobs w).body py state = some body ∧
      prepare.finish codec body (revisionOf codec seen + 1) = .ok text
  | .unlocking _ .nothing => False
  | .finished .nothing => LeavesNothing codec py jobs file log w
  | _ => True

variable {codec py jobs} in
theorem LeavesNothing.append {file : Option FileBytes} {log : List (Write W)} {w : W}
    (h : LeavesNothing codec py jobs file log w) (e : Write W) :
    LeavesNothing codec py jobs file (log ++ [e]) w := by
  obtain ⟨seen, hseen, hstate⟩ := h
  exact ⟨seen, mem_contents_append hseen, hstate⟩

variable {codec py jobs} in
/-- What a writer knows is about the file and its history. -/
theorem Knows.frame {file : Option FileBytes} {log : List (Write W)} {s s' : System W} {w : W}
    {pc : Pc} (h : Knows codec py jobs file log s w pc) (hfile : s'.file = s.file) :
    Knows codec py jobs file log s' w pc := by
  cases pc with
  | replacing seen text => exact ⟨h.1.trans hfile.symm, h.2⟩
  | finished outcome =>
    cases outcome with
    | nothing => exact h
    | _ => trivial
  | unlocking attempt outcome =>
    cases outcome with
    | nothing => exact h
    | _ => trivial
  | locking attempt seen ifRevision body => exact h
  | checking attempt seen ifRevision body => exact h
  | reading attempt => trivial

theorem Pc.Owns.le_one {pc : Pc} {n : Nat} (h : pc.Owns n) : n ≤ 1 := by
  unfold Pc.Owns at h
  split at h <;> omega

variable [DecidableEq W]

/-- The invariant of the writers of a file. -/
structure Sound (file : Option FileBytes) (s : System W) : Prop where
  linked : Linked Write.replaced Write.left file s.log s.file
  grows : ∀ e ∈ s.log, revisionOf codec e.left = revisionOf codec e.replaced + 1
  exact : ∀ e ∈ s.log, e.seen = e.replaced
  effect : ∀ e ∈ s.log,
    noticesIn py codec e.left = e.effect codec py jobs (noticesIn py codec e.replaced)
  made : ∀ e ∈ s.log, e.Made codec py jobs
  owns : ∀ w, (s.pc w).Owns (s.log.countP (·.writer = w))
  holds : ∀ w, (s.pc w).inside = true → s.locked = some w
  knows : ∀ w, Knows codec py jobs file s.log s w (s.pc w)

variable {codec py jobs} {file : Option FileBytes} {s s' : System W} {w : W}

theorem sound_initial : Sound codec py jobs file (System.initial (W := W) file) where
  linked := rfl
  grows := by intro e he; cases he
  exact := by intro e he; cases he
  effect := by intro e he; cases he
  made := by intro e he; cases he
  owns := fun _ => rfl
  holds := by intro w hw; cases hw
  knows := fun _ => trivial

namespace Sound

theorem grows_lt (h : Sound codec py jobs file s) :
    ∀ e ∈ s.log, revisionOf codec e.replaced < revisionOf codec e.left := by
  intro e he
  rw [h.grows e he]
  omega

/-- A content the log names with the revision of the file is what the file holds. -/
theorem eq_file (h : Sound codec py jobs file s) {seen : Option FileBytes}
    (hseen : seen ∈ contents Write.left file s.log)
    (hrevision : revisionOf codec seen = revisionOf codec s.file) : seen = s.file :=
  h.linked.eq_of_rank h.grows_lt hseen h.linked.last_mem hrevision

/-- A writer steps where only its own place changes, and maybe the lock. -/
theorem moved (h : Sound codec py jobs file s) (locked : Option W) (pc : Pc)
    (hlocked : ∀ v, v ≠ w → s.locked = some v → locked = some v)
    (hpc : pc.inside = true → locked = some w)
    (howns : pc.Owns (s.log.countP (·.writer = w)))
    (hknows : Knows codec py jobs file s.log s w pc) :
    Sound codec py jobs file ({ s with locked := locked }.setPc w pc) where
  linked := h.linked
  grows := h.grows
  exact := h.exact
  effect := h.effect
  made := h.made
  owns := by
    intro v
    by_cases hvw : v = w
    · subst hvw
      simp only [System.setPc, Function.update_self]
      exact howns
    · simp only [System.setPc, Function.update_of_ne hvw]
      exact h.owns v
  holds := by
    intro v hv
    by_cases hvw : v = w
    · subst hvw
      simp only [System.setPc, Function.update_self] at hv ⊢
      exact hpc hv
    · simp only [System.setPc, Function.update_of_ne hvw] at hv ⊢
      exact hlocked v hvw (h.holds v hv)
  knows := by
    intro v
    by_cases hvw : v = w
    · subst hvw
      simp only [System.setPc, Function.update_self]
      exact hknows.frame rfl
    · simp only [System.setPc, Function.update_of_ne hvw]
      exact (h.knows v).frame rfl

/-- The lock of a writer that lets go. -/
theorem released (h : Sound codec py jobs file s) {pc : Pc} (hpc : pc.inside = false)
    (howns : pc.Owns (s.log.countP (·.writer = w)))
    (hknows : Knows codec py jobs file s.log s w pc) :
    Sound codec py jobs file ((s.release w).setPc w pc) := by
  unfold System.release
  split
  · next hown =>
    apply h.moved none pc ?_ ?_ howns hknows
    · intro v hv hlocked
      rw [hown, Option.some.injEq] at hlocked
      exact absurd hlocked.symm hv
    · intro hin
      rw [hpc] at hin
      cases hin
  · apply h.moved s.locked pc (fun v _ hv => hv) ?_ howns hknows
    intro hin
    rw [hpc] at hin
    cases hin

omit [DecidableEq W] in
/-- What a replacement does to the notices. -/
theorem effect_replace (hcodec : codec.Faithful) {seen : Option FileBytes} {text : Text}
    {state : Option StateFile} {body : Entries} {replaced : Option FileBytes}
    (hread : read codec seen = .ok state) (hbody : (jobs w).body py state = some body)
    (hfinish : prepare.finish codec body (revisionOf codec seen + 1) = .ok text) :
    noticesIn py codec (some (.utf8 text)) =
      Write.effect codec py jobs ⟨w, seen, replaced, some (.utf8 text)⟩
        (noticesIn py codec seen) := by
  unfold Write.effect
  cases hjob : jobs w with
  | write edit => rfl
  | notices change =>
    rw [hjob] at hbody
    simp only [noticesIn_of_read hread]
    obtain ⟨notices, hchange, rfl⟩ := Option.map_eq_some_iff.1 hbody
    rw [hchange, Option.getD_some, noticesIn_finish hcodec hfinish]

/-- **The replacement**: the writer inside the lock replaces what it read. -/
theorem replaced (hcodec : codec.Faithful) (h : Sound codec py jobs file s)
    {seen : Option FileBytes} {text : Text} (hpc : s.pc w = .replacing seen text) :
    Sound codec py jobs file ((s.replace w seen text).setPc w (.unlocking 0 .written)) := by
  have hown : s.locked = some w := h.holds w (by rw [hpc]; rfl)
  have hknown := h.knows w
  rw [hpc] at hknown
  obtain ⟨hseen, state, body, hread, hbody, hfinish⟩ := hknown
  have hleft := (finish_ok hcodec hfinish).1
  have heffect : noticesIn py codec (some (.utf8 text)) =
      Write.effect codec py jobs ⟨w, seen, s.file, some (.utf8 text)⟩ (noticesIn py codec seen) :=
    effect_replace hcodec hread hbody hfinish
  refine ⟨h.linked.append rfl, ?_, ?_, ?_, ?_, ?_, ?_, ?_⟩
  · intro e he
    obtain he | he := List.mem_append.1 he
    · exact h.grows e he
    · obtain rfl := List.mem_singleton.1 he
      rw [← hseen]
      exact hleft
  · intro e he
    obtain he | he := List.mem_append.1 he
    · exact h.exact e he
    · obtain rfl := List.mem_singleton.1 he
      exact hseen
  · intro e he
    obtain he | he := List.mem_append.1 he
    · exact h.effect e he
    · obtain rfl := List.mem_singleton.1 he
      rw [hseen] at heffect ⊢
      exact heffect
  · intro e he
    obtain he | he := List.mem_append.1 he
    · exact h.made e he
    · obtain rfl := List.mem_singleton.1 he
      exact ⟨state, body, text, hread, hbody, hfinish, rfl⟩
  · -- The write is the writer's first, and nobody else's.
    have hnone : s.log.countP (·.writer = w) = 0 := by
      have howns := h.owns w
      rwa [hpc] at howns
    intro v
    change (Function.update s.pc w (.unlocking 0 .written) v).Owns
      (List.countP (fun e => decide (e.writer = v)) (s.log ++ [_]))
    rw [List.countP_append]
    by_cases hvw : v = w
    · subst hvw
      rw [hnone, Function.update_self]
      simp [Pc.Owns]
    · rw [Function.update_of_ne hvw]
      have hother : ¬w = v := fun heq => hvw heq.symm
      simpa [hother] using h.owns v
  · intro v hv
    by_cases hvw : v = w
    · rw [hvw]
      exact hown
    · simp only [System.setPc, System.replace, Function.update_of_ne hvw] at hv ⊢
      exact h.holds v hv
  · intro v
    by_cases hvw : v = w
    · subst hvw
      simp only [System.setPc, Function.update_self]
      trivial
    · simp only [System.setPc, System.replace, Function.update_of_ne hvw]
      have hknown := h.knows v
      cases hv : s.pc v with
      | locking attempt seen ifRevision body =>
        rw [hv] at hknown
        exact ⟨mem_contents_append hknown.1, hknown.2⟩
      | checking attempt seen ifRevision body =>
        rw [hv] at hknown
        exact ⟨mem_contents_append hknown.1, hknown.2⟩
      | replacing seen text =>
        -- Only one writer is inside the lock.
        have hother := h.holds v (by rw [hv]; rfl)
        rw [hown, Option.some.injEq] at hother
        exact absurd hother.symm hvw
      | finished outcome =>
        rw [hv] at hknown
        cases outcome with
        | nothing => exact hknown.append _
        | _ => trivial
      | unlocking attempt outcome =>
        rw [hv] at hknown
        cases outcome with
        | nothing => exact hknown
        | _ => trivial
      | reading attempt => trivial

omit [DecidableEq W] in
theorem owns_readStep (attempt : Nat) : (readStep codec py jobs s w attempt).Owns 0 := by
  unfold readStep
  split
  · rfl
  · split <;> rfl

omit [DecidableEq W] in
theorem owns_checkStep (attempt : Nat) (seen : Option FileBytes) (ifRevision : Option Int)
    (body : Entries) : (checkStep codec s attempt seen ifRevision body).Owns 0 := by
  unfold checkStep
  split <;> rfl

/-- A writer keeps count of its writes behind the lock. -/
theorem owns_after {job : Job} {attempt n : Nat} {outcome : Outcome}
    (h : (Pc.unlocking attempt outcome).Owns n) : (job.after attempt outcome).Owns n := by
  unfold Job.after
  split
  · split <;> exact h
  · cases outcome with
    | written => exact h
    | stopped => exact Nat.le_of_eq (h.trans rfl) |>.trans (Nat.zero_le 1)
    | _ => exact h

/-- What a writer knows after its read. -/
theorem knows_readStep (h : Sound codec py jobs file s) (attempt : Nat) :
    Knows codec py jobs file s.log s w (readStep codec py jobs s w attempt) := by
  unfold readStep
  cases hread : read codec s.file with
  | error e => trivial
  | ok state =>
    dsimp only
    cases hbody : (jobs w).body py state with
    | none => exact ⟨s.file, h.linked.last_mem, state, hread, hbody⟩
    | some body => exact ⟨h.linked.last_mem, state, hread, rfl, hbody⟩

/-- What a writer knows after its check: the file still is what it read. -/
theorem knows_checkStep (h : Sound codec py jobs file s) {attempt : Nat}
    {seen : Option FileBytes} {ifRevision : Option Int} {body : Entries}
    (hknown : Knows codec py jobs file s.log s w (.checking attempt seen ifRevision body)) :
    Knows codec py jobs file s.log s w (checkStep codec s attempt seen ifRevision body) := by
  unfold checkStep
  cases hprepare : prepare codec s.file body ifRevision with
  | error e => trivial
  | ok text =>
    obtain ⟨hseen, state, hread, hrevision, hbody⟩ := hknown
    obtain ⟨current, hcurrent, hsame, hfinish⟩ := prepare_ok hprepare
    have heq : revisionOf codec seen = revisionOf codec s.file := by
      unfold revisionOf
      rw [hread, hcurrent]
      rw [hrevision] at hsame
      cases state <;> cases current <;> simp_all
    have hfile := h.eq_file hseen heq
    exact ⟨hfile, state, body, hread, hbody, heq ▸ hfinish⟩

omit [DecidableEq W] in
theorem inside_readStep (attempt : Nat) :
    (readStep codec py jobs s w attempt).inside = false := by
  unfold readStep
  split
  · rfl
  · split <;> rfl

theorem inside_after (job : Job) (attempt : Nat) (outcome : Outcome) :
    (job.after attempt outcome).inside = false := by
  unfold Job.after
  split
  · split <;> rfl
  · rfl

omit [DecidableEq W] in
theorem knows_after {job : Job} {attempt : Nat} {outcome : Outcome}
    (h : Knows codec py jobs file s.log s w (.unlocking attempt outcome)) :
    Knows codec py jobs file s.log s w (job.after attempt outcome) := by
  unfold Job.after
  split
  · split <;> trivial
  · cases outcome with
    | nothing => exact h.elim
    | _ => trivial

/-- **One step** of any writer keeps the invariant. -/
theorem step (hcodec : codec.Faithful) (h : Sound codec py jobs file s) {a : Action W}
    (hstep : Control.step codec py jobs s a = some s') : Sound codec py jobs file s' := by
  cases a with
  | go w =>
    have hknown := h.knows w
    have howns := h.owns w
    unfold Control.step at hstep
    cases hpc : s.pc w with
    | reading attempt =>
      simp only [hpc, Option.some.injEq] at hstep
      subst hstep
      rw [hpc] at howns
      apply h.moved s.locked _ (fun v _ hv => hv) ?_ ?_ (h.knows_readStep attempt)
      · intro hin
        rw [inside_readStep] at hin
        cases hin
      · rw [show s.log.countP (·.writer = w) = 0 from howns]
        exact owns_readStep attempt
    | locking attempt seen ifRevision body =>
      simp only [hpc] at hstep
      rw [hpc] at hknown
      split at hstep
      · next hfree =>
        cases hstep
        rw [hpc] at howns
        apply h.moved (some w) (.checking attempt seen ifRevision body) ?_ (fun _ => rfl) howns
          hknown
        intro v _ hv
        rw [hfree] at hv
        cases hv
      · cases hstep
    | checking attempt seen ifRevision body =>
      simp only [hpc, Option.some.injEq] at hstep
      rw [hpc] at hknown
      subst hstep
      rw [hpc] at howns
      have hown := h.holds w (by rw [hpc]; rfl)
      apply h.moved s.locked _ (fun v _ hv => hv) (fun _ => hown) ?_ (h.knows_checkStep hknown)
      rw [show s.log.countP (·.writer = w) = 0 from howns]
      exact owns_checkStep attempt seen ifRevision body
    | replacing seen text =>
      simp only [hpc, Option.some.injEq] at hstep
      subst hstep
      exact h.replaced hcodec hpc
    | unlocking attempt outcome =>
      simp only [hpc, Option.some.injEq] at hstep
      subst hstep
      rw [hpc] at hknown howns
      exact h.released (inside_after _ attempt outcome) (owns_after howns)
        (knows_after hknown)
    | finished outcome => simp [hpc] at hstep
  | stop w =>
    have hstopped : s' = (s.release w).setPc w (.finished .stopped) := by
      unfold Control.step at hstep
      cases hpc : s.pc w <;> simp only [hpc, Option.some.injEq, reduceCtorEq] at hstep <;>
        exact hstep.symm
    rw [hstopped]
    exact h.released rfl (h.owns w).le_one trivial

/-- **A run** keeps it. -/
theorem run (hcodec : codec.Faithful) {actions : List (Action W)}
    (h : exec (Control.step codec py jobs) (System.initial file) actions = some s) :
    Sound codec py jobs file s :=
  exec_invariant (fun _ _ _ hs hstep => hs.step hcodec hstep) sound_initial h

end Sound

/-- **No lost update**: in every run of any writers, each that ended in a write has exactly one in
the history, one that was stopped has at most one, and any other has none, for an error it raised
or because its job made nothing of what the file held; each write is what its writer's job makes
of what the writer had read, and replaced exactly that; the revision grew by one with each; and
the notices are those the file started with, changed by the successful writes one after
another. -/
theorem updates_kept (hcodec : codec.Faithful) (actions : List (Action W))
    (h : exec (step codec py jobs) (System.initial file) actions = some s) :
    (∀ w, s.pc w = .finished .written → s.log.countP (·.writer = w) = 1) ∧
      (∀ w, s.log.countP (·.writer = w) ≤ 1) ∧
      (∀ w e, s.pc w = .finished (.raised e) → s.log.countP (·.writer = w) = 0) ∧
      (∀ w, s.pc w = .finished .nothing → s.log.countP (·.writer = w) = 0 ∧
        LeavesNothing codec py jobs file s.log w) ∧
      (∀ e ∈ s.log, e.Made codec py jobs) ∧
      (∀ e ∈ s.log, e.seen = e.replaced) ∧
      Linked Write.replaced Write.left file s.log s.file ∧
      s.log.map (fun e => revisionOf codec e.left) =
        (List.range s.log.length).map (fun i : Nat => revisionOf codec file + (i : Int) + 1) ∧
      revisionOf codec s.file = revisionOf codec file + s.log.length ∧
      noticesIn py codec s.file =
        s.log.foldl (fun notices e => e.effect codec py jobs notices) (noticesIn py codec file) := by
  have hsound := Sound.run hcodec h
  have howns : ∀ w pc, s.pc w = pc → pc.Owns (s.log.countP (·.writer = w)) := by
    intro w pc hpc
    rw [← hpc]
    exact hsound.owns w
  refine ⟨fun w => howns w _, fun w => (hsound.owns w).le_one, fun w e => howns w _, ?_,
    hsound.made, hsound.exact, hsound.linked, hsound.linked.ranks hsound.grows,
    hsound.linked.rank_eq hsound.grows, hsound.linked.foldl hsound.effect⟩
  intro w hpc
  have hknown := hsound.knows w
  rw [hpc] at hknown
  exact ⟨howns w _ hpc, hknown⟩

end System

section Sample

def sampleStr (s : String) : Str := Str.ofPyStr (PyStr.lit s)

/-- The notice two writers record, each for its own note. -/
def sampleNotice (id : String) : Notice where
  fields := ofPairs <| [("note_id", id), ("title", "t"), ("from_path", "a"), ("path", "b"),
    ("folder", "f"), ("reason", "r"), ("at", "z"), ("kind", "note")].map fun e =>
      (sampleStr e.1, sampleStr e.2)
  complete := by
    have hkeys : ∀ k ∈ noticeKeys, Str.ofPyStr k ∈ ["note_id", "title", "from_path", "path",
        "folder", "reason", "at", "kind"].map sampleStr := by decide +kernel
    intro k hk
    rw [mem_ofPairs]
    exact hkeys k hk

def sampleNotices (ids : List String) : Notices :=
  ofPairs (ids.map fun id => (sampleStr id, sampleNotice id))

def sampleRecord (revision : Nat) (ids : List String) : Entries :=
  [(.str schemaVersionKey, .int 1), (.str revisionKey, .int revision)] ++
    noticesBody (sampleNotices ids)

/-- `json.dumps(record, indent=2)` of such a record. -/
def sampleJson (revision : Nat) (ids : List String) : Text :=
  let quoted (s : String) : String := "\"" ++ s ++ "\": "
  let field (id : String) (k : String) (v : String) : String :=
    "      " ++ quoted k ++ "\"" ++ (if k = "note_id" then id else v) ++ "\""
  let notice (id : String) : String :=
    "    " ++ quoted id ++ "\x7b\n" ++ ",\n".intercalate
      ([("note_id", id), ("title", "t"), ("from_path", "a"), ("path", "b"), ("folder", "f"),
        ("reason", "r"), ("at", "z"), ("kind", "note")].map fun e => field id e.1 e.2) ++
      "\n    \x7d"
  ("\x7b\n  " ++ quoted "schema_version" ++ "1,\n  " ++ quoted "revision" ++ toString revision ++
    ",\n  " ++ quoted "notices" ++ "\x7b\n" ++ ",\n".intercalate (ids.map notice) ++
    "\n  \x7d\n\x7d\n").toList

/-- The records of the sample run, and their texts. -/
def sampleRecords : List (Entries × Text) :=
  [(sampleRecord 1 ["x"], sampleJson 1 ["x"]), (sampleRecord 2 ["x", "y"], sampleJson 2 ["x", "y"])]

def sampleCodec : Codec where
  load data := (sampleRecords.find? fun r => FileBytes.utf8 r.2 == data).map (·.1)
  dump record := (sampleRecords.find? fun r => sameEntries r.1 record).map (·.2)

theorem sampleCodec_faithful : sampleCodec.Faithful := by
  intro record text hdump
  obtain ⟨r, hfind, rfl⟩ := Option.map_eq_some_iff.1 hdump
  have hsame : sameEntries r.1 record = true := by simpa using List.find?_some hfind
  have hmem := List.mem_of_find?_eq_some hfind
  have hapart : (FileBytes.utf8 (sampleJson 1 ["x"]) == .utf8 (sampleJson 2 ["x", "y"])) = false := by
    decide +kernel
  have hload : sampleCodec.load (.utf8 r.2) = some r.1 := by
    unfold sampleCodec sampleRecords
    obtain rfl | hr := List.mem_cons.1 hmem
    · simp
    · obtain rfl := List.mem_singleton.1 hr
      simp [hapart]
  refine ⟨r.1, hload, ?_⟩
  intro key value _ hvalue
  rw [eq_of_sameEntries _ _ hsame]
  exact hvalue

def samplePython : Python :=
  ⟨fun _ => [], fun _ => [], fun _ => [], id, fun _ => none, fun _ => none, fun _ => none,
    fun _ => true, false⟩

/-- Two writers, each with a notice of its own, and one that clears a notice nobody recorded. -/
def sampleJobs : Fin 3 → Job
  | 0 => .notices (recordReconcilerNotice (sampleStr "x") (sampleNotice "x"))
  | 1 => .notices (recordReconcilerNotice (sampleStr "y") (sampleNotice "y"))
  | 2 => .notices (clearReconcilerNotice (sampleStr "z"))

/-- All read before either writes; the second is refused and writes on its second attempt. -/
def sampleActions : List (Action (Fin 3)) :=
  [.go 0, .go 1, .go 2, .go 0, .go 0, .go 0, .go 0, .go 1, .go 1, .go 1, .go 1, .go 1, .go 1,
    .go 1, .go 1]

/-- How a writer has ended. -/
def System.outcome (s : System (Fin 3)) (w : Fin 3) : Option Outcome :=
  match s.pc w with
  | .finished outcome => some outcome
  | _ => none

theorem System.pc_of_outcome {s : System (Fin 3)} {w : Fin 3} {outcome : Outcome}
    (h : s.outcome w = some outcome) : s.pc w = .finished outcome := by
  unfold System.outcome at h
  split at h
  · next hpc => rw [hpc, Option.some.inj h]
  · cases h

theorem sampleActions_run :
    (exec (step sampleCodec samplePython sampleJobs) (System.initial none) sampleActions).map
      (fun s => (s.outcome 0, s.outcome 1, s.outcome 2)) =
        some (some .written, some .written, some .nothing) := by
  decide +kernel

/-- Two notices recorded at once are both there, each from one write. -/
theorem updates_kept_sample :
    ∃ last, exec (step sampleCodec samplePython sampleJobs) (System.initial none) sampleActions =
        some last ∧
      last.log.countP (·.writer = 0) = 1 ∧ last.log.countP (·.writer = 1) = 1 ∧
      last.log.countP (·.writer = 2) = 0 ∧
      (∀ e ∈ last.log, e.Made sampleCodec samplePython sampleJobs ∧ e.seen = e.replaced) ∧
      revisionOf sampleCodec last.file = revisionOf sampleCodec none + last.log.length ∧
      noticesIn samplePython sampleCodec last.file =
        last.log.foldl (fun notices e => e.effect sampleCodec samplePython sampleJobs notices)
          (noticesIn samplePython sampleCodec none) := by
  obtain ⟨last, hrun, hends⟩ := Option.map_eq_some_iff.1 sampleActions_run
  obtain ⟨hwritten, -, -, hnothing, hmade, hexact, -, -, hlast⟩ :=
    updates_kept sampleCodec_faithful sampleActions hrun
  simp only [Prod.mk.injEq] at hends
  exact ⟨last, hrun, hwritten 0 (System.pc_of_outcome hends.1),
    hwritten 1 (System.pc_of_outcome hends.2.1), (hnothing 2 (System.pc_of_outcome hends.2.2)).1,
    fun e he => ⟨hmade e he, hexact e he⟩, hlast⟩

end Sample

end Coppermind.Control
