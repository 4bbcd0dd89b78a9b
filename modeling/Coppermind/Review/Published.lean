import Coppermind.Review.Followups

/-!
# When the follow-ups are exact

The publication of a pass touches each note once (`held_publish`), and it leaves alone the notes
whose record is no longer what the pass read.  Where the generation of the calendar is the last
pass's, a pass neither looks at a note with the recorded hash nor closes the follow-up of any
other, so that what it leaves alone has to be right before (`Settled`).
-/

namespace Coppermind.Review

open Coppermind.Lib

variable {C K F : Type} [DecidableEq F]

section Publication

variable {env : Env C K F} {w start : World C K F} {scan : Scan F} {id : NoteId}

/-- What the publication makes of the record and the follow-up of one note. -/
def published (scan : Scan F) (id : NoteId) (held : Option (Record F) × Option FollowUp)
    (record : Record F) : Option (Record F) × Option FollowUp :=
  if held.1 ≠ view scan.baseline id then held
  else
    (some record,
      match view scan.updates id with
      | some update => some update
      | none => if scan.changed ∨ record.state ≠ .confirmed then none else held.2)

/-- The record and the follow-up of one note. -/
def held (stores : Dict (Record F) × Dict FollowUp) (id : NoteId) :
    Option (Record F) × Option FollowUp :=
  (view stores.1 id, view stores.2 id)

theorem held_publishRecord_self (stores : Dict (Record F) × Dict FollowUp) (record : Record F) :
    held (publishRecord scan stores ⟨id, record⟩) id = published scan id (held stores id) record := by
  obtain ⟨records, updates⟩ := stores
  simp only [publishRecord, published, held]
  by_cases hmoved : view records id = view scan.baseline id
  · cases view scan.updates id with
    | some update => simp [hmoved]
    | none =>
      by_cases hclose : scan.changed = true ∨ record.state ≠ .confirmed
      · simp [hmoved, hclose]
      · simp [hmoved, hclose]
  · simp [hmoved]

theorem held_publishRecord_of_ne (stores : Dict (Record F) × Dict FollowUp)
    {entry : Sigma fun _ : NoteId => Record F} (hne : id ≠ entry.1) :
    held (publishRecord scan stores entry) id = held stores id := by
  obtain ⟨records, updates⟩ := stores
  simp only [publishRecord, held]
  split
  · rfl
  · cases view scan.updates entry.1 with
    | some update => simp [Function.update_of_ne hne]
    | none =>
      by_cases hclose : scan.changed = true ∨ entry.2.state ≠ .confirmed
      · simp [hclose, Function.update_of_ne hne]
      · simp [hclose, Function.update_of_ne hne]

/-- The publication touches each note once. -/
theorem held_foldl_publishRecord {entries : List (Sigma fun _ : NoteId => Record F)}
    (hnodup : entries.NodupKeys) (stores : Dict (Record F) × Dict FollowUp) :
    held (entries.foldl (publishRecord scan) stores) id =
      ((entries.dlookup id).map (published scan id (held stores id))).getD (held stores id) := by
  induction entries generalizing stores with
  | nil => rfl
  | cons entry entries ih =>
    obtain ⟨hentry, hnodup⟩ := List.nodupKeys_cons.1 hnodup
    rw [List.foldl_cons, ih hnodup]
    obtain ⟨key, record⟩ := entry
    by_cases hkey : id = key
    · subst hkey
      have habsent : entries.dlookup id = none := List.dlookup_eq_none.2 hentry
      rw [habsent, List.dlookup_cons_eq, Option.map_none, Option.getD_none, Option.map_some,
        Option.getD_some, held_publishRecord_self]
    · rw [List.dlookup_cons_ne _ _ hkey, held_publishRecord_of_ne _ hkey]

/-- **The publication, note by note.** -/
theorem held_publish :
    (view (publish w scan).finalized id, view (publish w scan).followups id) =
      ((view scan.records id).map
        (published scan id (view w.finalized id, view w.followups id))).getD
          (view w.finalized id, view w.followups id) :=
  held_foldl_publishRecord scan.records.nodupKeys (w.finalized, w.followups)

/-- What another operation has changed, the publication leaves. -/
theorem publish_of_ne (hmoved : view w.finalized id ≠ view scan.baseline id) :
    view (publish w scan).finalized id = view w.finalized id ∧
      view (publish w scan).followups id = view w.followups id := by
  have hpublish := @held_publish _ _ _ _ w scan id
  have hkept (record : Record F) :
      published scan id (view w.finalized id, view w.followups id) record =
        (view w.finalized id, view w.followups id) := if_pos hmoved
  cases hrecord : view scan.records id with
  | none =>
    rw [hrecord] at hpublish
    exact Prod.mk.inj hpublish
  | some record =>
    rw [hrecord, Option.map_some, Option.getD_some, hkept] at hpublish
    exact Prod.mk.inj hpublish

/-- The follow-up of a note that an undisturbed pass leaves. -/
def openAfter (env : Env C K F) (start : World C K F) (id : NoteId) (record : Record F) : Bool :=
  (judge env start id record).2 ||
    decide (start.calendarGeneration = some (env.generation start.calendar)) &&
      decide ((judge env start id record).1 = .confirmed) && (view start.followups id).isSome

/-- An undisturbed pass publishes its judgement of every record. -/
theorem Under.publish (h : Under env start w) (hscan : Scanned env start scan []) :
    view (publish w scan).finalized id = (view start.finalized id).map (judged env start id) ∧
      (view (publish w scan).followups id).isSome =
        match view start.finalized id with
        | none => (view start.followups id).isSome
        | some record => openAfter env start id record := by
  obtain ⟨hrecord, hupdate⟩ := hscan.done id List.not_mem_nil
  have hpublish := @held_publish _ _ _ _ w scan id
  rw [hrecord, h.finalized, h.followups] at hpublish
  cases hr : view start.finalized id with
  | none =>
    rw [hr] at hpublish
    obtain ⟨hfinalized, hfollowups⟩ := Prod.mk.inj hpublish
    exact ⟨hfinalized, congrArg Option.isSome hfollowups⟩
  | some record =>
    rw [hr] at hpublish hupdate
    simp only [Option.map_some, Option.getD_some, published, hscan.baseline, hr, ne_eq,
      not_true_eq_false, if_false] at hpublish
    obtain ⟨hfinalized, hfollowups⟩ := Prod.mk.inj hpublish
    refine ⟨hfinalized, ?_⟩
    rw [hfollowups]
    simp only [Option.any_some] at hupdate
    simp only [openAfter]
    cases hopened : view scan.updates id with
    | some update =>
      rw [hopened, Option.isSome_some] at hupdate
      rw [← hupdate]
      rfl
    | none =>
      rw [hopened, Option.isSome_none] at hupdate
      rw [← hupdate, Bool.false_or]
      simp only [hscan.changed, judged]
      by_cases hchanged : start.calendarGeneration = some (env.generation start.calendar)
      · by_cases hstate : (judge env start id record).1 = .confirmed
        · simp [hchanged, hstate]
        · simp [hchanged, hstate]
      · simp [hchanged]

/-- Every follow-up is one of a note with a record. -/
def Backed (w : World C K F) : Prop :=
  ∀ id, view w.finalized id = none → view w.followups id = none

theorem Backed.publish (h : Backed w) : Backed (publish w scan) := by
  intro id hnone
  have hpublish := @held_publish _ _ _ _ w scan id
  rw [hnone] at hpublish
  have hkept (hfinalized : view w.finalized id = none)
      (hfollowups : view (Review.publish w scan).followups id = view w.followups id) :
      view (Review.publish w scan).followups id = none := by
    rw [hfollowups]
    exact h id hfinalized
  cases hrecord : view scan.records id with
  | none =>
    rw [hrecord] at hpublish
    obtain ⟨hfinalized, hfollowups⟩ := Prod.mk.inj hpublish
    exact hkept hfinalized.symm hfollowups
  | some record =>
    rw [hrecord, Option.map_some, Option.getD_some, published] at hpublish
    split at hpublish
    · obtain ⟨hfinalized, hfollowups⟩ := Prod.mk.inj hpublish
      exact hkept hfinalized.symm hfollowups
    · cases (Prod.mk.inj hpublish).1

omit [DecidableEq F] in
theorem Backed.assign (h : Backed w) {record : Record F} {w' : World C K F}
    (hfinalized : w'.finalized = assign w.finalized id record)
    (hfollowups : w'.followups = w.followups ∨ w'.followups = w.followups.erase id) : Backed w' := by
  intro other hnone
  rw [hfinalized, view_assign] at hnone
  have hne : other ≠ id := by
    rintro rfl
    simp at hnone
  rw [Function.update_of_ne hne] at hnone
  obtain hfollowups | hfollowups := hfollowups
  · rw [hfollowups]
    exact h other hnone
  · rw [hfollowups, view_erase, Function.update_of_ne hne]
    exact h other hnone

theorem Backed.go (h : Backed w) (task : Nat) : Backed (go env w task) := by
  simp only [Review.go]
  split
  · exact h
  · split <;> exact h
  · simp only [confirm]
    split
    · exact Backed.assign h rfl (.inl rfl)
    · split
      · split
        · exact Backed.assign h rfl (.inl rfl)
        · exact h
      · exact Backed.assign h rfl (.inl rfl)
  · simp only [carry]
    split
    · exact h
    · split
      · exact Backed.assign h rfl (.inl rfl)
      · exact h
  · split
    · exact h
    · split <;> exact h
  · simp only [settle]
    split
    · exact h
    · exact Backed.assign h rfl (.inr rfl)

theorem Backed.next (h : Backed w) (a : Action C K) : Backed (next env w a) := by
  cases a with
  | edit | calendar | tick => exact h
  | complete id =>
    simp only [Review.next]
    split <;> exact h
  | finalize task id =>
    simp only [Review.next]
    split
    · next note _ _ =>
      obtain ⟨observed, tasks, hfinalize⟩ := exists_finalize_eq env w task id note
      rw [hfinalize]
      exact h
    · exact h
  | follow task id =>
    simp only [Review.next]
    split <;> exact h
  | resolve task id =>
    simp only [Review.next]
    repeat' split
    all_goals exact h
  | go task => exact h.go task
  | pass =>
    simp only [Review.next, passStep]
    repeat' split
    all_goals first | exact h | exact h.publish

omit [DecidableEq F] in
theorem moved_iff {record : Record F} {note : Note C} (hnote : w.notes id = some note) :
    Moved env w id record ↔
      ∃ hash, env.evidenceHash w.calendar note.content = some hash ∧ hash ≠ record.calendarHash := by
  constructor
  · intro h
    obtain ⟨note', hash, hnote', hevidence, hne⟩ := h
    obtain rfl := Option.some.inj (hnote.symm.trans hnote')
    exact ⟨hash, hevidence, hne⟩
  · intro h
    obtain ⟨hash, hevidence, hne⟩ := h
    exact ⟨note, hash, hnote, hevidence, hne⟩

omit [DecidableEq F] in
/-- A record that the pass does not leave confirmed has no follow-up. -/
theorem openAfter_of_ne {record : Record F} (h : (judge env start id record).1 ≠ .confirmed) :
    openAfter env start id record = false := by
  have hopened : (judge env start id record).2 = false := by
    simp only [judge] at h ⊢
    split
    · rfl
    · split
      · rfl
      · split
        · rfl
        · split
          · rfl
          · cases hevidence : env.evidenceHash start.calendar _ with
            | none => rfl
            | some hash => simp_all [compare]
  simp [openAfter, h, hopened]

omit [DecidableEq F] in
/-- **Exactness of one record** that the pass finds confirmed, its note a reviewed one. -/
theorem openAfter_iff {record : Record F} {note : Note C} (hstate : record.state = .confirmed)
    (hnote : start.notes id = some note) (hreviewed : env.reviewed note.content = true) :
    (openAfter env start id record = true ↔
        (judge env start id record).1 = .confirmed ∧ Moved env start id record) ↔
      (start.calendarGeneration = some (env.generation start.calendar) →
        if env.contentHash note.content = record.noteHash then
          ((view start.followups id).isSome = true ↔ Moved env start id record)
        else
          env.evidenceHash start.calendar note.content = some record.calendarHash →
            view start.followups id = none) := by
  have hjudge := judge_of_confirmed hstate hnote hreviewed
  rw [moved_iff hnote]
  by_cases hgeneration : start.calendarGeneration = some (env.generation start.calendar)
  · by_cases hhash : env.contentHash note.content = record.noteHash
    · rw [if_pos ⟨hgeneration, hhash⟩] at hjudge
      simp [openAfter, hjudge, hgeneration, hhash]
    · rw [if_neg (fun h => hhash h.2)] at hjudge
      cases hevidence : env.evidenceHash start.calendar note.content with
      | none => simp [openAfter, hjudge, hevidence, compare, hhash]
      | some hash =>
        by_cases hcalendar : hash = record.calendarHash
        · simp [openAfter, hjudge, hevidence, compare, hgeneration, hhash, hcalendar]
        · simp [openAfter, hjudge, hevidence, compare, hhash, hcalendar]
  · rw [if_neg (fun h => hgeneration h.1)] at hjudge
    cases hevidence : env.evidenceHash start.calendar note.content with
    | none => simp [openAfter, hjudge, hevidence, compare, hgeneration]
    | some hash =>
      by_cases hcalendar : hash = record.calendarHash
      · simp [openAfter, hjudge, hevidence, compare, hgeneration, hcalendar]
      · simp [openAfter, hjudge, hevidence, compare, hgeneration, hcalendar]

omit [DecidableEq F] in
/-- What a pass leaves confirmed was confirmed, and its note is a reviewed one. -/
theorem confirmed_of_judge {record : Record F} (h : (judge env start id record).1 = .confirmed) :
    record.state = .confirmed ∧
      ∃ note, start.notes id = some note ∧ env.reviewed note.content = true := by
  simp only [judge] at h
  by_cases hstate : record.state ≠ .confirmed
  · rw [if_pos hstate] at h
    exact absurd h hstate
  · rw [if_neg hstate] at h
    refine ⟨not_not.1 hstate, ?_⟩
    cases hnote : start.notes id with
    | none =>
      rw [hnote] at h
      cases h
    | some note =>
      refine ⟨note, rfl, ?_⟩
      rw [hnote] at h
      by_contra hreviewed
      simp only at h
      rw [if_pos (Bool.eq_false_iff.2 hreviewed)] at h
      cases h

/-- **Exactness of one pass.** -/
theorem Under.exact_iff (h : Under env start w) (hscan : Scanned env start scan [])
    (hbacked : Backed start) : Exact env (Review.publish w scan) ↔ Settled env start := by
  have hpublish := fun id => @Under.publish _ _ _ _ _ _ _ _ id h hscan
  have hmoved : ∀ id record, Moved env (Review.publish w scan) id (judged env start id record) ↔
      Moved env start id record := by
    intro id record
    have hnotes : (Review.publish w scan).notes = start.notes := h.notes
    have hcalendar : (Review.publish w scan).calendar = start.calendar := h.calendar
    simp only [Moved, hnotes, hcalendar, judged]
  constructor
  · intro hexact id record note hrecord hstate hnote hreviewed
    apply (openAfter_iff hstate hnote hreviewed).1
    obtain ⟨hfinalized, hfollowups⟩ := hpublish id
    rw [hrecord] at hfinalized hfollowups
    simp only at hfollowups
    rw [← hfollowups, hexact.followups id]
    constructor
    · intro h
      obtain ⟨record', hrecord', hstate', hmoved'⟩ := h
      obtain rfl := Option.some.inj (hfinalized.symm.trans hrecord')
      exact ⟨hstate', (hmoved id record).1 hmoved'⟩
    · intro h
      exact ⟨_, hfinalized, h.1, (hmoved id record).2 h.2⟩
  · intro hsettled
    constructor
    · intro id
      obtain ⟨hfinalized, hfollowups⟩ := hpublish id
      cases hrecord : view start.finalized id with
      | none =>
        rw [hrecord] at hfinalized hfollowups
        rw [hfollowups, hbacked id hrecord, hfinalized]
        simp
      | some record =>
        rw [hrecord] at hfinalized hfollowups
        have hopen : openAfter env start id record = true ↔
            (judge env start id record).1 = .confirmed ∧ Moved env start id record := by
          by_cases hjudge : (judge env start id record).1 = .confirmed
          · obtain ⟨hstate, note, hnote, hreviewed⟩ := confirmed_of_judge hjudge
            exact (openAfter_iff hstate hnote hreviewed).2
              (hsettled id record note hrecord hstate hnote hreviewed)
          · rw [openAfter_of_ne hjudge]
            simp [hjudge]
        rw [hfollowups, hopen, hfinalized]
        simp only [Option.map_some, Option.some.injEq, exists_eq_left']
        rw [hmoved]
        rfl
    · intro id record' hrecord' hstate
      rw [(hpublish id).1] at hrecord'
      obtain ⟨record, hrecord, rfl⟩ := Option.map_eq_some_iff.1 hrecord'
      obtain ⟨-, note, hnote, hreviewed⟩ := confirmed_of_judge hstate
      exact ⟨note, (congrFun h.notes id).trans hnote, hreviewed⟩

end Publication

section Runs

variable {env : Env C K F} {w start : World C K F} {calendar : K}

theorem backed_run (actions : List (Action C K)) : Backed (run env calendar actions) := by
  have hinitial : Backed (.initial calendar : World C K F) := fun id _ => view_empty id
  have hrun : ∀ w : World C K F, Backed w → Backed (actions.foldl (next env) w) := by
    induction actions with
    | nil => exact fun _ h => h
    | cons a actions ih => exact fun w h => ih _ (h.next a)
  exact hrun _ hinitial

/-- A pass begins. -/
theorem under_begin (hpass : w.pass = none) : Under env w (next env w .pass) := by
  simp only [next, passStep, hpass]
  exact ⟨rfl, rfl, rfl, rfl, rfl, rfl⟩

theorem Under.keeps {a : Action C K} (h : Under env start w) (ha : a ≠ .pass)
    (hkeeps : Keeps env w a) : Under env start (next env w a) := by
  obtain ⟨hnotes, hcalendar, hfinalized, hfollowups⟩ := hkeeps
  obtain ⟨hpass, hgeneration⟩ := @next_of_ne_pass _ _ _ _ env w a ha
  refine ⟨hnotes.trans h.notes, hcalendar.trans h.calendar, hfinalized.trans h.finalized,
    hfollowups.trans h.followups, hgeneration.trans h.generation, ?_⟩
  rw [hpass]
  exact h.point

/-- A pass that nothing overlaps ends with its publication. -/
theorem Under.ends {during : List (Action C K)} (h : Under env start w)
    (halong : Along (next env) (fun w a => w.pass.isSome = true ∧ (a = .pass ∨ Keeps env w a))
      w during) (hended : (during.foldl (next env) w).pass = none) :
    ∃ last scan, Under env start last ∧ Scanned env start scan [] ∧
      during.foldl (next env) w = Review.publish last scan := by
  induction during generalizing w with
  | nil =>
    have hpoint := h.point
    rw [show w.pass = none from hended] at hpoint
    exact hpoint.elim
  | cons a during ih =>
    obtain ⟨⟨-, ha⟩, halong⟩ := halong
    by_cases hpass : a = .pass
    · subst hpass
      obtain h' | ⟨scan, hscan, hpublish⟩ := h.passStep
      · exact ih h' halong hended
      · have hnext : next env w .pass = Review.publish w scan := hpublish
        rw [hnext] at halong
        cases during with
        | nil => exact ⟨w, scan, h, hscan, hnext⟩
        | cons b during => cases halong.1.1
    · exact ih (h.keeps hpass (ha.resolve_left hpass)) halong hended

/-- How many awaits a pass has before it at most. -/
def awaits (w : World C K F) : Nat :=
  match w.pass with
  | none => 0
  | some (.opened _) => 2 * w.finalized.keys.length + 2
  | some (.scanning scan) => 2 * scan.todo.length + 1
  | some (.reading scan _ _ _) => 2 * scan.todo.length + 2

/-- The pass takes the next record up. -/
theorem passStep_scanning {scan : Scan F} {id : NoteId} {rest : List NoteId}
    (hpass : w.pass = some (.scanning scan)) (htodo : scan.todo = id :: rest) :
    ∃ scan', scan'.todo = rest ∧ scan'.baseline = scan.baseline ∧
      ∃ pass, passStep env w = { w with pass := some pass } ∧
        (pass = .scanning scan' ∨ ∃ record note, pass = .reading scan' id record note) := by
  simp only [passStep, hpass, htodo]
  split
  · exact ⟨{ scan with todo := rest }, rfl, rfl, _, rfl, .inl rfl⟩
  · split
    · exact ⟨{ scan with todo := rest }, rfl, rfl, _, rfl, .inl rfl⟩
    · split
      · exact ⟨Scan.revoke { scan with todo := rest } id _ _, rfl, rfl, _, rfl, .inl rfl⟩
      · split
        · exact ⟨Scan.revoke { scan with todo := rest } id _ _, rfl, rfl, _, rfl, .inl rfl⟩
        · split
          · exact ⟨{ scan with todo := rest }, rfl, rfl, _, rfl, .inl rfl⟩
          · exact ⟨{ scan with todo := rest }, rfl, rfl, _, rfl, .inr ⟨_, _, rfl⟩⟩

/-- The pass has read the evidence. -/
theorem passStep_reading {scan : Scan F} {id : NoteId} {record : Record F} {note : Note C}
    (hpass : w.pass = some (.reading scan id record note)) :
    ∃ scan', scan'.todo = scan.todo ∧ scan'.baseline = scan.baseline ∧
      passStep env w = { w with pass := some (.scanning scan') } := by
  simp only [passStep, hpass]
  split
  · exact ⟨scan.revoke id record .unavailable, rfl, rfl, rfl⟩
  · next current _ =>
    let updates :=
      if current ≠ record.calendarHash then assign scan.updates id ⟨current, w.clock⟩
      else scan.updates
    exact ⟨{ scan with updates := updates }, rfl, rfl, rfl⟩

theorem awaits_passStep (h : w.pass.isSome = true) :
    (passStep env w).pass = none ∨ awaits (passStep env w) < awaits w := by
  cases hpass : w.pass with
  | none =>
    rw [hpass] at h
    cases h
  | some pass =>
    cases pass with
    | opened generation =>
      right
      simp only [awaits, passStep, hpass]
      omega
    | scanning scan =>
      cases htodo : scan.todo with
      | nil =>
        left
        simp only [passStep, hpass, htodo, publish]
      | cons id rest =>
        right
        obtain ⟨scan', htodo', -, pass, hstep, rfl | ⟨record, note, rfl⟩⟩ :=
          @passStep_scanning _ _ _ _ env w scan id rest hpass htodo
        · simp only [hstep, awaits, hpass, htodo, htodo', List.length_cons]
          omega
        · simp only [hstep, awaits, hpass, htodo, htodo', List.length_cons]
          omega
    | reading scan id record note =>
      right
      obtain ⟨scan', htodo', -, hstep⟩ := @passStep_reading _ _ _ _ env w scan id record note hpass
      simp only [hstep, awaits, hpass, htodo']
      omega

/-- A pass that is let go on comes to its end. -/
theorem exists_passes (h : w.pass.isSome = true) :
    ∃ n, Along (next env) (fun w a => w.pass.isSome = true ∧ (a = .pass ∨ Keeps env w a)) w
        (List.replicate n .pass) ∧
      ((List.replicate n .pass).foldl (next env) w).pass = none := by
  induction hn : awaits w using Nat.strong_induction_on generalizing w with
  | h n ih =>
    subst hn
    cases hnext : (passStep env w).pass with
    | none => exact ⟨1, ⟨⟨h, .inl rfl⟩, trivial⟩, hnext⟩
    | some pass =>
      have hsome : (passStep env w).pass.isSome = true := by rw [hnext]; rfl
      have hless : awaits (passStep env w) < awaits w := by
        obtain hnone | hless := @awaits_passStep _ _ _ _ env w h
        · rw [hnone] at hsome
          cases hsome
        · exact hless
      obtain ⟨m, halong, hended⟩ := ih _ hless hsome rfl
      exact ⟨m + 1, ⟨⟨h, .inl rfl⟩, halong⟩, hended⟩

end Runs

section Overlapped

variable {env : Env C K F} {w : World C K F} {records : Dict (Record F)}

/-- The pass under way read `records`. -/
def ReadFrom (records : Dict (Record F)) (w : World C K F) : Prop :=
  ∃ scan, scan.baseline = records ∧
    (w.pass = some (.scanning scan) ∨ ∃ id record note, w.pass = some (.reading scan id record note))

/-- A pass that is not at its end writes nothing, and goes on with what it read. -/
theorem ReadFrom.passStep (h : ReadFrom records w) :
    ((passStep env w).finalized = w.finalized ∧ (passStep env w).followups = w.followups ∧
        ReadFrom records (passStep env w)) ∨
      ∃ scan, scan.baseline = records ∧ passStep env w = publish w scan := by
  obtain ⟨scan, hbaseline, hpass | ⟨id, record, note, hpass⟩⟩ := h
  · cases htodo : scan.todo with
    | nil => exact .inr ⟨scan, hbaseline, by simp only [Review.passStep, hpass, htodo]⟩
    | cons id rest =>
      left
      obtain ⟨scan', -, hkept, pass, hstep, h⟩ :=
        @passStep_scanning _ _ _ _ env w scan id rest hpass htodo
      rw [hstep]
      refine ⟨rfl, rfl, scan', hkept.trans hbaseline, ?_⟩
      obtain rfl | ⟨record, note, rfl⟩ := h
      · exact .inl rfl
      · exact .inr ⟨id, record, note, rfl⟩
  · left
    obtain ⟨scan', -, hkept, hstep⟩ := @passStep_reading _ _ _ _ env w scan id record note hpass
    rw [hstep]
    exact ⟨rfl, rfl, scan', hkept.trans hbaseline, .inl rfl⟩

/-- What a pass read stays what it read, whatever overlaps it. -/
theorem ReadFrom.foldl {during : List (Action C K)} (h : ReadFrom records w)
    (halong : Along (next env) (fun w _ => w.pass.isSome = true) w during)
    (hended : (during.foldl (next env) w).pass.isSome = true) :
    ReadFrom records (during.foldl (next env) w) := by
  induction during generalizing w with
  | nil => exact h
  | cons a during ih =>
    obtain ⟨-, halong⟩ := halong
    by_cases hpass : a = .pass
    · subst hpass
      obtain ⟨-, -, h'⟩ | ⟨scan, -, hpublish⟩ := @ReadFrom.passStep _ _ _ _ env w records h
      · exact ih h' halong hended
      · have hnext : (next env w .pass).pass = none := by
          show (Review.passStep env w).pass = none
          rw [hpublish]
          rfl
        cases during with
        | nil =>
          rw [show (List.foldl (next env) w [.pass]).pass = none from hnext] at hended
          cases hended
        | cons b during =>
          have hsome : (next env w .pass).pass.isSome = true := halong.1
          rw [hnext] at hsome
          cases hsome
    · have hkept := (@next_of_ne_pass _ _ _ _ env w a hpass).1
      apply ih _ halong hended
      obtain ⟨scan, hbaseline, h⟩ := h
      exact ⟨scan, hbaseline, by rwa [hkept]⟩

theorem readFrom_opened {generation : Hash} (hpass : w.pass = some (.opened generation)) :
    ReadFrom w.finalized (next env w .pass) := by
  simp only [next, passStep, hpass]
  exact ⟨_, rfl, .inl rfl⟩

/-- A step of a pass leaves alone what is no longer what it read. -/
theorem ReadFrom.respects {id : NoteId} (h : ReadFrom records w)
    (hmoved : view w.finalized id ≠ view records id) :
    view (next env w .pass).finalized id = view w.finalized id ∧
      view (next env w .pass).followups id = view w.followups id := by
  obtain ⟨hfinalized, hfollowups, -⟩ | ⟨scan, hbaseline, hpublish⟩ :=
    @ReadFrom.passStep _ _ _ _ env w records h
  · exact ⟨congrFun (congrArg view hfinalized) id, congrFun (congrArg view hfollowups) id⟩
  · have hnext : next env w .pass = publish w scan := hpublish
    rw [hnext]
    exact publish_of_ne (by rwa [hbaseline])

end Overlapped

section Main

variable (env : Env C K F) (calendar : K) (before : List (Action C K))

/-- **When the follow-ups are exact**: in every run a pass that nothing overlaps comes to its end
and leaves exact follow-ups if and only if what it leaves alone was right, and however a pass is
overlapped, each of its steps leaves alone the notes whose record is no longer what it read. -/
theorem exact_iff_settled :
    let w : World C K F := run env calendar before
    (w.pass = none → ∃ n, Undisturbed env w (List.replicate n .pass)) ∧
      (∀ during, Undisturbed env w during →
        (Exact env (during.foldl (next env) (next env w .pass)) ↔ Settled env w)) ∧
      ∀ generation during, w.pass = some (.opened generation) →
        Along (next env) (fun w _ => w.pass.isSome = true) (next env w .pass) during →
        let reached := during.foldl (next env) (next env w .pass)
        reached.pass.isSome = true →
        ∀ id, view reached.finalized id ≠ view w.finalized id →
          view (next env reached .pass).finalized id = view reached.finalized id ∧
            view (next env reached .pass).followups id = view reached.followups id := by
  intro w
  refine ⟨?_, ?_, ?_⟩
  · intro hpass
    have hbegun : (next env w .pass).pass.isSome = true := by
      simp only [next, passStep, hpass]
      rfl
    obtain ⟨n, halong, hended⟩ := @exists_passes _ _ _ _ env _ hbegun
    exact ⟨n, hpass, halong, hended⟩
  · intro during h
    obtain ⟨last, scan, hunder, hscan, hpublish⟩ := (under_begin h.begins).ends h.goesOn h.ends
    rw [hpublish]
    exact hunder.exact_iff hscan (backed_run before)
  · intro generation during hpass halong reached hsome id hmoved
    exact ((readFrom_opened hpass).foldl halong hsome).respects hmoved

end Main

section Samples

/-- Notes that are their dates: the evidence is what the calendar has on that date. -/
def datedEnv : Env Nat Unit Unit where
  contentHash := fun date => List.replicate date 'n'
  reviewed := fun _ => true
  validReview := fun _ => true
  facts := fun _ _ => some ()
  evidenceHash := fun _ date => some (List.replicate date 'e')
  candidates := fun _ _ => []
  generation := fun _ => "g".toList

def standup : NoteId := "standup".toList

def dated (date : Nat) : Option (Note Nat) := some ⟨date, "Meetings/Standup.md".toList⟩

/-- The note of the first is confirmed. -/
def confirmedRun : List (Action Nat Unit) :=
  [.edit standup (dated 1), .complete standup, .finalize 0 standup, .go 0, .go 0]

/-- A pass, and the note is dated on the second; a pass, and it is dated on the first again. -/
def editedBack : List (Action Nat Unit) :=
  confirmedRun ++ List.replicate 5 .pass ++ [.edit standup (dated 2)] ++ List.replicate 5 .pass ++
    [.edit standup (dated 1)]

theorem undisturbed_confirmedRun :
    Undisturbed datedEnv (run datedEnv () confirmedRun) (List.replicate 4 .pass) where
  begins := Option.isNone_iff_eq_none.1 (by decide +kernel)
  goesOn :=
    ⟨⟨by decide +kernel, .inl rfl⟩, ⟨by decide +kernel, .inl rfl⟩, ⟨by decide +kernel, .inl rfl⟩,
      ⟨by decide +kernel, .inl rfl⟩, trivial⟩
  ends := Option.isNone_iff_eq_none.1 (by decide +kernel)

theorem undisturbed_editedBack :
    Undisturbed datedEnv (run datedEnv () editedBack) (List.replicate 3 .pass) where
  begins := Option.isNone_iff_eq_none.1 (by decide +kernel)
  goesOn :=
    ⟨⟨by decide +kernel, .inl rfl⟩, ⟨by decide +kernel, .inl rfl⟩, ⟨by decide +kernel, .inl rfl⟩,
      trivial⟩
  ends := Option.isNone_iff_eq_none.1 (by decide +kernel)

theorem exact_after_confirmedRun :
    Exact datedEnv ((List.replicate 4 .pass).foldl (next datedEnv)
      (next datedEnv (run datedEnv () confirmedRun) .pass)) := by
  apply ((exact_iff_settled datedEnv () confirmedRun).2.1 _ undisturbed_confirmedRun).2
  intro id record note _ _ _ _ hgeneration
  have hfresh : (run datedEnv () confirmedRun).calendarGeneration = none := by decide +kernel
  rw [hfresh] at hgeneration
  cases hgeneration

/-- The pass skips the note that has its recorded hash again, and leaves its follow-up open. -/
theorem edited_back_keeps_followup :
    Undisturbed datedEnv (run datedEnv () editedBack) (List.replicate 3 .pass) ∧
      ¬ Exact datedEnv ((List.replicate 3 .pass).foldl (next datedEnv)
        (next datedEnv (run datedEnv () editedBack) .pass)) := by
  refine ⟨undisturbed_editedBack, ?_⟩
  intro hexact
  have hopen := (hexact.followups standup).1 (by decide +kernel)
  obtain ⟨record, hrecord, -, note, hash, hnote, hevidence, hne⟩ := hopen
  have hdate : (((List.replicate 3 .pass).foldl (next datedEnv)
      (next datedEnv (run datedEnv () editedBack) .pass)).notes standup).map (·.content) =
        some 1 := by decide +kernel
  have hcalendar : (view ((List.replicate 3 .pass).foldl (next datedEnv)
      (next datedEnv (run datedEnv () editedBack) .pass)).finalized standup).map
        (·.calendarHash) = some ['e'] := by decide +kernel
  obtain ⟨note', hnote', hdate⟩ := Option.map_eq_some_iff.1 hdate
  obtain ⟨record', hrecord', hcalendar⟩ := Option.map_eq_some_iff.1 hcalendar
  obtain rfl := Option.some.inj (hnote.symm.trans hnote')
  obtain rfl := Option.some.inj (hrecord.symm.trans hrecord')
  apply hne
  rw [hcalendar, ← Option.some.inj hevidence, hdate]
  rfl

end Samples

end Coppermind.Review
