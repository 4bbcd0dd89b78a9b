import Coppermind.FieldIndex.Refresh
import Coppermind.Lib.Assoc

/-!
# No request for a rebuild is lost

A request stays pending until a pass that read it acknowledges it, and a pass acknowledges only
the request it read, where no other arrived since, and once its rebuild is committed or its failure
recorded.  So the first pass that reads after a request reads it, or a later one in its place, and
rebuilds; where the pass is killed, the request is pending still.
-/

namespace Coppermind.FieldIndex

open Coppermind.Lib Coppermind.Lib.Task Coppermind.Schema

section Places

/-- The entry at a place of the history. -/
def At (log : List Entry) (i : Nat) (e : Entry) : Prop := log[i]? = some e

variable {log : List Entry} {e e' : Entry} {i : Nat}

theorem at_snoc : At (log ++ [e]) i e' ↔ At log i e' ∨ i = log.length ∧ e = e' := by
  unfold At
  rw [List.getElem?_append]
  split
  · next h => simp [Nat.ne_of_lt h]
  · next h =>
    have hnone : log[i]? = none := List.getElem?_eq_none (by omega)
    rw [hnone]
    by_cases hi : i = log.length
    · simp [hi]
    · have hout : [e][i - log.length]? = none := List.getElem?_eq_none (by simp; omega)
      simp [hi, hout]

theorem At.lt (h : At log i e) : i < log.length := (List.getElem?_eq_some_iff.1 h).1

theorem At.mem (h : At log i e) : e ∈ log := List.mem_of_getElem? h

theorem at_snoc_of_ne (h : e ≠ e') : At (log ++ [e]) i e' ↔ At log i e' := by
  rw [at_snoc]
  simp [h]

theorem At.of_prefix {log' : List Entry} (h : At log i e) (hlog : log <+: log') : At log' i e := by
  obtain ⟨new, rfl⟩ := hlog
  unfold At
  rw [List.getElem?_append_left h.lt]
  exact h

theorem At.snoc (h : At log i e) : At (log ++ [e']) i e := at_snoc.2 (Or.inl h)

theorem at_last : At (log ++ [e]) log.length e := at_snoc.2 (Or.inr ⟨rfl, rfl⟩)

end Places

section Served

/-- The pass that reads at a place of the history reads the request that was made at another, or
one made since, and has to rebuild. -/
def Reads (log : List Entry) (i k : Nat) : Prop :=
  ∃ t, At log k (.read (some t) true) ∧ ∃ m, i ≤ m ∧ m < k ∧ At log m (.made t)

/-- Before a place of the history, the pass that read at another has begun its rebuild and
committed a generation, or has recorded that it failed. -/
def Answered (log : List Entry) (k j : Nat) : Prop :=
  (∃ m n g, k < m ∧ m < n ∧ n < j ∧ At log m (.building k) ∧ At log n (.committed g k)) ∨
    ∃ n, k < n ∧ n < j ∧ At log n (.failed k)

/-- Before a place of the history, the request that was made at another has had its rebuild. -/
def Served (log : List Entry) (i j : Nat) : Prop :=
  ∃ k, i < k ∧ Reads log i k ∧ Answered log k j

variable {log log' : List Entry} {i j j' k : Nat}

theorem Reads.mono (h : Reads log i k) (hlog : log <+: log') : Reads log' i k := by
  obtain ⟨t, hread, m, him, hmk, hmade⟩ := h
  exact ⟨t, hread.of_prefix hlog, m, him, hmk, hmade.of_prefix hlog⟩

theorem Answered.mono (h : Answered log k j) (hlog : log <+: log') (hj : j ≤ j') :
    Answered log' k j' := by
  obtain ⟨m, n, g, hkm, hmn, hnj, hbuilding, hcommitted⟩ | ⟨n, hkn, hnj, hfailed⟩ := h
  · exact .inl ⟨m, n, g, hkm, hmn, by omega, hbuilding.of_prefix hlog, hcommitted.of_prefix hlog⟩
  · exact .inr ⟨n, hkn, by omega, hfailed.of_prefix hlog⟩

theorem Served.mono (h : Served log i j) (hlog : log <+: log') (hj : j ≤ j') :
    Served log' i j' := by
  obtain ⟨k, hik, hreads, hanswered⟩ := h
  exact ⟨k, hik, hreads.mono hlog, hanswered.mono hlog hj⟩

end Served

section Kept

/-- The generation of the last commit. -/
def lastCommitted (first : Option GenerationId) (log : List Entry) : Option GenerationId :=
  log.foldl (fun last e =>
    match e with
    | .committed g _ => some g
    | _ => last) first

/-- The request is the last one that was made. -/
def IsLast (log : List Entry) (t : Token) : Prop :=
  ∃ m, At log m (.made t) ∧ ∀ k t', m < k → ¬At log k (.made t')

/-- **The requests are kept**: the pending one is the last that was made, one that had no rebuild
is pending, or another in its place, a pass that reads after a request reads it where it had no
rebuild before, an acknowledgment is of what was read and rebuilt, and the active generation is the
one of the last commit. -/
structure Kept (first : Option GenerationId) (w : World) : Prop where
  pending : ∀ t, w.request = some t → IsLast w.log t
  served : ∀ i t, At w.log i (.made t) → Served w.log i w.log.length ∨ w.request.isSome = true
  once : ∀ i j t, At w.log i (.made t) → At w.log j (.made t) → i = j
  read : ∀ i j t r b, At w.log i (.made t) → i < j → At w.log j (.read r b) →
    Served w.log i j ∨ Reads w.log i j
  acknowledged : ∀ i j t, At w.log j (.acknowledged t i) →
    i < j ∧ At w.log i (.read (some t) true) ∧ Answered w.log i j ∧
      ∀ k t', i < k → k < j → ¬At w.log k (.made t')
  active : (w.generations.filter (·.active)).map (·.id) = (lastCommitted first w.log).toList

variable {first : Option GenerationId} {w w' : World} {e : Entry}

theorem lastCommitted_snoc {log : List Entry} :
    lastCommitted first (log ++ [e]) =
      match e with
      | .committed g _ => some g
      | _ => lastCommitted first log := by
  unfold lastCommitted
  rw [List.foldl_append]
  cases e <;> rfl

theorem IsLast.snoc {log : List Entry} {t : Token} (h : IsLast log t) (he : ∀ t', e ≠ .made t') :
    IsLast (log ++ [e]) t := by
  obtain ⟨m, hmade, hlast⟩ := h
  refine ⟨m, hmade.snoc, ?_⟩
  intro k t' hmk
  rw [at_snoc_of_ne (he t')]
  exact hlast k t' hmk

namespace Kept

/-- What neither the requests nor the generations have a part in. -/
theorem of_same (h : Kept first w) (hrequest : w'.request = w.request)
    (hlog : w'.log = w.log) (hgenerations : w'.generations = w.generations) : Kept first w' := by
  obtain ⟨schema, notes, request, job, generations, record, log⟩ := w'
  subst hrequest hlog hgenerations
  exact ⟨h.pending, h.served, h.once, h.read, h.acknowledged, h.active⟩

/-- **One more entry**: what it owes, as a request, as a reading or as an acknowledgment. -/
theorem snoc (h : Kept first w) (hlog : w'.log = w.log ++ [e])
    (hnew : ∀ t, e = .made t → .made t ∉ w.log)
    (hreads : ∀ i t r b, e = .read r b → At w.log i (.made t) →
      Served w.log i w.log.length ∨ Reads (w.log ++ [e]) i w.log.length)
    (hacknowledged : ∀ i t, e = .acknowledged t i → At w.log i (.read (some t) true) ∧
      Answered w.log i w.log.length ∧ ∀ k t', i < k → ¬At w.log k (.made t'))
    (hpending : ∀ t, w'.request = some t → IsLast (w.log ++ [e]) t)
    (hserved : ∀ i t, At (w.log ++ [e]) i (.made t) →
      Served (w.log ++ [e]) i (w.log ++ [e]).length ∨ w'.request.isSome = true)
    (hactive : (w'.generations.filter (·.active)).map (·.id) =
      (lastCommitted first (w.log ++ [e])).toList) : Kept first w' := by
  have hgrows : w.log <+: w.log ++ [e] := List.prefix_append _ _
  refine ⟨?_, ?_, ?_, ?_, ?_, ?_⟩ <;> rw [hlog]
  · exact hpending
  · exact hserved
  · intro i j t hi hj
    obtain hi | ⟨hi, he⟩ := at_snoc.1 hi
    · obtain hj | ⟨-, he⟩ := at_snoc.1 hj
      · exact h.once i j t hi hj
      · exact absurd hi.mem (hnew t he)
    · obtain hj | ⟨hj, -⟩ := at_snoc.1 hj
      · exact absurd hj.mem (hnew t he)
      · omega
  · intro i j t r b hi hij hj
    obtain hj | ⟨hj, he⟩ := at_snoc.1 hj
    · obtain hi | ⟨hi, -⟩ := at_snoc.1 hi
      · obtain hserved | hreads := h.read i j t r b hi hij hj
        · exact .inl (hserved.mono hgrows (le_refl j))
        · exact .inr (hreads.mono hgrows)
      · have hlt := hj.lt
        omega
    · rw [at_snoc_of_ne (by rw [he]; simp)] at hi
      rw [hj]
      obtain hserved | hreads := hreads i t r b he hi
      · exact .inl (hserved.mono hgrows (le_refl _))
      · exact .inr hreads
  · intro i j t hj
    obtain hj | ⟨hj, he⟩ := at_snoc.1 hj
    · obtain ⟨hij, hread, hanswered, hnone⟩ := h.acknowledged i j t hj
      refine ⟨hij, hread.snoc, hanswered.mono hgrows (le_refl j), ?_⟩
      intro k t' hik hkj hk
      have hlt := hj.lt
      obtain hk | ⟨hk, -⟩ := at_snoc.1 hk
      · exact hnone k t' hik hkj hk
      · omega
    · obtain ⟨hread, hanswered, hnone⟩ := hacknowledged i t he
      rw [hj]
      refine ⟨hread.lt, hread.snoc, hanswered.mono hgrows (le_refl _), ?_⟩
      intro k t' hik hkj hk
      rw [at_snoc_of_ne (by rw [he]; simp)] at hk
      exact hnone k t' hik hk
  · exact hactive

/-- A request that was served stays so, and one that is pending too. -/
theorem served_snoc (h : Kept first w) (he : ∀ t, e ≠ .made t) {i : Nat} {t : Token}
    (hi : At (w.log ++ [e]) i (.made t)) :
    Served (w.log ++ [e]) i (w.log ++ [e]).length ∨ w.request.isSome = true := by
  rw [at_snoc_of_ne (he t)] at hi
  obtain hserved | hpending := h.served i t hi
  · exact .inl (hserved.mono (List.prefix_append _ _) (by simp))
  · exact .inr hpending

/-- **A request is made.** -/
theorem made (h : Kept first w) {t : Token} (hnew : .made t ∉ w.log)
    (hrequest : w'.request = some t) (hlog : w'.log = w.log ++ [.made t])
    (hgenerations : w'.generations = w.generations) : Kept first w' := by
  apply h.snoc hlog
  · intro t' ht'
    cases ht'
    exact hnew
  · intro i t' r b he
    cases he
  · intro i t' he
    cases he
  · intro t' ht'
    obtain rfl : t = t' := Option.some.inj (hrequest.symm.trans ht')
    refine ⟨w.log.length, at_last, ?_⟩
    intro k t' hk hmade
    have hlt := hmade.lt
    rw [List.length_append, List.length_singleton] at hlt
    omega
  · intro _ _ _
    right
    rw [hrequest]
    rfl
  · rw [hgenerations, lastCommitted_snoc]
    exact h.active

/-- **A pass reads**: a request that had no rebuild is pending, so it is read now. -/
theorem reading (h : Kept first w) {forced : Bool}
    (hforced : w.request.isSome = true → forced = true) (hrequest : w'.request = w.request)
    (hlog : w'.log = w.log ++ [.read w.request forced])
    (hgenerations : w'.generations = w.generations) : Kept first w' := by
  have hne : ∀ t, Entry.read w.request forced ≠ .made t := by
    intro t he
    cases he
  apply h.snoc hlog
  · intro t he
    exact absurd he (hne t)
  · intro i t r b _ hi
    obtain hserved | hpending := h.served i t hi
    · exact .inl hserved
    · obtain ⟨t', ht'⟩ := Option.isSome_iff_exists.1 hpending
      obtain ⟨m, hm, hlast⟩ := h.pending t' ht'
      have him : i ≤ m := by
        by_contra hlt
        exact hlast i t (by omega) hi
      refine .inr ⟨t', ?_, m, him, hm.lt, hm.snoc⟩
      rw [← ht', ← hforced hpending]
      exact at_last
  · intro i t he
    cases he
  · intro t ht
    exact (h.pending t (hrequest ▸ ht)).snoc hne
  · intro i t hi
    rw [hrequest]
    exact h.served_snoc hne hi
  · rw [hgenerations, lastCommitted_snoc]
    exact h.active

/-- **An acknowledgment** of the request a pass read at a place of the history and has answered,
where it still is the pending one. -/
theorem acknowledge (h : Kept first w) {t : Token} {readAt : Nat}
    (hread : At w.log readAt (.read (some t) true))
    (hmade : ∃ m < readAt, At w.log m (.made t)) (hanswered : Answered w.log readAt w.log.length)
    (hpending : w.request = some t) :
    Kept first { w with request := none, log := w.log ++ [.acknowledged t readAt] } := by
  obtain ⟨m, hmread, hm⟩ := hmade
  obtain ⟨m', hm', hlast⟩ := h.pending t hpending
  obtain rfl := h.once m m' t hm hm'
  have hgrows : w.log <+: w.log ++ [.acknowledged t readAt] := List.prefix_append _ _
  apply h.snoc rfl
  · intro t' he
    cases he
  · intro i t' r b he
    cases he
  · intro i t' he
    cases he
    refine ⟨hread, hanswered, ?_⟩
    intro k t' hk
    exact hlast k t' (by omega)
  · intro t' ht'
    cases ht'
  · -- Every request was made before the reading.
    intro i t' hi
    rw [at_snoc_of_ne (by simp)] at hi
    have him : i ≤ m := by
      by_contra hlt
      exact hlast i t' (by omega) hi
    exact .inl ⟨readAt, by omega, ⟨t, hread.snoc, m, him, hmread, hm.snoc⟩,
      hanswered.mono hgrows (by simp)⟩
  · rw [lastCommitted_snoc]
    exact h.active

/-- An entry of a rebuild, which is no commit. -/
theorem rebuilding (h : Kept first w) {readAt : Nat}
    (he : e = .building readAt ∨ e = .failed readAt) (hrequest : w'.request = w.request)
    (hlog : w'.log = w.log ++ [e]) (hgenerations : w'.generations = w.generations) :
    Kept first w' := by
  have hne : ∀ t, e ≠ .made t := by
    intro t
    obtain rfl | rfl := he <;> simp
  apply h.snoc hlog
  · intro t hmade
    exact absurd hmade (hne t)
  · intro i t r b hread
    subst hread
    obtain he | he := he <;> cases he
  · intro i t hacknowledged
    subst hacknowledged
    obtain he | he := he <;> cases he
  · intro t ht
    exact (h.pending t (hrequest ▸ ht)).snoc hne
  · intro i t hi
    rw [hrequest]
    exact h.served_snoc hne hi
  · rw [hgenerations, lastCommitted_snoc]
    obtain rfl | rfl := he <;> exact h.active

/-- **A commit**: the generation that was active goes, and the new one is active alone. -/
theorem commit (h : Kept first w) {generation : Generation} {readAt : Nat}
    (hactive : generation.active = true) :
    Kept first (commitGeneration (w.generations.find? (·.active)) generation readAt w) := by
  have hne : ∀ t, Entry.committed generation.id readAt ≠ .made t := by
    intro t he
    cases he
  apply h.snoc rfl
  · intro t he
    exact absurd he (hne t)
  · intro i t r b he
    cases he
  · intro i t he
    cases he
  · intro t ht
    exact (h.pending t ht).snoc hne
  · intro i t hi
    exact h.served_snoc hne hi
  · -- Whatever is active has the one id the invariant names.
    have hid : ∀ g ∈ w.generations, g.active = true → lastCommitted first w.log = some g.id := by
      intro g hg hgactive
      have hmem : g.id ∈ (lastCommitted first w.log).toList := by
        rw [← h.active]
        exact List.mem_map.2 ⟨g, List.mem_filter.2 ⟨hg, hgactive⟩, rfl⟩
      exact Option.mem_toList.1 hmem
    have hgone : (w.generations.filter fun g =>
        (w.generations.find? (·.active)).all (·.id != g.id)).filter (·.active) = [] := by
      apply List.filter_eq_nil_iff.2
      intro g hg hgactive
      obtain ⟨hmem, hg⟩ := List.mem_filter.1 hg
      cases hfind : w.generations.find? (·.active) with
      | none => exact absurd hgactive (by simpa using List.find?_eq_none.1 hfind g hmem)
      | some a =>
        have ha := hid a (List.mem_of_find?_eq_some hfind) (by simpa using List.find?_some hfind)
        have hsame := (hid g hmem hgactive).symm.trans ha
        rw [Option.some.injEq] at hsame
        rw [hfind] at hg
        simp [hsame] at hg
    change (((_ : List Generation) ++ [generation]).filter (·.active)).map (·.id) = _
    rw [List.filter_append, hgone, lastCommitted_snoc]
    simp [hactive]

end Kept

end Kept

section Answering

/-- Every reading from a place of the history on that had to rebuild has its rebuild, but maybe
the one of a pass that runs. -/
def AllAnswered (n : Nat) (running : Option Nat) (log : List Entry) : Prop :=
  ∀ k r, n ≤ k → running ≠ some k → At log k (.read r true) → Answered log k log.length

/-- How far a pass has come. -/
inductive Stage where
  | opened | building | answered

/-- What the history shows of it. -/
def Stage.Holds (log : List Entry) (readAt : Nat) : Stage → Prop
  | .opened => True
  | .building => ∃ m, readAt < m ∧ At log m (.building readAt)
  | .answered => Answered log readAt log.length

variable {log log' : List Entry} {n readAt : Nat} {running : Option Nat} {e : Entry}

theorem Stage.Holds.mono {stage : Stage} (h : stage.Holds log readAt) (hlog : log <+: log') :
    stage.Holds log' readAt := by
  cases stage with
  | opened => trivial
  | building =>
    obtain ⟨m, hlt, hm⟩ := h
    exact ⟨m, hlt, hm.of_prefix hlog⟩
  | answered => exact Answered.mono h hlog hlog.length_le

theorem allAnswered_length : AllAnswered log.length none log := by
  intro k r hk _ hread
  have hlt := hread.lt
  omega

/-- Entries that are no readings. -/
theorem AllAnswered.append {new : List Entry} (h : AllAnswered n running log)
    (hnew : ∀ r b, .read r b ∉ new) : AllAnswered n running (log ++ new) := by
  intro k r hk hrunning hread
  have hgrows : log <+: log ++ new := List.prefix_append _ _
  have hbefore : At log k (.read r true) := by
    unfold At at hread ⊢
    rw [List.getElem?_append] at hread
    split at hread
    · exact hread
    · exact absurd (List.mem_of_getElem? hread) (hnew r true)
  exact (h k r hk hrunning hbefore).mono hgrows hgrows.length_le

theorem AllAnswered.reading (h : AllAnswered n none log) (r : Option Token) (forced : Bool) :
    AllAnswered n (some log.length) (log ++ [.read r forced]) := by
  intro k r' hk hrunning hread
  have hgrows : log <+: log ++ [.read r forced] := List.prefix_append _ _
  obtain hread | ⟨heq, -⟩ := at_snoc.1 hread
  · exact (h k r' hk (by simp) hread).mono hgrows hgrows.length_le
  · exact absurd (congrArg some heq.symm) hrunning

/-- The pass ends: it had to rebuild only if it has answered. -/
theorem AllAnswered.ended {r : Option Token} {forced : Bool}
    (h : AllAnswered n (some readAt) log) (hread : At log readAt (.read r forced))
    (hforced : forced = true → Answered log readAt log.length) : AllAnswered n none log := by
  intro k r' hk _ hread'
  by_cases hkr : readAt = k
  · subst hkr
    unfold At at hread hread'
    rw [hread, Option.some.injEq, Entry.read.injEq] at hread'
    exact hforced hread'.2
  · exact h k r' hk (by simpa using hkr) hread'

end Answering

section Pass

/-- What others leave of the world while a pass stands before a step: they make requests. -/
structure Left (first : Option GenerationId) (s s' : World) : Prop where
  kept : Kept first s'
  generations : s'.generations = s.generations
  log : ∃ requests : List Token, s'.log = s.log ++ requests.map .made

/-- Others keep the requests, and the steps at these sites may fail. -/
def passWeather (first : Option GenerationId) (fails : Site → Prop) : Weather Site World :=
  ⟨fun _ s s' => Kept first s → Left first s s', fun _ _ _ => True, fails⟩

/-- Between two passes: where no failure goes unrecorded, the readings from a place on have their
rebuilds. -/
structure Between (first : Option GenerationId) (fails : Site → Prop) (n : Nat) (s : World) :
    Prop where
  kept : Kept first s
  answered : ¬fails .writeFailed → AllAnswered n none s.log

variable {α : Type} {first : Option GenerationId} {fails : Site → Prop} {n : Nat}
  {E : World → Prop} {Q : α → World → Prop} {s s' : World}

theorem Left.grows (h : Left first s s') : s.log <+: s'.log := by
  obtain ⟨requests, hlog⟩ := h.log
  rw [hlog]
  exact List.prefix_append _ _

theorem Left.allAnswered (h : Left first s s') {running : Option Nat}
    (hs : AllAnswered n running s.log) : AllAnswered n running s'.log := by
  obtain ⟨requests, hlog⟩ := h.log
  rw [hlog]
  apply hs.append
  intro r b hmem
  obtain ⟨t, -, ht⟩ := List.mem_map.1 hmem
  cases ht

/-- What a pass leads to among them: `Q` with an answer, `E` where it raises. -/
def Does (first : Option GenerationId) (fails : Site → Prop) (E : World → Prop)
    (Q : α → World → Prop) (t : Op α) (s : World) : Prop :=
  Task.wp (passWeather first fails) (fun _ => Kept first) Q (fun _ => E) t s

theorem does_step {site : Site} {effect : World → World} {rest : World → Op α} {failed : Op α}
    (hs : Kept first s)
    (hrest : ∀ s', Left first s s' → Does first fails E Q (rest s') (effect s'))
    (hfailed : ∀ s', Left first s s' → fails site → Does first fails E Q failed s') :
    Does first fails E Q (step site effect rest failed) s :=
  ⟨hs, fun s' hothers => ⟨fun _ => hrest s' (hothers hs), hfailed s' (hothers hs)⟩⟩

theorem does_bind {β : Type} {Q : β → World → Prop} {R : α → World → Prop} {t : Op α}
    {k : α → Op β} (ht : Does first fails E R t s)
    (hk : ∀ a s', R a s' → Does first fails E Q (k a) s') : Does first fails E Q (t >>= k) s :=
  Task.wp_seq ht hk

/-- A pass that has read its request, how far it has come, and the generations it finds. -/
structure Stands (first : Option GenerationId) (fails : Site → Prop) (n : Nat) (o : Opened)
    (stage : Stage) (generations : List Generation) (s : World) : Prop where
  kept : Kept first s
  read : At s.log o.readAt (.read o.request o.forced)
  made : ∀ t, o.request = some t → o.forced = true ∧ ∃ m < o.readAt, At s.log m (.made t)
  stage : stage.Holds s.log o.readAt
  others : ¬fails .writeFailed → AllAnswered n (some o.readAt) s.log
  generations : s.generations = generations

variable {o : Opened} {stage : Stage} {generations : List Generation}

namespace Stands

theorem left (h : Stands first fails n o stage generations s) (hleft : Left first s s') :
    Stands first fails n o stage generations s' where
  kept := hleft.kept
  read := h.read.of_prefix hleft.grows
  made := by
    intro t ht
    obtain ⟨hforced, m, hlt, hm⟩ := h.made t ht
    exact ⟨hforced, m, hlt, hm.of_prefix hleft.grows⟩
  stage := h.stage.mono hleft.grows
  others := fun hrecords => hleft.allAnswered (h.others hrecords)
  generations := hleft.generations.trans h.generations

/-- The record and the receipt have no part in it. -/
theorem of_same (h : Stands first fails n o stage generations s) (hrequest : s'.request = s.request)
    (hlog : s'.log = s.log) (hgenerations : s'.generations = s.generations) :
    Stands first fails n o stage generations s' := by
  refine ⟨h.kept.of_same hrequest hlog hgenerations, ?_, ?_, ?_, ?_,
    hgenerations.trans h.generations⟩ <;> rw [hlog]
  · exact h.read
  · exact h.made
  · exact h.stage
  · exact h.others

/-- An entry of the pass brings it to its next stage. -/
theorem entry (h : Stands first fails n o stage generations s) {e : Entry} {stage' : Stage}
    {generations' : List Generation} (hkept : Kept first s') (he : ∀ r b, e ≠ .read r b)
    (hlog : s'.log = s.log ++ [e]) (hstage : stage'.Holds (s.log ++ [e]) o.readAt)
    (hgenerations : s'.generations = generations') :
    Stands first fails n o stage' generations' s' := by
  refine ⟨hkept, ?_, ?_, ?_, ?_, hgenerations⟩ <;> rw [hlog]
  · exact h.read.snoc
  · intro t ht
    obtain ⟨hforced, m, hlt, hm⟩ := h.made t ht
    exact ⟨hforced, m, hlt, hm.snoc⟩
  · exact hstage
  · intro hrecords
    apply (h.others hrecords).append
    intro r b hmem
    exact he r b (List.mem_singleton.1 hmem).symm

/-- A pass ends that has answered, or that did not have to. -/
theorem ended (h : Stands first fails n o stage generations s)
    (hforced : o.forced = true → Answered s.log o.readAt s.log.length) :
    Between first fails n s :=
  ⟨h.kept, fun hrecords => (h.others hrecords).ended h.read hforced⟩

section Steps

variable (hE : ∀ s, Stands first fails n o stage generations s → E s)

include hE

/-- A step that reads. -/
theorem looks {site : Site} {f : World → α} (h : Stands first fails n o stage generations s) :
    Does first fails E (fun a s' => a = f s' ∧ Stands first fails n o stage generations s')
      (look site .failed f) s :=
  does_step h.kept (fun _ hleft => ⟨rfl, h.left hleft⟩) fun s' hleft _ => hE s' (h.left hleft)

/-- A step that only waits. -/
theorem waits {site : Site} (h : Stands first fails n o stage generations s) :
    Does first fails E (fun _ => Stands first fails n o stage generations)
      (look site .failed fun _ => ()) s :=
  does_step h.kept (fun _ hleft => h.left hleft) fun s' hleft _ => hE s' (h.left hleft)

/-- A step that writes the receipt of the pass, or its record. -/
theorem writes {site : Site} {f : World → World} (h : Stands first fails n o stage generations s)
    (hf : ∀ s, (f s).request = s.request ∧ (f s).log = s.log ∧
      (f s).generations = s.generations) :
    Does first fails E (fun _ => Stands first fails n o stage generations)
      (act site .failed f) s := by
  apply does_step h.kept
  · intro s' hleft
    obtain ⟨hrequest, hlog, hgenerations⟩ := hf s'
    exact (h.left hleft).of_same hrequest hlog hgenerations
  · intro s' hleft _
    exact hE s' (h.left hleft)

theorem indexes (h : Stands first fails n o stage generations s) (groups : List (List Text)) :
    Does first fails E (fun _ => Stands first fails n o stage generations)
      (indexBatches groups) s := by
  induction groups generalizing s with
  | nil => exact h
  | cons ids rest ih =>
    apply does_bind
    · exact h.writes hE fun _ => ⟨rfl, rfl, rfl⟩
    intro _ s₁ h₁
    apply does_bind
    · exact h₁.writes hE fun _ => ⟨rfl, rfl, rfl⟩
    intro _ s₂ h₂
    apply does_bind (h₂.waits hE)
    intro _ s₃ h₃
    exact ih h₃

theorem deletes (h : Stands first fails n o stage generations s) (active : Option Generation) :
    Does first fails E (fun _ => Stands first fails n o stage generations)
      (deleteActive active) s := by
  cases active with
  | none => exact h
  | some _ => exact h.waits hE

/-- The receipt says that the rebuild runs. -/
theorem begins (h : Stands first fails n o stage generations s) :
    Does first fails E (fun _ => Stands first fails n o .building generations)
      (act .writeRunning .failed fun w =>
        (w.writeRecord .running).addEntry (.building o.readAt)) s := by
  apply does_step h.kept
  · intro s' hleft
    have h' := h.left hleft
    have hkept : Kept first ((s'.writeRecord .running).addEntry (.building o.readAt)) :=
      h'.kept.rebuilding (.inl rfl) rfl rfl rfl
    have hstage : Stage.Holds (s'.log ++ [.building o.readAt]) o.readAt .building :=
      ⟨s'.log.length, h'.read.lt, at_last⟩
    exact h'.entry hkept (fun r b he => by cases he) rfl hstage h'.generations
  · intro s' hleft _
    exact hE s' (h.left hleft)

end Steps

/-- After its commit a pass has answered, and finds the new generations. -/
theorem commits (h : Stands first fails n o .building generations s) {generation : Generation}
    (hactive : generation.active = true)
    (hE : ∀ s, Stands first fails n o .building generations s → E s) :
    Does first fails E (fun _ s' => Stands first fails n o .answered s'.generations s')
      (act .commit .failed
        (commitGeneration (generations.find? (·.active)) generation o.readAt)) s := by
  apply does_step h.kept
  · intro s' hleft
    have h' := h.left hleft
    have hkept : Kept first
        (commitGeneration (s'.generations.find? (·.active)) generation o.readAt s') :=
      h'.kept.commit hactive
    rw [h'.generations] at hkept
    obtain ⟨m, hlt, hm⟩ := h'.stage
    have hstage : Stage.Holds (s'.log ++ [.committed generation.id o.readAt]) o.readAt .answered :=
      .inl ⟨m, s'.log.length, generation.id, hlt, hm.lt, by simp, hm.snoc, at_last⟩
    exact h'.entry hkept (fun r b he => by cases he) rfl hstage rfl
  · intro s' hleft _
    exact hE s' (h.left hleft)

/-- The receipt says that the rebuild failed. -/
theorem records (h : Stands first fails n o stage generations s)
    (hE : ∀ s, fails .writeFailed → Stands first fails n o stage generations s → E s) :
    Does first fails E (fun _ => Stands first fails n o .answered generations)
      (act .writeFailed .failed fun w => (w.writeRecord .failed).addEntry (.failed o.readAt)) s := by
  apply does_step h.kept
  · intro s' hleft
    have h' := h.left hleft
    have hkept : Kept first ((s'.writeRecord .failed).addEntry (.failed o.readAt)) :=
      h'.kept.rebuilding (.inr rfl) rfl rfl rfl
    have hstage : Stage.Holds (s'.log ++ [.failed o.readAt]) o.readAt .answered :=
      .inr ⟨s'.log.length, h'.read.lt, by simp, at_last⟩
    exact h'.entry hkept (fun r b he => by cases he) rfl hstage h'.generations
  · intro s' hleft hfails
    exact hE s' hfails (h.left hleft)

/-- **`acknowledge_request`** keeps the requests: it takes only the one the pass has read, once the
pass has answered. -/
theorem acknowledges {site : Site} (h : Stands first fails n o .answered generations s)
    (hE : ∀ s, Stands first fails n o .answered generations s → E s) :
    Does first fails E (fun _ => Between first fails n) (acknowledgeRequest site o) s := by
  unfold acknowledgeRequest
  cases hrequest : o.request with
  | none => exact h.ended fun _ => h.stage
  | some t =>
    apply does_step h.kept
    · intro s' hleft
      have h' := h.left hleft
      change Between first fails n _
      split
      · next hpending =>
        obtain ⟨hforced, hmade⟩ := h'.made t hrequest
        have hread := h'.read
        rw [hrequest, hforced] at hread
        have hkept := h'.kept.acknowledge hread hmade h'.stage hpending
        have hstage : Stage.Holds (s'.log ++ [.acknowledged t o.readAt]) o.readAt .answered :=
          h'.stage.mono (List.prefix_append _ _)
        exact (h'.entry hkept (fun r b he => by cases he) rfl hstage rfl).ended fun _ => hstage
      · exact h'.ended fun _ => h'.stage
    · intro s' hleft _
      exact hE s' (h.left hleft)

variable (hE : ∀ stage generations s, Stands first fails n o stage generations s → E s)

include hE

theorem builds (h : Stands first fails n o .opened generations s) (pass : Pass) :
    Does first fails E (fun _ => Between first fails n)
      (build pass o (generations.find? (·.active))) s := by
  unfold build
  apply does_bind (h.waits (hE _ _))
  intro _ s₁ h₁
  apply does_bind (h₁.begins (hE _ _))
  intro _ s₂ h₂
  apply does_bind
  · exact h₂.looks (hE _ _)
  intro revision s₃ h₃
  apply does_bind (h₃.2.waits (hE _ _))
  intro _ s₄ h₄
  apply does_bind
  · exact h₄.looks (hE _ _)
  intro ids s₅ h₅
  apply does_bind (h₅.2.indexes (hE _ _) _)
  intro _ s₆ h₆
  apply does_bind
  · exact h₆.looks (hE _ _)
  intro now s₇ h₇
  apply does_bind (R := fun _ => Stands first fails n o .building generations)
  · apply (Task.wp_raiseIf _ _).2
    split
    · exact hE _ _ s₇ h₇.2
    · exact h₇.2
  intro _ s₈ h₈
  apply does_bind (h₈.deletes (hE _ _) _)
  intro _ s₉ h₉
  apply does_bind
  · exact h₉.commits rfl (hE _ _)
  intro _ s₁₀ h₁₀
  apply does_bind (h₁₀.waits (hE _ _))
  intro _ s₁₁ h₁₁
  apply does_bind
  · exact h₁₁.writes (hE _ _) fun _ => ⟨rfl, rfl, rfl⟩
  intro _ s₁₂ h₁₂
  exact h₁₂.acknowledges (hE _ _)

theorem stays_ready (digest : List Definition → Text)
    (h : Stands first fails n o stage generations s) (hforced : o.forced = false) :
    Does first fails E (fun _ => Between first fails n) (ready digest o) s := by
  have hend : ∀ s, Stands first fails n o stage generations s →
      Does first fails E (fun _ => Between first fails n)
        (look .endReady .failed fun _ => ()) s := by
    intro s h
    apply Task.wp_mono (h.waits (hE _ _)) (fun _ _ h => h) ?_ fun _ _ h => h
    intro _ s' h'
    apply h'.ended
    rw [hforced]
    intro habsurd
    cases habsurd
  unfold ready
  split
  · apply does_bind
    · exact h.writes (hE _ _) fun _ => ⟨rfl, rfl, rfl⟩
    intro _ s₁ h₁
    exact hend s₁ h₁
  · exact hend s h

/-- **The `try` of a pass**: one that has to rebuild does, or raises. -/
theorem rebuilds (digest : List Definition → Text) (pass : Pass)
    (h : Stands first fails n o .opened generations s) :
    Does first fails E (fun _ => Between first fails n) (rebuild digest pass o) s := by
  unfold rebuild
  apply does_bind (h.waits (hE _ _))
  intro _ s₁ h₁
  apply does_bind
  · exact h₁.looks (hE _ _)
  intro active s₂ h₂
  obtain ⟨hactive, h₂⟩ := h₂
  split
  · next hready => exact h₂.stays_ready hE digest hready.2
  · rw [hactive, h₂.generations]
    exact h₂.builds hE pass

end Stands

/-- **A pass** keeps the requests, and one that has to rebuild ends with a generation committed or
a failure recorded, unless recording it fails. -/
theorem refresh_does (digest : List Definition → Text) (pass : Pass)
    (hs : Between first fails n s) :
    Does first fails (Between first fails n) (fun _ => Between first fails n)
      (refresh digest pass) s := by
  unfold refresh
  apply does_bind (R := fun o s => ∃ generations, Stands first fails n o .opened generations s)
  · unfold opening
    apply does_step hs.kept
    · intro s' hleft
      have hforced : s'.request.isSome = true → isForced pass.force s' = true := by
        intro hsome
        simp [isForced, hsome]
      refine ⟨s'.generations, hleft.kept.reading hforced rfl rfl rfl, at_last, ?_, trivial, ?_, rfl⟩
      · intro t ht
        obtain ⟨m, hm, _⟩ := hleft.kept.pending t ht
        exact ⟨hforced (Option.isSome_iff_exists.2 ⟨t, ht⟩), m, hm.lt, hm.snoc⟩
      · intro hrecords
        exact (hleft.allAnswered (hs.answered hrecords)).reading _ _
    · intro s' hleft _
      exact ⟨hleft.kept, fun hrecords => hleft.allAnswered (hs.answered hrecords)⟩
  · intro o s₁ h₁
    obtain ⟨generations, h₁⟩ := h₁
    split
    · next hskip =>
      apply h₁.ended
      rw [hskip.1]
      intro habsurd
      cases habsurd
    · apply Task.wp_catchRaised.2
      -- Where the rebuild raises, the pass still stands where it read.
      have htry : Does first fails
          (fun s => ∃ stage generations, Stands first fails n o stage generations s)
          (fun _ => Between first fails n) (rebuild digest pass o) s₁ :=
        h₁.rebuilds (fun stage generations s h => ⟨stage, generations, h⟩) digest pass
      apply Task.wp_mono htry (fun _ _ h => h) (fun _ _ h => h)
      intro _ s₂ h₂
      obtain ⟨stage, generations', h₂⟩ := h₂
      apply does_bind
      · apply h₂.records
        intro s hfails h
        exact ⟨h.kept, fun hrecords => absurd hfails hrecords⟩
      intro _ s₃ h₃
      apply h₃.acknowledges
      intro s h
      exact h.ended fun _ => h.stage

end Pass

section Alone

variable (digest : List Definition → Text)

/-- Indexing changes the record and the receipt only. -/
theorem run_indexBatches (groups : List (List Text)) (w : World) :
    ∃ record job, run (indexBatches groups) w = (.ok (), { w with record, job }) := by
  induction groups generalizing w with
  | nil => exact ⟨w.record, w.job, rfl⟩
  | cons ids rest ih =>
    unfold indexBatches
    simp only [run_bind, run_act, run_look]
    obtain ⟨record, job, hrest⟩ := ih _
    exact ⟨record, job, hrest⟩

@[simp] theorem run_deleteActive (active : Option Generation) (w : World) :
    run (deleteActive active) w = (.ok (), w) := by
  cases active <;> rfl

/-- A pass that nothing disturbs commits its generation. -/
theorem run_build (pass : Pass) (o : Opened) (active : Option Generation) (w : World)
    (hkeys : definitions w.schema.keys = o.keys) :
    ∃ record job, run (build pass o active) w =
      run (acknowledgeRequest .acknowledge o)
        { commitGeneration active ⟨pass.generation, w.schema.revision, o.keys, true⟩ o.readAt
            (w.addEntry (.building o.readAt)) with record, job } := by
  let begun := (w.writeRecord .running).addEntry (.building o.readAt)
  obtain ⟨record, job, hindexed⟩ := run_indexBatches (batches 100 begun.notes) begun
  refine ⟨record, some { record with state := .succeeded }, ?_⟩
  unfold build
  simp only [run_bind, run_look, run_act]
  rw [hindexed]
  have hsame : (definitions begun.schema.keys != o.keys) = false := by
    rw [show definitions begun.schema.keys = o.keys from hkeys, bne_self_eq_false]
  simp only [run_raiseIf, run_deleteActive, hsame, Bool.false_eq_true, if_false]
  rfl

theorem run_rebuild (pass : Pass) {o : Opened} (w : World) (hforced : o.forced = true) :
    run (rebuild digest pass o) w = run (build pass o (w.generations.find? (·.active))) w := by
  have hneeded : ∀ p : Prop, ¬(p ∧ o.forced = false) := by
    intro p h
    rw [hforced] at h
    cases h.2
  unfold rebuild
  rw [run_bind, run_look]
  dsimp only
  rw [run_bind, run_look]
  dsimp only
  rw [if_neg (hneeded _)]

theorem run_acknowledgeRequest (site : Site) (o : Opened) (w : World)
    (hrequest : w.request = o.request) :
    run (acknowledgeRequest site o) w = (.ok (), { w with
      request := none
      log := w.log ++ o.request.toList.map fun t => .acknowledged t o.readAt }) := by
  unfold acknowledgeRequest
  cases ho : o.request with
  | none =>
    rw [ho] at hrequest
    obtain ⟨schema, notes, request, job, generations, record, log⟩ := w
    subst hrequest
    rw [Option.toList_none, List.map_nil, List.append_nil]
    rfl
  | some t =>
    rw [ho] at hrequest
    simp [hrequest]

/-- **A pass that nothing disturbs**, where it has to rebuild, commits its generation and
acknowledges the request it read. -/
theorem run_refresh (pass : Pass) (w : World) (hforced : isForced pass.force w = true) :
    ∃ last, run (refresh digest pass) w = (.ok (), last) ∧ last.request = none ∧
      last.log = w.log ++ [.read w.request true, .building w.log.length,
        .committed pass.generation w.log.length] ++
          w.request.toList.map fun t => .acknowledged t w.log.length := by
  let o := openedAt digest pass.force w
  let opened : World :=
    { w with
      record := ⟨targetId digest w, .running, 0⟩
      log := w.log ++ [.read w.request (isForced pass.force w)] }
  obtain ⟨record, job, hbuilt⟩ :=
    run_build pass o (opened.generations.find? (·.active)) opened rfl
  have hacknowledged := hbuilt.trans (run_acknowledgeRequest .acknowledge o _ rfl)
  have hrebuilt := (run_rebuild digest pass opened (o := o) hforced).trans hacknowledged
  have hskip : ¬(o.forced = false ∧ o.previous.jobId = digest o.keys ∧
      o.previous.state = .failed) := by
    rw [show o.forced = true from hforced]
    simp
  obtain ⟨last, hlast, hrequest, hlog⟩ : ∃ last, run (rebuild digest pass o) opened =
      (.ok (), last) ∧ last.request = none ∧
        last.log = opened.log ++ [.building o.readAt] ++ [.committed pass.generation o.readAt] ++
          o.request.toList.map fun t => .acknowledged t o.readAt :=
    ⟨_, hrebuilt, rfl, rfl⟩
  refine ⟨last, ?_, hrequest, ?_⟩
  · unfold refresh
    rw [run_bind]
    change run (if _ then _ else _) opened = _
    rw [if_neg hskip, run_catchRaised, hlast]
  · rw [hlog]
    simp [o, openedAt, opened, hforced]

end Alone

section Runs

variable {digest : List Definition → Text} {first : Option GenerationId} {fails : Site → Prop}

theorem passWeather_refl (_ : Pass) (site : Site) (s : World) :
    (passWeather first fails).others site s s :=
  fun h => ⟨h, rfl, [], by simp⟩

theorem passWeather_trans (_ : Pass) (site : Site) (s s' s'' : World)
    (h : (passWeather first fails).others site s s')
    (h' : (passWeather first fails).others site s' s'') :
    (passWeather first fails).others site s s'' := by
  intro hs
  obtain ⟨hkept, hgenerations, made, hlog⟩ := h hs
  obtain ⟨hkept', hgenerations', made', hlog'⟩ := h' hkept
  exact ⟨hkept', hgenerations'.trans hgenerations, made ++ made', by simp [hlog', hlog]⟩

/-- What others do keeps the requests. -/
theorem event_left {e : Event} {w : World} (h : Kept first w)
    (hnew : ∀ token queue, e = .request token queue → .made token ∉ w.log) :
    Left first w (e.apply digest w) := by
  cases e with
  | request token queue =>
    exact ⟨h.made (hnew token queue rfl) rfl rfl rfl, rfl, [token], rfl⟩
  | schema document => exact ⟨h.of_same rfl rfl rfl, rfl, [], by simp [Event.apply]⟩
  | mirror notes => exact ⟨h.of_same rfl rfl rfl, rfl, [], by simp [Event.apply]⟩

/-- **A run** keeps the requests. -/
theorem kept_run {scene : Scene Site World Raised Unit Pass} {turns : List (Turn Pass Event)}
    (hidle : scene.running = none) (hkept : Kept first scene.world)
    (hrun : Along (indexTurn digest) NewToken scene turns) :
    Kept first (turns.foldl (indexTurn digest) scene).world := by
  have hway : OnTheWay (fun _ : Pass => passWeather first fun _ => True) (Kept first) scene := by
    refine ⟨hkept, ?_⟩
    rw [hidle]
    trivial
  apply And.left
  apply onTheWay_run passWeather_refl passWeather_trans ?_ ?_ ?_ ?_ hrun hway
  · intro _ pass _ s hs
    have hbetween : Between first (fun _ => True) 0 s := ⟨hs, fun h => absurd trivial h⟩
    exact Task.wp_mono (refresh_does digest pass hbetween) (fun _ _ h => h) (fun _ _ h => h.kept)
      fun _ _ h => h.kept
  · intro scene e hnew _ hkept
    have hleft : Left first scene.world (e.apply digest scene.world) := by
      apply event_left hkept
      intro token queue he
      subst he
      exact hnew
    exact ⟨hleft.kept, fun _ _ _ _ => hleft⟩
  · intro _ _ _ _ _
    trivial
  · intro _ _
    trivial

/-- A turn that neither kills a pass nor keeps it from recording its failure. -/
def Calm (scene : Scene Site World Raised Unit Pass) (t : Turn Pass Event) : Prop :=
  NewToken scene t ∧ t ≠ .kill ∧
    (t = .fail → ∀ pass site, scene.site? = some (pass, site) → site ≠ .writeFailed)

/-- **A stretch of a run** in which no pass is killed: each pass of it that had to rebuild has a
generation committed or its failure recorded. -/
theorem between_run {scene : Scene Site World Raised Unit Pass} {turns : List (Turn Pass Event)}
    (hidle : scene.running = none) (hkept : Kept first scene.world)
    (hrun : Along (indexTurn digest) Calm scene turns)
    (hlast : (turns.foldl (indexTurn digest) scene).running = none) :
    AllAnswered scene.world.log.length none (turns.foldl (indexTurn digest) scene).world.log := by
  have hway : Underway (fun _ : Pass => passWeather first (· ≠ .writeFailed))
      (fun _ _ _ => True) (Between first (· ≠ .writeFailed) scene.world.log.length) scene := by
    unfold Underway
    rw [hidle]
    exact ⟨hkept, fun _ => allAnswered_length⟩
  have hend := underway_run passWeather_refl passWeather_trans ?_ ?_ ?_ ?_ ?_ hrun hway
  · unfold Underway at hend
    change (turns.foldl (turn _ _ _) scene).running = none at hlast
    rw [hlast] at hend
    exact hend.answered (by simp)
  · intro pass s hs
    exact Task.wp_mono (refresh_does digest pass hs) (fun _ _ _ => trivial) (fun _ _ h => h)
      fun _ _ h => h
  · intro scene e hcalm _
    have hleft : Kept first scene.world → Left first scene.world (e.apply digest scene.world) := by
      intro hkept
      apply event_left hkept
      intro token queue he
      subst he
      exact hcalm.1
    refine ⟨fun _ h => ?_, fun _ _ _ => hleft⟩
    exact ⟨(hleft h.kept).kept, fun hrecords => (hleft h.kept).allAnswered (h.answered hrecords)⟩
  · intro _ _ _ _ _
    trivial
  · intro scene hcalm pass site hsite
    exact hcalm.2.2 rfl pass site hsite
  · intro scene hcalm
    exact hcalm.2.1 rfl

/-- A first history: the request that is pending, if any. -/
theorem kept_initial {w : World} (hlog : w.log = w.request.toList.map Entry.made)
    (hactive : (w.generations.filter (·.active)).map (·.id) = first.toList) : Kept first w := by
  have hmade : ∀ i e, At w.log i e → i = 0 ∧ ∃ t, e = .made t ∧ w.request = some t := by
    intro i e he
    have hmem := he.mem
    have hlt := he.lt
    rw [hlog] at hmem hlt
    obtain ⟨t, ht, rfl⟩ := List.mem_map.1 hmem
    have hrequest : w.request = some t := Option.mem_toList.1 ht
    rw [hrequest] at hlt
    exact ⟨by simpa using hlt, t, rfl, hrequest⟩
  refine ⟨?_, ?_, ?_, ?_, ?_, ?_⟩
  · intro t ht
    refine ⟨0, ?_, ?_⟩
    · unfold At
      rw [hlog, ht]
      rfl
    · intro k t' hk h
      have hzero := (hmade k _ h).1
      omega
  · intro i t hi
    obtain ⟨_, t', _, ht'⟩ := hmade i _ hi
    right
    rw [ht']
    rfl
  · intro i j t hi hj
    rw [(hmade i _ hi).1, (hmade j _ hj).1]
  · intro i j t r b _ _ hj
    obtain ⟨_, t', he, _⟩ := hmade j _ hj
    cases he
  · intro i j t hj
    obtain ⟨_, t', he, _⟩ := hmade j _ hj
    cases he
  · rw [hactive, hlog]
    cases w.request <;> rfl

/-- A pass that starts reads the pending request. -/
theorem start_reads {scene : Scene Site World Raised Unit Pass} (hidle : scene.running = none)
    (pass : Pass) :
    (indexTurn digest (indexTurn digest scene (.start pass)) .resume).world.log =
      scene.world.log ++ [.read scene.world.request (isForced pass.force scene.world)] := by
  obtain ⟨world, running⟩ := scene
  subst hidle
  rfl

/-- **No request is lost.**  In every run of requests and passes:
a request that had no rebuild is pending, or another in its place;
a pass that starts reads the pending request, and one that reads after a request reads it, or one
made since, and has to rebuild, where the request had no rebuild before;
in a stretch of the run in which no pass is killed or kept from recording its failure, a request
has its rebuild once a pass has read, and a pass that nothing disturbs commits its generation;
a pass acknowledges only what it read and answered, with no other request in between;
and the active generation is that of the last commit. -/
theorem requests_served (digest : List Definition → Text) (first : Option GenerationId)
    (scene : Scene Site World Raised Unit Pass) (turns : List (Turn Pass Event))
    (hidle : scene.running = none)
    (hlog : scene.world.log = scene.world.request.toList.map Entry.made)
    (hactive : (scene.world.generations.filter (·.active)).map (·.id) = first.toList)
    (hrun : Along (indexTurn digest) NewToken scene turns) :
    let last := turns.foldl (indexTurn digest) scene
    (∀ i t, At last.world.log i (.made t) →
      Served last.world.log i last.world.log.length ∨ last.world.request.isSome = true) ∧
    (∀ i j t r b, At last.world.log i (.made t) → i < j → At last.world.log j (.read r b) →
      Served last.world.log i j ∨ Reads last.world.log i j) ∧
    (last.running = none → ∀ pass,
      (indexTurn digest (indexTurn digest last (.start pass)) .resume).world.log =
        last.world.log ++ [.read last.world.request (isForced pass.force last.world)]) ∧
    (last.running = none → ∀ stretch, Along (indexTurn digest) Calm last stretch →
      let later := stretch.foldl (indexTurn digest) last
      later.running = none → ∀ i j t r b, At later.world.log i (.made t) → i < j →
        last.world.log.length ≤ j → At later.world.log j (.read r b) →
        Served later.world.log i later.world.log.length) ∧
    (∀ pass, isForced pass.force last.world = true →
      ∃ w, run (refresh digest pass) last.world = (.ok (), w) ∧ w.request = none ∧
        w.log = last.world.log ++ [.read last.world.request true,
          .building last.world.log.length, .committed pass.generation last.world.log.length] ++
            last.world.request.toList.map fun t => .acknowledged t last.world.log.length) ∧
    (∀ i j t, At last.world.log j (.acknowledged t i) →
      i < j ∧ At last.world.log i (.read (some t) true) ∧ Answered last.world.log i j ∧
        ∀ k t', i < k → k < j → ¬At last.world.log k (.made t')) ∧
    (last.world.generations.filter (·.active)).map (·.id) =
      (lastCommitted first last.world.log).toList := by
  have hkept := kept_run hidle (kept_initial hlog hactive) hrun
  refine ⟨hkept.served, hkept.read, start_reads, ?_, fun pass => run_refresh digest pass _,
    hkept.acknowledged, hkept.active⟩
  intro hrunning stretch hcalm later hlater i j t r b hi hij hlength hj
  have hnew : Along (indexTurn digest) NewToken _ stretch :=
    Along.imp (I := fun _ => True) (fun _ _ _ _ => trivial) (fun _ _ _ h => h.1) trivial hcalm
  have hkept' : Kept first later.world := kept_run hrunning hkept hnew
  obtain hserved | hreads := hkept'.read i j t r b hi hij hj
  · exact hserved.mono List.prefix_rfl hj.lt.le
  · refine ⟨j, hij, hreads, ?_⟩
    obtain ⟨t', hread, -⟩ := hreads
    exact between_run hrunning hkept hcalm hlater j _ hlength (by simp) hread

end Runs

section Sample

def sampleDigest : List Definition → Text := fun _ =>
  "4f53cda18c2baa0c0354bb5f9a3ecbe5ed12ab4d8e11ba873c2f11161202b945".toList

def sampleScene : Scene Site World Raised Unit Pass where
  world :=
    { schema := ⟨1, []⟩, notes := [['n']], request := none, job := none, generations := []
      record := ⟨[], .queued, 0⟩, log := [] }
  running := none

/-- A pass that a request started is killed. -/
def sampleTurns : List (Turn Pass Event) :=
  [.event (.request ['a'] true), .start ⟨false, ['1']⟩, .resume, .resume, .kill]

/-- Another follows, and a second request comes in the middle of it. -/
def sampleStretch : List (Turn Pass Event) :=
  [.start ⟨false, ['2']⟩, .resume, .resume, .event (.request ['b'] false)] ++
    List.replicate 15 .resume

def sampleLog : List Entry :=
  [.made ['a'], .read (some ['a']) true, .read (some ['a']) true, .made ['b'], .building 2,
    .committed ['2'] 2]

def steady : Turn Pass Event → Bool
  | .fail | .kill => false
  | _ => true

theorem calm_of_steady {digest : List Definition → Text}
    {scene : Scene Site World Raised Unit Pass} {turns : List (Turn Pass Event)}
    (hnew : Along (indexTurn digest) NewToken scene turns) (hsteady : turns.all steady = true) :
    Along (indexTurn digest) Calm scene turns := by
  induction turns generalizing scene with
  | nil => trivial
  | cons t rest ih =>
    rw [List.all_cons, Bool.and_eq_true] at hsteady
    refine ⟨⟨hnew.1, ?_, ?_⟩, ih hnew.2 hsteady.2⟩
    · rintro rfl
      cases hsteady.1
    · rintro rfl
      cases hsteady.1

/-- The first request has its rebuild in the second pass, and the second request is pending. -/
theorem requests_served_sample :
    let last := sampleTurns.foldl (indexTurn sampleDigest) sampleScene
    let later := sampleStretch.foldl (indexTurn sampleDigest) last
    later.world.log = sampleLog ∧ Served later.world.log 0 later.world.log.length ∧
      later.world.request = some ['b'] := by
  obtain ⟨-, -, -, hstretch, -⟩ :=
    requests_served sampleDigest none sampleScene sampleTurns rfl rfl rfl (by decide)
  have hlog : (sampleStretch.foldl (indexTurn sampleDigest)
      (sampleTurns.foldl (indexTurn sampleDigest) sampleScene)).world.log = sampleLog := by
    decide +kernel
  refine ⟨hlog, ?_, by decide +kernel⟩
  have hcalm : Along (indexTurn sampleDigest) Calm
      (sampleTurns.foldl (indexTurn sampleDigest) sampleScene) sampleStretch :=
    calm_of_steady (by decide +kernel) (by decide)
  apply hstretch (Option.isNone_iff_eq_none.1 (by decide +kernel)) sampleStretch hcalm
    (Option.isNone_iff_eq_none.1 (by decide +kernel)) 0 2 ['a'] (some ['a']) true ?_ (by decide)
    (by decide +kernel) ?_
  · unfold At
    rw [hlog]
    rfl
  · unfold At
    rw [hlog]
    rfl

end Sample

end Coppermind.FieldIndex
