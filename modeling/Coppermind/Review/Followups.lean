import Coppermind.Review.Calendars

/-!
# What a pass judges

The follow-ups are exact (`Exact`) where they are those of the confirmed records whose evidence has
moved.  A pass that nothing overlaps (`Undisturbed`) judges every record once, with `judge`; by
`Under.passStep` each of its steps judges on, or it is the publication.
-/

namespace Coppermind.Review

open Coppermind.Lib

variable {C K F : Type} [DecidableEq F]

section Statement

variable (env : Env C K F) (w : World C K F)

/-- The evidence of the note is not the record's. -/
def Moved (id : NoteId) (record : Record F) : Prop :=
  ∃ note hash, w.notes id = some note ∧ env.evidenceHash w.calendar note.content = some hash ∧
    hash ≠ record.calendarHash

/-- **The follow-ups are exact**, and only notes that can be read and are reviewed are confirmed. -/
structure Exact : Prop where
  followups : ∀ id, (view w.followups id).isSome = true ↔
    ∃ record, view w.finalized id = some record ∧ record.state = .confirmed ∧ Moved env w id record
  confirmed : ∀ id record, view w.finalized id = some record → record.state = .confirmed →
    ∃ note, w.notes id = some note ∧ env.reviewed note.content = true

/-- The step changes no note, no calendar, no record and no follow-up. -/
def Keeps (a : Action C K) : Prop :=
  (next env w a).notes = w.notes ∧ (next env w a).calendar = w.calendar ∧
    (next env w a).finalized = w.finalized ∧ (next env w a).followups = w.followups

/-- The run `during` is one pass, from its begin to its end, that no other change overlaps. -/
structure Undisturbed (during : List (Action C K)) : Prop where
  begins : w.pass = none
  goesOn : Along (next env) (fun w a => w.pass.isSome = true ∧ (a = .pass ∨ Keeps env w a))
    (next env w .pass) during
  ends : ((during.foldl (next env) (next env w .pass))).pass = none

/-- What a pass leaves alone is as it has to be: where the generation is the last pass's, the
follow-up of a note with the recorded hash is open exactly if the evidence has moved, and no
other note has one whose evidence is the record's. -/
def Settled : Prop :=
  ∀ id record note, view w.finalized id = some record → record.state = .confirmed →
    w.notes id = some note → env.reviewed note.content = true →
      w.calendarGeneration = some (env.generation w.calendar) →
        if env.contentHash note.content = record.noteHash then
          ((view w.followups id).isSome = true ↔ Moved env w id record)
        else
          env.evidenceHash w.calendar note.content = some record.calendarHash →
            view w.followups id = none

end Statement

section Judging

variable (env : Env C K F) (w : World C K F)

/-- What a pass makes of evidence it reads: the record's state, and whether a follow-up opens. -/
def compare (record : Record F) : Option Hash → RecordState × Bool
  | none => (.unavailable, false)
  | some hash => (.confirmed, hash ≠ record.calendarHash)

/-- What a pass from `w` on makes of a record. -/
def judge (id : NoteId) (record : Record F) : RecordState × Bool :=
  if record.state ≠ .confirmed then (record.state, false)
  else
    match w.notes id with
    | none => (.unavailable, false)
    | some note =>
      if env.reviewed note.content = false then (.withdrawn, false)
      else if w.calendarGeneration = some (env.generation w.calendar) ∧
          env.contentHash note.content = record.noteHash then (.confirmed, false)
      else compare record (env.evidenceHash w.calendar note.content)

/-- The record as the pass leaves it. -/
def judged (id : NoteId) (record : Record F) : Record F :=
  { record with state := (judge env w id record).1 }

/-- How far a pass from `w` on has come: all but `pending` is judged. -/
structure Scanned (scan : Scan F) (pending : List NoteId) : Prop where
  generation : scan.generation = env.generation w.calendar
  changed : scan.changed = decide (w.calendarGeneration ≠ some (env.generation w.calendar))
  baseline : scan.baseline = w.finalized
  nodup : pending.Nodup
  awaited : ∀ id ∈ pending,
    view scan.records id = view w.finalized id ∧ view scan.updates id = none
  done : ∀ id, id ∉ pending →
    view scan.records id = (view w.finalized id).map (judged env w id) ∧
      (view scan.updates id).isSome = (view w.finalized id).any fun r => (judge env w id r).2

variable {env w} {scan scan' : Scan F} {id : NoteId} {rest : List NoteId} {record : Record F}
  {note : Note C}

omit [DecidableEq F]

/-- One more record is judged. -/
theorem Scanned.advance (h : Scanned env w scan (id :: rest))
    (hgeneration : scan'.generation = scan.generation) (hchanged : scan'.changed = scan.changed)
    (hbaseline : scan'.baseline = scan.baseline)
    (hothers : ∀ other, other ≠ id →
      view scan'.records other = view scan.records other ∧
        view scan'.updates other = view scan.updates other)
    (hrecord : view scan'.records id = (view w.finalized id).map (judged env w id))
    (hupdate : (view scan'.updates id).isSome =
      (view w.finalized id).any fun r => (judge env w id r).2) :
    Scanned env w scan' rest := by
  obtain ⟨hid, hrest⟩ := List.nodup_cons.1 h.nodup
  refine ⟨hgeneration.trans h.generation, hchanged.trans h.changed, hbaseline.trans h.baseline,
    hrest, ?_, ?_⟩
  · intro other hother
    have hne : other ≠ id := by
      rintro rfl
      exact hid hother
    rw [(hothers other hne).1, (hothers other hne).2]
    exact h.awaited other (List.mem_cons_of_mem _ hother)
  · intro other hother
    by_cases hne : other = id
    · subst hne
      exact ⟨hrecord, hupdate⟩
    · rw [(hothers other hne).1, (hothers other hne).2]
      apply h.done other
      simp [hne, hother]

/-- A record that the pass goes over. -/
theorem Scanned.skip (h : Scanned env w scan (id :: rest))
    (hjudge : ∀ r, view w.finalized id = some r → judge env w id r = (r.state, false)) :
    Scanned env w { scan with todo := rest } rest := by
  obtain ⟨hrecord, hupdate⟩ := h.awaited id List.mem_cons_self
  refine h.advance rfl rfl rfl (fun _ _ => ⟨rfl, rfl⟩) ?_ ?_
  · show view scan.records id = _
    rw [hrecord]
    cases hr : view w.finalized id with
    | none => rfl
    | some r => simp [judged, hjudge r hr]
  · show (view scan.updates id).isSome = _
    rw [hupdate]
    cases hr : view w.finalized id with
    | none => rfl
    | some r => simp [hjudge r hr]

/-- A record that the pass revokes. -/
theorem Scanned.revoke {state : RecordState} {todo : List NoteId}
    (h : Scanned env w scan (id :: rest)) (hr : view w.finalized id = some record)
    (hjudge : judge env w id record = (state, false)) :
    Scanned env w (Scan.revoke { scan with todo := todo } id record state) rest := by
  obtain ⟨-, hupdate⟩ := h.awaited id List.mem_cons_self
  refine h.advance rfl rfl rfl ?_ ?_ ?_
  · intro other hne
    exact ⟨by simp [Scan.revoke, Function.update_of_ne hne], rfl⟩
  · simp [Scan.revoke, hr, judged, hjudge]
  · show (view scan.updates id).isSome = _
    rw [hupdate, hr]
    simp [hjudge]

/-- A record whose evidence the pass compares. -/
theorem Scanned.compared {hash : Hash} {update : FollowUp}
    (h : Scanned env w scan (id :: rest)) (hr : view w.finalized id = some record)
    (hstate : record.state = .confirmed)
    (hjudge : judge env w id record = compare record (some hash)) :
    Scanned env w
      { scan with
        updates := if hash ≠ record.calendarHash then assign scan.updates id update
          else scan.updates } rest := by
  obtain ⟨hrecord, hupdate⟩ := h.awaited id List.mem_cons_self
  refine h.advance rfl rfl rfl ?_ ?_ ?_
  · intro other hne
    refine ⟨rfl, ?_⟩
    show view (if _ then _ else _) other = _
    by_cases hhash : hash ≠ record.calendarHash
    · rw [if_pos hhash, view_assign, Function.update_of_ne hne]
    · rw [if_neg hhash]
  · show view scan.records id = _
    rw [hrecord, hr]
    simp [judged, hjudge, compare, ← hstate]
  · show (view (if _ then _ else _) id).isSome = _
    rw [hr]
    by_cases hhash : hash ≠ record.calendarHash
    · rw [if_pos hhash, view_assign, Function.update_self]
      simp [hjudge, compare, hhash]
    · rw [if_neg hhash, hupdate]
      simp [hjudge, compare, not_not.1 hhash]

end Judging

section Steps

variable (env : Env C K F) (start : World C K F)

/-- Where a pass from `start` on stands. -/
def Point : Option (Pass C F) → Prop
  | none => False
  | some (.opened generation) => generation = env.generation start.calendar
  | some (.scanning scan) => Scanned env start scan scan.todo
  | some (.reading scan id record note) =>
    Scanned env start scan (id :: scan.todo) ∧ view start.finalized id = some record ∧
      record.state = .confirmed ∧
      judge env start id record = compare record (env.evidenceHash start.calendar note.content)

/-- A pass that began in `start` is under way, and nothing else has changed. -/
structure Under (w : World C K F) : Prop where
  notes : w.notes = start.notes
  calendar : w.calendar = start.calendar
  finalized : w.finalized = start.finalized
  followups : w.followups = start.followups
  generation : w.calendarGeneration = start.calendarGeneration
  point : Point env start w.pass

variable {env start} {w : World C K F}

omit [DecidableEq F] in
/-- Until its first await `finalize` only observes the note. -/
theorem exists_finalize_eq (env : Env C K F) (w : World C K F) (task : Nat) (id : NoteId)
    (note : Note C) :
    ∃ observed tasks, finalize env w task id note = { w with observed := observed, tasks := tasks } := by
  have hwait {hash : Hash} {waiting : World C K F} (h : stabilityWait w id hash = some waiting) :
      ∃ observed, waiting = { w with observed := observed } := by
    simp only [stabilityWait] at h
    split at h
    · cases h
    · split at h
      · exact ⟨_, (Option.some.inj h).symm⟩
      · split at h
        · exact ⟨_, (Option.some.inj h).symm⟩
        · split at h
          · exact ⟨w.observed, (Option.some.inj h).symm⟩
          · cases h
  simp only [finalize]
  split
  · exact ⟨w.observed, w.tasks, rfl⟩
  · split
    · next waiting hwaiting =>
      obtain ⟨observed, rfl⟩ := hwait hwaiting
      exact ⟨observed, w.tasks, rfl⟩
    · split
      · exact ⟨w.observed, w.tasks, rfl⟩
      · exact ⟨w.observed, _, rfl⟩

/-- What the other operations leave of the pass. -/
theorem next_of_ne_pass {a : Action C K} (ha : a ≠ .pass) :
    (next env w a).pass = w.pass ∧ (next env w a).calendarGeneration = w.calendarGeneration := by
  cases a with
  | edit | calendar | tick => exact ⟨rfl, rfl⟩
  | complete id =>
    simp only [next]
    split <;> exact ⟨rfl, rfl⟩
  | finalize task id =>
    simp only [next]
    split
    · next note _ _ =>
      obtain ⟨observed, tasks, hfinalize⟩ := exists_finalize_eq env w task id note
      rw [hfinalize]
      exact ⟨rfl, rfl⟩
    · exact ⟨rfl, rfl⟩
  | follow task id =>
    simp only [next]
    split <;> exact ⟨rfl, rfl⟩
  | resolve task id =>
    simp only [next]
    repeat' split
    all_goals exact ⟨rfl, rfl⟩
  | go task =>
    simp only [next, go, confirm, carry, settle]
    repeat' split
    all_goals exact ⟨rfl, rfl⟩
  | pass => exact absurd rfl ha

omit [DecidableEq F] in
/-- The judgement of a record that is not yet revoked. -/
theorem judge_of_confirmed {id : NoteId} {record : Record F} {note : Note C}
    (hstate : record.state = .confirmed) (hnote : w.notes id = some note)
    (hreviewed : env.reviewed note.content = true) :
    judge env w id record =
      if w.calendarGeneration = some (env.generation w.calendar) ∧
          env.contentHash note.content = record.noteHash then (.confirmed, false)
      else compare record (env.evidenceHash w.calendar note.content) := by
  simp [judge, hstate, hnote, hreviewed]

/-- The pass goes on to its next record. -/
theorem Under.scan {scan : Scan F} {id : NoteId} {rest : List NoteId} (h : Under env start w)
    (hpass : w.pass = some (.scanning scan)) (htodo : scan.todo = id :: rest) :
    Point env start (passStep env w).pass := by
  have hscanned : Scanned env start scan (id :: rest) := by
    have hpoint := h.point
    rwa [hpass, Point, htodo] at hpoint
  have hheld := (hscanned.awaited id List.mem_cons_self).1
  simp only [passStep, hpass, htodo]
  cases hrecord : view scan.records id with
  | none =>
    apply hscanned.skip
    intro r hr
    rw [hheld, hr] at hrecord
    cases hrecord
  | some record =>
    have hr : view start.finalized id = some record := hheld ▸ hrecord
    simp only
    by_cases hstate : record.state ≠ .confirmed
    · rw [if_pos hstate]
      apply hscanned.skip
      intro r hr'
      obtain rfl := Option.some.inj (hr.symm.trans hr')
      exact if_pos hstate
    rw [if_neg hstate]
    have hconfirmed : record.state = .confirmed := not_not.1 hstate
    rw [h.notes]
    cases hnote : start.notes id with
    | none => exact hscanned.revoke hr (by simp [judge, hconfirmed, hnote])
    | some note =>
      simp only
      by_cases hreviewed : env.reviewed note.content = false
      · rw [if_pos hreviewed]
        exact hscanned.revoke hr (by simp [judge, hconfirmed, hnote, hreviewed])
      rw [if_neg hreviewed]
      have hjudge := judge_of_confirmed hconfirmed hnote (Bool.not_eq_false _ ▸ hreviewed)
      have hchanged : scan.changed = false ↔
          start.calendarGeneration = some (env.generation start.calendar) := by
        rw [hscanned.changed]
        simp
      by_cases hskip : scan.changed = false ∧ env.contentHash note.content = record.noteHash
      · rw [if_pos hskip]
        apply hscanned.skip
        intro r hr'
        obtain rfl := Option.some.inj (hr.symm.trans hr')
        rw [hjudge, if_pos ⟨hchanged.1 hskip.1, hskip.2⟩, hconfirmed]
      · rw [if_neg hskip]
        refine ⟨⟨hscanned.generation, hscanned.changed, hscanned.baseline, hscanned.nodup,
          hscanned.awaited, hscanned.done⟩, hr, hconfirmed, ?_⟩
        rw [hjudge, if_neg (fun hgeneration => hskip ⟨hchanged.2 hgeneration.1, hgeneration.2⟩)]

/-- **A step of the pass** judges on, or it is the publication. -/
theorem Under.passStep (h : Under env start w) :
    Under env start (passStep env w) ∨
      ∃ scan, Scanned env start scan [] ∧ passStep env w = publish w scan := by
  cases hpass : w.pass with
  | none =>
    have hpoint := h.point
    rw [hpass] at hpoint
    exact hpoint.elim
  | some pass =>
    have hpoint := h.point
    rw [hpass] at hpoint
    cases pass with
    | opened generation =>
      left
      have hstep : Review.passStep env w = { w with pass := (Review.passStep env w).pass } := by
        simp only [Review.passStep, hpass]
      rw [hstep]
      refine ⟨h.notes, h.calendar, h.finalized, h.followups, h.generation, ?_⟩
      simp only [Review.passStep, hpass]
      obtain rfl : generation = env.generation start.calendar := hpoint
      refine ⟨rfl, by simp [h.generation], h.finalized, w.finalized.keys_nodup, ?_, ?_⟩
      · intro id _
        exact ⟨by rw [h.finalized], view_empty id⟩
      · intro id hid
        have hnone : view start.finalized id = none := by
          rw [← h.finalized]
          exact AList.lookup_eq_none.2 hid
        simp only
        rw [h.finalized, hnone, view_empty]
        exact ⟨rfl, rfl⟩
    | scanning scan =>
      cases htodo : scan.todo with
      | nil =>
        right
        rw [Point, htodo] at hpoint
        exact ⟨scan, hpoint, by simp only [Review.passStep, hpass, htodo]⟩
      | cons id rest =>
        left
        have hstep : Review.passStep env w = { w with pass := (Review.passStep env w).pass } := by
          simp only [Review.passStep, hpass, htodo]
          repeat' split
          all_goals rfl
        have hpoint' := h.scan hpass htodo
        rw [hstep]
        exact ⟨h.notes, h.calendar, h.finalized, h.followups, h.generation, hpoint'⟩
    | reading scan id record note =>
      left
      obtain ⟨hscanned, hr, hconfirmed, hjudge⟩ := hpoint
      rw [← h.calendar] at hjudge
      simp only [Review.passStep, hpass]
      cases hevidence : env.evidenceHash w.calendar note.content with
      | none =>
        rw [hevidence] at hjudge
        exact ⟨h.notes, h.calendar, h.finalized, h.followups, h.generation,
          hscanned.revoke hr hjudge⟩
      | some hash =>
        rw [hevidence] at hjudge
        exact ⟨h.notes, h.calendar, h.finalized, h.followups, h.generation,
          hscanned.compared hr hconfirmed hjudge⟩

end Steps

end Coppermind.Review
