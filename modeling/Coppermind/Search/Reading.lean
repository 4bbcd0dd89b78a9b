import Coppermind.Search.CatchUp

/-!
# A pass that nothing disturbs

While the mirror and the files rest, what a pass reads of a row is a function of the world: the row
is known, or it is tried and described, or it cannot be read.  A pass tries a batch of the rows
that are not known.
-/

namespace Coppermind.Search

open Coppermind.Lib Coppermind.Lib.Text Coppermind.Frontmatter

section Outcomes

variable (env : Env) (w : World) (row : Stale)

/-- The state of the manifest of a source; a note has none. -/
def manifestSeen : PyStr := if row.kind = .source then (w.manifests row.id).state else []

/-- The path of the row, or why there is none. -/
def placeOf : PyStr × Option Fault :=
  match row.kind, (w.unreadable.find row.key).filter
      (·.observation.takeWhile (· ≠ bar) = manifestSeen w row) with
  | .source, some m => (m.path, none)
  | .source, none => projectionOf w row.id
  | _, _ => (row.path, none)

def observationOf : PyStr := manifestSeen w row ++ [bar] ++ relativeState w (placeOf w row).1

/-- The mark of the row still says what is seen. -/
def isKnown : Bool :=
  (w.unreadable.find row.key).any (·.seen = (row.version, (placeOf w row).1, observationOf w row))

/-- What reading the row gives. -/
def entryOf : Except Raised (Except Fault Document) :=
  if row.kind = .source ∧ (placeOf w row).1 = [] then
    .ok (.error ((placeOf w row).2.getD noProjection))
  else answered (readEntry env w row (placeOf w row).1)

/-- The mark of a fault of the row. -/
def markOf (f : Fault) : Mark :=
  ⟨row.kind, row.id, row.version, (placeOf w row).1, observationOf w row, f.reason⟩

/-- What a try of the row gives. -/
def tried : Except Raised Attempt :=
  (entryOf env w row).map fun
    | .ok d => .ready d
    | .error f => .failed (markOf w row f) f.durable

/-- What a pass makes of the row, with its batch full or not. -/
def outcome (full : Bool) : Except Raised Attempt :=
  if isKnown w row then .ok .known else if full then .ok .later else tried env w row

def readyOf : Option Document :=
  match tried env w row with
  | .ok (.ready d) => some d
  | _ => none

def failedOf : Option Mark :=
  match tried env w row with
  | .ok (.failed m true) => some m
  | _ => none

def transientOf : Option Mark :=
  match tried env w row with
  | .ok (.failed m false) => some m
  | _ => none

end Outcomes

/-- What `read_all` makes of the rows of one kind. -/
def readAll (env : Env) (w : World) (attempted : Nat) (reading : Reading) :
    List Stale → Except Raised Reading
  | [] => .ok reading
  | row :: rest =>
    match outcome env w row (catchUpBatch ≤ attempted) with
    | .ok attempt => readAll env w (attempted + attempt.counts) (reading.add attempt) rest
    | .error e => .error e

section Runs

variable {env : Env} {w : World} {row : Stale} {rows : List Stale}

theorem run_manifestState : (manifestState row).run w = (.ok (manifestSeen w row), w) := by
  unfold manifestState manifestSeen
  split <;> rfl

theorem run_pathOf :
    (pathOf (w.unreadable.find row.key) (manifestSeen w row) row).run w =
      (.ok (placeOf w row), w) := by
  unfold pathOf placeOf
  cases row.kind with
  | source =>
    cases (w.unreadable.find row.key).filter
      (·.observation.takeWhile (· ≠ bar) = manifestSeen w row) <;> rfl
  | _ => rfl

theorem run_entryAt :
    (entryAt env row (placeOf w row).1 (placeOf w row).2).run w = (entryOf env w row, w) := by
  unfold entryAt entryOf
  split
  · rfl
  · exact Task.run_lookOr _

/-- A row without a mark is not known. -/
theorem isKnown_of_unmarked (h : w.unreadable.find row.key = none) : isKnown w row = false := by
  unfold isKnown
  rw [h]
  rfl

/-- **One row**, read at rest. -/
theorem run_readRow (full : Bool) :
    (readRow env (w.unreadable.find row.key) full row).run w = (outcome env w row full, w) := by
  unfold readRow outcome
  split
  · next hlater =>
    rw [Bool.and_eq_true, Option.isNone_iff_eq_none] at hlater
    obtain ⟨hnone, rfl⟩ := hlater
    rw [isKnown_of_unmarked hnone]
    rfl
  · next hlater =>
    simp only [Task.run_bind, run_manifestState, run_pathOf, Task.run_look]
    change Task.run (if isKnown w row = true then _ else _) w = _
    split
    · rfl
    · cases full with
      | true => rfl
      | false =>
        simp only [Bool.false_eq_true, if_false, Task.run_bind, run_entryAt]
        unfold tried
        cases entryOf env w row with
        | error e => rfl
        | ok answer => cases answer <;> rfl

/-- **The rows of one kind**, read at rest. -/
theorem run_readStale (attempted : Nat) (reading : Reading) :
    (readStale env w.unreadable.rows attempted reading rows).run w =
      (readAll env w attempted reading rows, w) := by
  induction rows generalizing attempted reading with
  | nil => rfl
  | cons row rest ih =>
    unfold readStale readAll
    have hrow : Task.run (readRow env (w.unreadable.rows.find? (·.key = row.key))
        (catchUpBatch ≤ attempted) row) w = (outcome env w row (catchUpBatch ≤ attempted), w) :=
      run_readRow _
    rw [Task.run_bind, hrow]
    cases outcome env w row (catchUpBatch ≤ attempted) with
    | error e => rfl
    | ok attempt => exact ih _ _

end Runs

section Batches

variable {env : Env} {w : World} {row : Stale} {rows : List Stale}

/-- The rows of which a pass has a try left. -/
def batchOf (w : World) (attempted : Nat) (rows : List Stale) : List Stale :=
  (rows.filter (!isKnown w ·)).take (catchUpBatch - attempted)

/-- What a pass has read of a batch. -/
structure Reads (env : Env) (w : World) (batch : List Stale) (before after : Reading) : Prop where
  tried : ∀ row ∈ batch, ∃ attempt, tried env w row = .ok attempt
  ready : after.ready = before.ready ++ batch.filterMap (readyOf env w)
  failed : after.failed = before.failed ++ batch.filterMap (failedOf env w)
  transient : after.transient = before.transient ++ batch.filterMap (transientOf env w)

theorem Reads.nil (reading : Reading) : Reads env w [] reading reading where
  tried _ hrow := absurd hrow List.not_mem_nil
  ready := (List.append_nil _).symm
  failed := (List.append_nil _).symm
  transient := (List.append_nil _).symm

theorem batchOf_known {attempted : Nat} (h : isKnown w row = true) :
    batchOf w attempted (row :: rows) = batchOf w attempted rows := by
  unfold batchOf
  rw [List.filter_cons_of_neg (by simp [h])]

theorem batchOf_full {attempted : Nat} (h : catchUpBatch ≤ attempted) :
    batchOf w attempted rows = [] := by
  unfold batchOf
  rw [Nat.sub_eq_zero_of_le h, List.take_zero]

theorem batchOf_cons {attempted : Nat} (h : isKnown w row = false)
    (hroom : ¬catchUpBatch ≤ attempted) :
    batchOf w attempted (row :: rows) = row :: batchOf w (attempted + 1) rows := by
  unfold batchOf
  rw [List.filter_cons_of_pos (by simp [h])]
  have hleft : catchUpBatch - attempted = catchUpBatch - (attempted + 1) + 1 := by omega
  rw [hleft, List.take_succ_cons]

/-- A try is a document or a failure. -/
theorem tried_cases {attempt : Attempt} (h : tried env w row = .ok attempt) :
    (∃ d, attempt = .ready d) ∨ ∃ f : Fault, attempt = .failed (markOf w row f) f.durable := by
  unfold tried at h
  cases hentry : entryOf env w row with
  | error e =>
    rw [hentry] at h
    cases h
  | ok answer =>
    rw [hentry] at h
    obtain rfl := Except.ok.inj h
    cases answer with
    | ok d => exact Or.inl ⟨d, rfl⟩
    | error f => exact Or.inr ⟨f, rfl⟩

theorem Reads.cons {batch : List Stale} {attempt : Attempt} {before after : Reading}
    (hrow : Search.tried env w row = .ok attempt) (h : Reads env w batch (before.add attempt) after) :
    Reads env w (row :: batch) before after := by
  obtain ⟨htried, hready, hfailed, htransient⟩ := h
  refine ⟨List.forall_mem_cons.2 ⟨⟨attempt, hrow⟩, htried⟩, ?_, ?_, ?_⟩
  · rw [hready]
    rcases tried_cases hrow with ⟨d, rfl⟩ | ⟨f, rfl⟩
    · simp [Reading.add, readyOf, hrow]
    · cases hd : f.durable <;> simp [Reading.add, readyOf, hrow, hd]
  · rw [hfailed]
    rcases tried_cases hrow with ⟨d, rfl⟩ | ⟨f, rfl⟩
    · simp [Reading.add, failedOf, hrow]
    · cases hd : f.durable <;> simp [Reading.add, failedOf, hrow, hd]
  · rw [htransient]
    rcases tried_cases hrow with ⟨d, rfl⟩ | ⟨f, rfl⟩
    · simp [Reading.add, transientOf, hrow]
    · cases hd : f.durable <;> simp [Reading.add, transientOf, hrow, hd]

/-- **A batch** is read row by row. -/
theorem reads_of_readAll {attempted : Nat} {before after : Reading}
    (h : readAll env w attempted before rows = .ok after) :
    Reads env w (batchOf w attempted rows) before after := by
  induction rows generalizing attempted before with
  | nil =>
    obtain rfl := Except.ok.inj h
    unfold batchOf
    rw [List.filter_nil, List.take_nil]
    exact Reads.nil before
  | cons row rest ih =>
    unfold readAll outcome at h
    cases hknown : isKnown w row with
    | true =>
      rw [hknown] at h
      rw [batchOf_known hknown]
      obtain ⟨htried, hready, hfailed, htransient⟩ := ih h
      exact ⟨htried, hready, hfailed, htransient⟩
    | false =>
      rw [hknown] at h
      by_cases hfull : catchUpBatch ≤ attempted
      · simp only [hfull, decide_true, Bool.false_eq_true, if_false, if_true] at h
        rw [batchOf_full hfull]
        have hrest := ih h
        rw [batchOf_full (Nat.le_add_right_of_le hfull)] at hrest
        exact hrest
      · simp only [hfull, decide_false, Bool.false_eq_true, if_false] at h
        rw [batchOf_cons hknown hfull]
        cases hrow : tried env w row with
        | error e =>
          rw [hrow] at h
          cases h
        | ok attempt =>
          rw [hrow] at h
          have hcounts : attempt.counts = 1 := by
            rcases tried_cases hrow with ⟨d, rfl⟩ | ⟨f, rfl⟩ <;> rfl
          have hrest := ih h
          rw [hcounts] at hrest
          exact Reads.cons hrow hrest

end Batches

end Coppermind.Search
