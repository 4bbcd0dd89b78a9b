import Coppermind.Reconciler.Pass

/-!
# What the parts of a pass do

One specification for each part of `reconcileOnce`: what a scan contains, what the update of a
pending row changes, what the adoptions change.  The rows are looked at one identity at a time,
through `State.row?`.
-/

namespace Coppermind.Reconciler

open Coppermind.Lib Coppermind.Frontmatter Coppermind.Schema Coppermind.Notes

section Rows

variable {s : State} {id id' : NoteId} {row : Row}

theorem row?_id (h : s.row? id = some row) : row.id = id := by
  simpa using List.find?_some h

theorem row?_putRow_self : (s.putRow row).row? row.id = (s.row? row.id).map fun _ => row := by
  simp only [State.row?, State.putRow]
  induction s.rows with
  | nil => rfl
  | cons r rows ih =>
    rw [List.map_cons, List.find?_cons, List.find?_cons, ih]
    by_cases h : r.id = row.id
    · simp [h]
    · have hr : (r.id == row.id) = false := by simpa using h
      rw [if_neg (by simpa using h), hr]

theorem row?_putRow_of_ne (hne : id ≠ row.id) : (s.putRow row).row? id = s.row? id := by
  simp only [State.row?, State.putRow]
  induction s.rows with
  | nil => rfl
  | cons r rows ih =>
    rw [List.map_cons, List.find?_cons, List.find?_cons, ih]
    by_cases h : r.id = row.id
    · have hr : (r.id == id) = false := by simpa [h] using Ne.symm hne
      have hrow : (row.id == id) = false := by simpa using Ne.symm hne
      rw [if_pos (beq_iff_eq.2 h), hr, hrow]
    · simp [h]

theorem ids_putRow : (s.putRow row).rows.map (·.id) = s.rows.map (·.id) := by
  simp only [State.putRow, List.map_map]
  refine List.map_congr_left fun r _ => ?_
  by_cases h : r.id = row.id <;> simp [h]

theorem row?_of_rows {s s' : State} (h : s'.rows = s.rows) : s'.row? id = s.row? id := by
  rw [State.row?, State.row?, h]

/-- Rows added at the end hide no row that is there. -/
theorem row?_append_of_some {rows added : List Row}
    (h : rows.find? (·.id == id) = some row) :
    (rows ++ added).find? (·.id == id) = some row := by
  rw [List.find?_append, h]
  rfl

end Rows

section Scan

variable {lib : Libraries} {schema : FrontmatterSchema} {settings : Settings} {known : Known}
  {walk : List Sighting} {result : ScanResult}

/-- A scan holds what each file of the walk adds, in the order of the walk. -/
theorem scan_eq_ok :
    scan lib schema settings known walk = .ok result ↔
      List.Forall₂ (fun sighting f => f.1 = sighting.path ∧
        scanFile lib schema settings known sighting = .ok f.2) walk result.findings := by
  have hmap : scan lib schema settings known walk = .ok result ↔
      (walk.mapM fun sighting => do
        let finding ← scanFile lib schema settings known sighting
        return (sighting.path, finding)) = .ok result.findings := by
    unfold scan
    generalize (walk.mapM fun sighting => do
        let finding ← scanFile lib schema settings known sighting
        return (sighting.path, finding)) = findings
    cases findings with
    | error e =>
      constructor <;> intro h <;> cases h
    | ok findings =>
      constructor <;> intro h <;> cases h <;> rfl
  have hfile : ∀ (sighting : Sighting) (f : RelPath × Finding),
      (do let finding ← scanFile lib schema settings known sighting
          return (sighting.path, finding)) = (.ok f : Except Raised _) ↔
        f.1 = sighting.path ∧ scanFile lib schema settings known sighting = .ok f.2 := by
    intro sighting f
    cases scanFile lib schema settings known sighting with
    | error e =>
      constructor
      · intro h
        cases h
      · rintro ⟨-, h⟩
        cases h
    | ok finding =>
      constructor
      · intro h
        cases h
        exact ⟨rfl, rfl⟩
      · rintro ⟨hpath, h⟩
        cases h
        exact congrArg Except.ok (Prod.ext hpath.symm rfl)
  rw [hmap, mapM_eq_ok]
  simp only [hfile]

/-- Each file of the walk adds what its own scan gives. -/
theorem scan_mem (h : scan lib schema settings known walk = .ok result) {sighting : Sighting}
    (hmem : sighting ∈ walk) : ∃ f ∈ result.findings, f.1 = sighting.path ∧
      scanFile lib schema settings known sighting = .ok f.2 :=
  forall₂_mem_left (scan_eq_ok.1 h) hmem

end Scan

section Update

variable (lib : Libraries) (schema : FrontmatterSchema)

@[simp] theorem wp_liftExcept {α : Type} (x : Except Raised α) {Q : α → State → Prop}
    {E : Raised → State → Prop} {s : State} :
    wp (liftExcept x) Q E s ↔ match x with
      | .ok a => Q a s
      | .error e => E e s := by
  cases x <;> rfl

/-- The row as the update of a pass leaves it. -/
def settledRow (pass : Pass) (row : Row) (values : Values) : Row :=
  if values = [] ∨ pass.scanStarted < row.updatedAt then row else values.apply pass.now row

@[simp] theorem settledRow_id (pass : Pass) (row : Row) (values : Values) :
    (settledRow pass row values).id = row.id := by
  unfold settledRow
  split <;> rfl

/-- The receipts after the update of a row. -/
def keptReceipts (pass : Pass) (row : Row) (removed : Removed) (receipts : List Receipt) :
    List Receipt :=
  match removed.receipt with
  | none => receipts
  | some receipt =>
    if removed.values = [] ∨ pass.scanStarted < row.updatedAt ∨
        (retained receipts receipt).isSome then receipts
    else receipts ++ [receipt]

/-- What the update of a pending row that returns has done. -/
structure Updated (pass : Pass) (row : Row) (removed : Removed) (s s' : State) : Prop where
  keys : s'.rows.map (·.id) = s.rows.map (·.id)
  row_eq : s'.row? row.id = some (settledRow pass row removed.values)
  others : ∀ id, id ≠ row.id → s'.row? id = s.row? id
  receipts : s'.receipts = keptReceipts pass row removed s.receipts
  memory : s'.memory = s.memory
  collisions : s'.collisions = s.collisions

/-- The part of the state that a review record leaves alone. -/
def mirrored (s : State) : List Row × List Receipt × Memory × List (NoteId × RelPath) :=
  (s.rows, s.receipts, s.memory, s.collisions)

theorem keepRecord_wp (pass : Pass) (observed : Option Observation) (receipt : Option Receipt)
    (updated : Row) (s : State) :
    wp (keepRecord pass observed receipt updated)
      (fun _ s' => mirrored s' = (s.rows, match receipt with
          | none => s.receipts
          | some receipt =>
            if (retained s.receipts receipt).isSome then s.receipts else s.receipts ++ [receipt],
        s.memory, s.collisions))
      (fun _ _ => True) s := by
  cases receipt with
  | none =>
    by_cases h : observed.isSome = true
    · simp only [keepRecord, h, if_true, rememberReturn, wp_modify]
      split <;> rfl
    · simp only [keepRecord, h]
      rfl
  | some receipt =>
    simp only [keepRecord, saveReceipt, wp_bind, wp_get]
    cases h : retained s.receipts receipt with
    | none => rfl
    | some previous =>
      rw [wp_raiseIf]
      split
      · trivial
      · rfl

theorem recordReview_frame (pass : Pass) (observed : Option Observation) (id : NoteId)
    (values : Values) : Frame mirrored (recordReview schema pass observed id values) := by
  unfold recordReview
  split
  · refine frame_ite (frame_bind ?_ fun review => frame_modify fun s => rfl) (frame_pure _)
    unfold liftExcept
    split
    · exact frame_pure _
    · exact frame_throw _
  · exact frame_pure _

/-- One pending row. -/
theorem updatePending_wp (pass : Pass) (observed : Option Observation) {row : Row}
    (counts : Counts) {s : State} (hrow : s.row? row.id = some row) :
    wp (updatePending lib schema pass observed row counts)
      (fun _ s' => ∃ removed, pendingValues lib schema pass s.receipts row observed = .ok removed ∧
        Updated pass row removed s s')
      (fun _ _ => True) s := by
  unfold updatePending
  simp only [wp_bind, wp_get, wp_liftExcept]
  cases hp : pendingValues lib schema pass s.receipts row observed with
  | error e => trivial
  | ok removed =>
    have hsame (h : removed.values = [] ∨ pass.scanStarted < row.updatedAt) :
        Updated pass row removed s s := by
      refine ⟨rfl, ?_, fun _ _ => rfl, ?_, rfl, rfl⟩
      · rw [hrow, settledRow, if_pos h]
      · unfold keptReceipts
        cases removed.receipt with
        | none => rfl
        | some receipt => exact (if_pos (h.imp id Or.inl)).symm
    dsimp only
    by_cases hvalues : removed.values = []
    · rw [if_pos hvalues]
      exact ⟨_, rfl, hsame (Or.inl hvalues)⟩
    · rw [if_neg hvalues]
      simp only [wp_bind, wp_raiseIf]
      by_cases hadmits : (!removed.values.admitted) = true
      · rw [if_pos hadmits]
        trivial
      · rw [if_neg hadmits]
        by_cases hguard : pass.scanStarted < row.updatedAt
        · rw [if_pos hguard]
          exact ⟨_, rfl, hsame (Or.inr hguard)⟩
        · rw [if_neg hguard]
          simp only [wp_bind, wp_modify, wp_raiseIf, wp_pure]
          refine wp_mono (keepRecord_wp pass observed removed.receipt _ _) (fun _ s₁ h₁ => ?_)
            fun _ _ _ => trivial
          refine (recordReview_frame schema pass observed row.id removed.values).wp
            (fun _ s₂ h₂ => ?_) fun _ _ _ => trivial
          split
          · trivial
          · have h := h₂.trans h₁
            simp only [mirrored, Prod.mk.injEq] at h
            obtain ⟨hrows, hreceipts, hmemory, hcollisions⟩ := h
            refine ⟨removed, rfl, ?_, ?_, fun id hne => ?_, ?_, hmemory, hcollisions⟩
            · rw [hrows, ids_putRow]
            · have hsettled : settledRow pass row removed.values =
                  removed.values.apply pass.now row := by
                rw [settledRow, if_neg (not_or.2 ⟨hvalues, hguard⟩)]
              rw [hsettled, row?_of_rows hrows, ← apply_id removed.values pass.now row,
                row?_putRow_self, apply_id, hrow]
              rfl
            · rw [row?_of_rows hrows, row?_putRow_of_ne (by rwa [apply_id])]
            · rw [hreceipts]
              unfold keptReceipts
              cases removed.receipt with
              | none => rfl
              | some receipt => simp only [hvalues, hguard, false_or]; rfl

theorem evidence_noteId {removed : List Removal} {id : NoteId} {path : RelPath} {digest : PyStr}
    {now : Instant} {receipt : Receipt}
    (h : evidence lib removed id path digest now = some receipt) : receipt.noteId = id := by
  simp only [evidence, Option.map_eq_some_iff] at h
  obtain ⟨r, -, rfl⟩ := h
  rfl

theorem vanishedReceipt_noteId {pass : Pass} {row : Row} {receipt : Receipt} {reason : Option PyStr}
    (h : vanishedReceipt lib pass row = (some receipt, reason)) : receipt.noteId = row.id := by
  unfold vanishedReceipt at h
  repeat' split at h
  all_goals try cases h
  next found hfound =>
    obtain ⟨copy, -, hcopy⟩ := List.exists_of_findSome?_eq_some hfound
    have := evidence_noteId lib hcopy
    exact this

theorem removalReceipt_noteId {pass : Pass} {row : Row} {receipt : Receipt} {reason : Option PyStr}
    (h : removalReceipt lib pass row = (some receipt, reason)) : receipt.noteId = row.id := by
  unfold removalReceipt at h
  split at h
  · next found hfound =>
    cases h
    exact evidence_noteId lib hfound
  · exact vanishedReceipt_noteId lib h

theorem latestRemoval_noteId {pass : Pass} {row : Row} {removal : Removal} {removed : Removed}
    (h : latestRemoval lib schema pass row removal = .ok removed) {receipt : Receipt}
    (hreceipt : removed.receipt = some receipt) : receipt.noteId = row.id := by
  unfold latestRemoval at h
  cases hparse : mustParse lib removal.data with
  | error e =>
    rw [hparse] at h
    cases h
  | ok parsed =>
    rw [hparse] at h
    cases h
    exact evidence_noteId lib hreceipt

/-- The receipt of a removal is the note's own. -/
theorem removedValues_noteId {pass : Pass} {receipts : List Receipt} {row : Row} {removed : Removed}
    (h : removedValues lib schema pass receipts row = .ok removed) {receipt : Receipt}
    (hreceipt : removed.receipt = some receipt) : receipt.noteId = row.id := by
  unfold removedValues at h
  split at h
  · next found reason hfound =>
    have hid := removalReceipt_noteId lib hfound
    split at h <;> cases h <;> cases hreceipt <;> exact hid
  · split at h
    · split at h
      · exact latestRemoval_noteId lib schema h hreceipt
      · split at h <;> cases h <;> cases hreceipt
    · cases h
      cases hreceipt

theorem retained_congr {receipts receipts' : List Receipt} {receipt : Receipt}
    (h : receipts.filter (·.noteId == receipt.noteId) =
      receipts'.filter (·.noteId == receipt.noteId)) :
    retained receipts receipt = retained receipts' receipt := by
  have hown : ∀ rs : List Receipt, retained rs receipt =
      (rs.filter (·.noteId == receipt.noteId)).find? (·.removalCommit == receipt.removalCommit) := by
    intro rs
    rw [List.find?_filter, retained]
    simp only [Bool.decide_and, Bool.decide_eq_true]
  rw [hown, hown, h]

theorem pendingValues_noteId {pass : Pass} {receipts : List Receipt} {row : Row}
    {observed : Option Observation} {removed : Removed}
    (h : pendingValues lib schema pass receipts row observed = .ok removed) {receipt : Receipt}
    (hreceipt : removed.receipt = some receipt) : receipt.noteId = row.id := by
  cases observed with
  | none => exact removedValues_noteId lib schema h hreceipt
  | some o =>
    cases h
    cases hreceipt

/-- The receipts of one identity. -/
def receiptsOf (receipts : List Receipt) (id : NoteId) : List Receipt :=
  receipts.filter (·.noteId == id)

/-- Only its own receipts matter to the update of a row. -/
theorem pendingValues_congr (pass : Pass) {receipts receipts' : List Receipt} {row : Row}
    (observed : Option Observation) (h : receiptsOf receipts row.id = receiptsOf receipts' row.id) :
    pendingValues lib schema pass receipts row observed =
      pendingValues lib schema pass receipts' row observed := by
  cases observed with
  | some o => rfl
  | none =>
    show removedValues lib schema pass receipts row = removedValues lib schema pass receipts' row
    unfold removedValues
    rcases hfound : removalReceipt lib pass row with ⟨_ | receipt, reason⟩
    · rfl
    · have hid := removalReceipt_noteId lib hfound
      have hsame : retained receipts receipt = retained receipts' receipt := by
        apply retained_congr
        rw [hid]
        exact h
      simp only [hsame]

theorem keptReceipts_others {pass : Pass} {row : Row} {removed : Removed} {receipts : List Receipt}
    (hid : ∀ receipt, removed.receipt = some receipt → receipt.noteId = row.id) {id : NoteId}
    (hne : id ≠ row.id) :
    receiptsOf (keptReceipts pass row removed receipts) id = receiptsOf receipts id := by
  unfold keptReceipts
  cases hreceipt : removed.receipt with
  | none => rfl
  | some receipt =>
    have hfar : (receipt.noteId == id) = false := by
      rw [hid receipt hreceipt]
      simpa using Ne.symm hne
    dsimp only
    split
    · rfl
    · simp [receiptsOf, List.filter_append, hfar]

theorem keptReceipts_own {pass : Pass} {row : Row} {removed : Removed}
    {receipts receipts' : List Receipt}
    (hid : ∀ receipt, removed.receipt = some receipt → receipt.noteId = row.id)
    (h : receiptsOf receipts row.id = receiptsOf receipts' row.id) :
    receiptsOf (keptReceipts pass row removed receipts) row.id =
      receiptsOf (keptReceipts pass row removed receipts') row.id := by
  unfold keptReceipts
  cases hreceipt : removed.receipt with
  | none => exact h
  | some receipt =>
    have hsame : retained receipts receipt = retained receipts' receipt := by
      apply retained_congr
      rw [hid receipt hreceipt]
      exact h
    simp only [hsame]
    split
    · exact h
    · simp only [receiptsOf, List.filter_append] at h ⊢
      rw [h]

/-- What the loop over the pending rows has done when it returns. -/
structure Settled (pass : Pass) (scan : ScanResult) (index : Index) (ids : List NoteId)
    (s s' : State) : Prop where
  keys : s'.rows.map (·.id) = s.rows.map (·.id)
  memory : s'.memory = s.memory
  collisions : s'.collisions = s.collisions
  others : ∀ id, id ∉ ids →
    s'.row? id = s.row? id ∧ receiptsOf s'.receipts id = receiptsOf s.receipts id
  pending : ∀ id ∈ ids, ∀ row, s.row? id = some row →
    ∃ removed, pendingValues lib schema pass s.receipts row (chosen scan index id) = .ok removed ∧
      s'.row? id = some (settledRow pass row removed.values) ∧
      receiptsOf s'.receipts id = receiptsOf (keptReceipts pass row removed s.receipts) id
  absent : ∀ id, s.row? id = none → s'.row? id = none

/-- The loop over the pending rows. -/
theorem updateAll_wp (pass : Pass) (scan : ScanResult) (index : Index) {ids : List NoteId}
    (hids : ids.Nodup) (counts : Counts) (s : State) :
    wp (updateAll lib schema pass scan index ids counts)
      (fun _ s' => Settled lib schema pass scan index ids s s')
      (fun _ _ => True) s := by
  induction ids generalizing counts s with
  | nil =>
    exact ⟨rfl, rfl, rfl, fun _ _ => ⟨rfl, rfl⟩, fun _ h => absurd h List.not_mem_nil, fun _ h => h⟩
  | cons id rest ih =>
    rw [List.nodup_cons] at hids
    simp only [updateAll, wp_bind, wp_get]
    cases hrow : s.row? id with
    | none =>
      refine wp_mono (ih hids.2 counts s) (fun _ s' h => ?_) fun _ _ _ => trivial
      exact
        { keys := h.keys
          memory := h.memory
          collisions := h.collisions
          others := fun id' hid' => h.others id' fun hmem => hid' (List.mem_cons_of_mem _ hmem)
          pending := by
            intro id' hid' row' hrow'
            rcases List.mem_cons.1 hid' with rfl | hmem
            · rw [hrow] at hrow'
              cases hrow'
            · exact h.pending id' hmem row' hrow'
          absent := h.absent }
    | some row =>
      obtain rfl : row.id = id := row?_id hrow
      simp only [wp_bind]
      refine wp_mono (updatePending_wp lib schema pass _ counts hrow) ?_ fun _ _ _ => trivial
      rintro counts' s₁ ⟨removed, hremoved, h₁⟩
      refine wp_mono (ih hids.2 counts' s₁) (fun _ s' h => ?_) fun _ _ _ => trivial
      have hown := fun receipt => @pendingValues_noteId lib schema _ _ _ _ _ hremoved receipt
      have hfirst {id' : NoteId} (hne : id' ≠ row.id) :
          s₁.row? id' = s.row? id' ∧ receiptsOf s₁.receipts id' = receiptsOf s.receipts id' := by
        rw [h₁.receipts]
        exact ⟨h₁.others id' hne, keptReceipts_others hown hne⟩
      exact
        { keys := h.keys.trans h₁.keys
          memory := h.memory.trans h₁.memory
          collisions := h.collisions.trans h₁.collisions
          others := by
            intro id' hid'
            rw [List.mem_cons, not_or] at hid'
            have h₂ := h.others id' hid'.2
            have h₃ := hfirst hid'.1
            exact ⟨h₂.1.trans h₃.1, h₂.2.trans h₃.2⟩
          pending := by
            intro id' hid' row' hrow'
            rcases List.mem_cons.1 hid' with rfl | hmem
            · rw [hrow] at hrow'
              obtain rfl := Option.some.inj hrow'
              have h₂ := h.others row.id hids.1
              refine ⟨removed, hremoved, h₂.1.trans h₁.row_eq, ?_⟩
              rw [h₂.2, h₁.receipts]
            · have hne : id' ≠ row.id := fun heq => hids.1 (heq ▸ hmem)
              have h₃ := hfirst hne
              obtain rfl : row'.id = id' := row?_id hrow'
              obtain ⟨removed', hremoved', hrow₂, hreceipts₂⟩ :=
                h.pending row'.id hmem row' (h₃.1.trans hrow')
              rw [pendingValues_congr lib schema pass _ h₃.2] at hremoved'
              refine ⟨removed', hremoved', hrow₂, hreceipts₂.trans ?_⟩
              exact keptReceipts_own
                (fun receipt => pendingValues_noteId lib schema hremoved') h₃.2
          absent := by
            intro id' hnone
            refine h.absent id' ?_
            by_cases hne : id' = row.id
            · rw [hne, hrow] at hnone
              cases hnone
            · exact (hfirst hne).1.trans hnone }

end Update

section Adopt

variable (lib : Libraries) (db : Database) (schema : FrontmatterSchema)

/-- The identities of the mirror are its primary key. -/
def State.Keyed (s : State) : Prop := (s.rows.map (·.id)).Nodup

/-- Rows were added, each under an identity of its own, and nothing else of the database and of
the records beside it changed. -/
structure Added (s s' : State) : Prop where
  rows : ∃ added, s'.rows = s.rows ++ added
  keyed : s.Keyed → s'.Keyed
  receipts : s'.receipts = s.receipts
  collisions : s'.collisions = s.collisions

theorem Added.of_eq {s s' : State} (hrows : s'.rows = s.rows) (hreceipts : s'.receipts = s.receipts)
    (hcollisions : s'.collisions = s.collisions) : Added s s' := by
  refine ⟨⟨[], by rw [hrows, List.append_nil]⟩, ?_, hreceipts, hcollisions⟩
  rw [State.Keyed, State.Keyed, hrows]
  exact id

theorem Added.trans {s s' s'' : State} (h : Added s s') (h' : Added s' s'') : Added s s'' := by
  obtain ⟨added, hadded⟩ := h.rows
  obtain ⟨added', hadded'⟩ := h'.rows
  exact
    { rows := ⟨added ++ added', by rw [hadded', hadded, List.append_assoc]⟩
      keyed := h'.keyed ∘ h.keyed
      receipts := h'.receipts.trans h.receipts
      collisions := h'.collisions.trans h.collisions }

theorem Added.row? {s s' : State} (h : Added s s') {id : NoteId} {row : Row}
    (hrow : s.row? id = some row) : s'.row? id = some row := by
  obtain ⟨added, hadded⟩ := h.rows
  rw [State.row?, hadded]
  exact row?_append_of_some hrow

theorem keyed_append {rows : List Row} {row : Row} (h : (rows.map (·.id)).Nodup)
    (hnew : (rows.any (·.id == row.id)) = false) : ((rows ++ [row]).map (·.id)).Nodup := by
  rw [List.map_append, List.map_singleton, List.nodup_append]
  refine ⟨h, List.nodup_singleton _, ?_⟩
  intro a ha b hb
  rw [List.mem_singleton.1 hb]
  obtain ⟨r, hr, rfl⟩ := List.mem_map.1 ha
  have := List.any_eq_false.1 hnew r hr
  simpa using this

theorem insertAdoption_id {path : RelPath} {moment : AdoptionMoment} {adoption : Adoption}
    {text written : Option Text} {row : Row}
    (h : insertAdoption lib db schema path moment adoption text = .adopted row written) :
    row.id = adoption.id := by
  unfold insertAdoption at h
  split at h
  · cases h
  · dsimp only at h
    split at h
    · cases h
      rfl
    · split at h <;> cases h

theorem writeAdoption_id {path : RelPath} {expected : PyStr} {data : FileBytes}
    {moment : AdoptionMoment} {adoption : Adoption} {written : Option Text} {row : Row}
    (h : writeAdoption lib db schema path expected data moment adoption = .adopted row written) :
    row.id = adoption.id := by
  unfold writeAdoption at h
  repeat' split at h
  all_goals first
    | exact insertAdoption_id lib db schema h
    | cases h

/-- An adoption inserts a row under an identity the mirror does not have. -/
theorem adoptNote_adopted {rows : List Row} {candidate : Candidate} {moment : AdoptionMoment}
    {localNow : DateTime} {row : Row} {text : Option Text}
    (h : adoptNote lib db schema rows candidate moment localNow = .adopted row text) :
    rows.any (·.id == row.id) = false := by
  unfold adoptNote landAdoption at h
  repeat' split at h
  all_goals try cases h
  next hknown _ _ =>
    rw [writeAdoption_id lib db schema h]
    simpa using hknown

/-- The adoptions of a pass, whether they are all tried or one of them raises. -/
theorem adoptAll_wp (pass : Pass) (candidates : List Candidate) (p : Progress) (s : State) :
    wp (adoptAll lib db schema pass candidates p) (fun _ s' => Added s s')
      (fun _ s' => Added s s') s := by
  induction candidates generalizing p s with
  | nil => exact Added.of_eq rfl rfl rfl
  | cons candidate rest ih =>
    have hrest {s₁ : State} (h : Added s s₁) (p : Progress) :
        wp (adoptAll lib db schema pass rest p) (fun _ s' => Added s s')
          (fun _ s' => Added s s') s₁ :=
      wp_mono (ih p s₁) (fun _ _ h' => h.trans h') fun _ _ h' => h.trans h'
    simp only [adoptAll, wp_bind, wp_get]
    cases hadopt : adoptNote lib db schema s.rows candidate (pass.adoptions candidate)
        pass.localNow with
    | metadataUnavailable => exact Added.of_eq rfl rfl rfl
    | failed text =>
      simp only [wp_bind, wp_modify]
      apply hrest
      exact Added.of_eq rfl rfl rfl
    | changed cause => exact ih _ s
    | invalid cause =>
      simp only [wp_bind, wp_modify]
      apply hrest
      exact Added.of_eq rfl rfl rfl
    | collision cause =>
      simp only [wp_bind, wp_modify]
      apply hrest
      exact Added.of_eq rfl rfl rfl
    | adopted row text =>
      have hadded : Added s { s.wrote candidate.path text with rows := s.rows ++ [row] } :=
        { rows := ⟨[row], rfl⟩
          keyed := fun h => keyed_append h (adoptNote_adopted lib db schema hadopt)
          receipts := rfl
          collisions := rfl }
      simp only [wp_bind, wp_modify]
      split
      · exact hadded
      · exact hrest hadded _

end Adopt

section Recover

variable (lib : Libraries) (schema : FrontmatterSchema)

/-- `receipts` keeps one receipt of each identity. -/
theorem newestReceipts_nodup (receipts : List Receipt) :
    ((newestReceipts receipts).map (·.noteId)).Nodup := by
  unfold newestReceipts
  apply List.foldlRecOn (motive := fun found : List Receipt => (found.map (·.noteId)).Nodup)
  · exact List.nodup_nil
  intro found hnodup receipt _
  cases hold : found.find? (·.noteId == receipt.noteId) with
  | none =>
    have hnew : receipt.noteId ∉ found.map (·.noteId) := by
      intro hmem
      obtain ⟨r, hr, hid⟩ := List.mem_map.1 hmem
      exact List.find?_eq_none.1 hold r hr (beq_iff_eq.2 hid)
    rw [List.map_append, List.map_singleton, List.nodup_append]
    refine ⟨hnodup, List.nodup_singleton _, fun a ha b hb heq => hnew ?_⟩
    rwa [← List.mem_singleton.1 hb, ← heq]
  | some old =>
    dsimp only
    split
    · have hkeys : (found.map fun r => if r.noteId == receipt.noteId then receipt else r).map
          (·.noteId) = found.map (·.noteId) := by
        rw [List.map_map]
        refine List.map_congr_left fun r _ => ?_
        by_cases h : r.noteId = receipt.noteId <;> simp [h]
      rwa [hkeys]
    · exact hnodup

theorem recoveredFrom_noteId (pass : Pass) (later : Option ObservedReturn) (receipt : Receipt) :
    (recoveredFrom lib pass later receipt).1.noteId = receipt.noteId := by
  unfold recoveredFrom
  split
  · split <;> rfl
  · rfl

/-- A recovered row is the row of the receipt's note. -/
theorem recoveredRow_id {pass : Pass} {returns : List (NoteId × ObservedReturn)} {receipt : Receipt}
    {row : Row} (h : recoveredRow lib schema pass returns receipt = .ok row) :
    row.id = receipt.noteId := by
  rw [← recoveredFrom_noteId lib pass ((returns.find? (·.1 == receipt.noteId)).map (·.2)) receipt]
  unfold recoveredRow at h
  dsimp only at h
  generalize recoveredFrom lib pass ((returns.find? (·.1 == receipt.noteId)).map (·.2)) receipt =
    recovered at h ⊢
  cases hparse : mustParse lib recovered.1.data with
  | error e =>
    rw [hparse] at h
    cases h
  | ok parsed =>
    rw [hparse] at h
    simp only [bind, Except.bind] at h
    split at h <;> cases h <;> rfl

/-- The rows added are those of the receipts, one by one. -/
theorem recoveredRows_ids {pass : Pass} {returns : List (NoteId × ObservedReturn)}
    {receipts : List Receipt} {rows : List Row}
    (h : receipts.mapM (recoveredRow lib schema pass returns) = .ok rows) :
    rows.map (·.id) = receipts.map (·.noteId) := by
  have hrows := mapM_eq_ok.1 h
  clear h
  induction hrows with
  | nil => rfl
  | cons hrow _ ih => rw [List.map_cons, List.map_cons, recoveredRow_id lib schema hrow, ih]

/-- `recover_rows` adds rows for identities the mirror lost. -/
theorem recoverRows_wp (pass : Pass) (s : State) :
    wp (recoverRows lib schema pass)
      (fun _ s' => Added s s' ∧ s'.memory = s.memory)
      (fun _ s' => s' = s) s := by
  unfold recoverRows
  simp only [wp_bind, wp_get, wp_liftExcept]
  generalize hunknown : lost pass s = unknown
  cases hrows : unknown.mapM (recoveredRow lib schema pass s.returns) with
  | error e => trivial
  | ok rows =>
    simp only [wp_raiseIf, wp_modify]
    split
    · trivial
    · refine ⟨⟨⟨rows, rfl⟩, fun hkeyed => ?_, rfl, rfl⟩, trivial⟩
      have hnew : (rows.map (·.id)).Nodup ∧ ∀ row ∈ rows, s.row? row.id = none := by
        rw [recoveredRows_ids lib schema hrows]
        subst hunknown
        refine ⟨((newestReceipts_nodup s.receipts).sublist
          ((List.filter_sublist.trans List.filter_sublist).map _)), fun row hrow => ?_⟩
        have hid := List.mem_map_of_mem (f := (·.id)) hrow
        rw [recoveredRows_ids lib schema hrows] at hid
        obtain ⟨receipt, hreceipt, heq⟩ := List.mem_map.1 hid
        rw [← heq]
        simpa using (List.mem_filter.1 hreceipt).2
      show ((s.rows ++ rows).map (·.id)).Nodup
      rw [List.map_append, List.nodup_append]
      refine ⟨hkeyed, hnew.1, fun a ha b hb heq => ?_⟩
      obtain ⟨row, hrow, rfl⟩ := List.mem_map.1 hb
      obtain ⟨r, hr, rfl⟩ := List.mem_map.1 ha
      exact List.find?_eq_none.1 (hnew.2 row hrow) r hr (beq_iff_eq.2 heq)

end Recover

section Pass

variable (lib : Libraries) (db : Database) (schema : FrontmatterSchema) (settings : Settings)

/-- The state a pass reads its mirror from. -/
def recovered (pass : Pass) (s : State) : State := finalState (recoverRows lib schema pass s)

theorem recovered_added (pass : Pass) (s : State) : Added s (recovered lib schema pass s) := by
  refine wp_final (P := Added s) (wp_mono (recoverRows_wp lib schema pass s) ?_ ?_)
  · intro _ s' h
    exact h.1
  · intro _ s' h
    rw [h]
    exact Added.of_eq rfl rfl rfl

/-- A pass that raised has rolled its updates back: the mirror it read is as it was, but for the
rows its adoptions inserted. -/
def Undone (s s' : State) : Prop :=
  ∃ s₁, Added s s₁ ∧ s'.rows = s₁.rows ∧ s'.collisions = s₁.collisions

theorem Undone.of_eq {s s' : State} (hrows : s'.rows = s.rows)
    (hreceipts : s'.receipts = s.receipts) (hcollisions : s'.collisions = s.collisions) :
    Undone s s' :=
  ⟨s', Added.of_eq hrows hreceipts hcollisions, rfl, rfl⟩

/-- What a pass looks files up in, in the state it reads its mirror from. -/
def knownOf (pass : Pass) (s : State) : Known :=
  { full := pass.full, quiet := quietWindow pass, index := mirrorIndex pass s, memory := s.memory }

/-- What a pass that returns has done, from the state it read its mirror from. -/
structure Passed (pass : Pass) (s : State) (walk : List Sighting) (result : ScanResult)
    (progress : Progress) (s₁ s' : State) : Prop where
  walked : pass.walk = some walk
  scanned : scan lib schema settings (knownOf pass s) walk = .ok result
  adopted : adoptAll lib db schema pass result.candidates {} { s with memory := result.unidentified } =
    .ok progress s₁
  settled : Settled lib schema pass result (mirrorIndex pass s)
    (pending result (mirrorIndex pass s))
    { s₁ with collisions := collisionsOf result (mirrorIndex pass s) } s'

theorem Passed.added {pass : Pass} {s s₁ s' : State} {walk : List Sighting} {result : ScanResult}
    {progress : Progress} (h : Passed lib db schema settings pass s walk result progress s₁ s') :
    Added s s₁ := by
  have hadded := wp_ok (adoptAll_wp lib db schema pass result.candidates {} _) h.adopted
  have hscanned : Added s { s with memory := result.unidentified } := Added.of_eq rfl rfl rfl
  exact hscanned.trans hadded

/-- The identities a pass settles are its mirror's, each once. -/
theorem pending_nodup {pass : Pass} {s : State} (hkeyed : s.Keyed) (result : ScanResult) :
    (pending result (mirrorIndex pass s)).Nodup := by
  have hids : ((mirrorIndex pass s).map (·.noteId)).Nodup := by
    rw [mirrorIndex, List.map_map]
    exact hkeyed.sublist (List.filter_sublist.map _)
  exact hids.filter _

/-- **One pass**: what it has done when it returns; when it raises, the rows it read are as they
were, and its adoptions stay. -/
theorem reconcileOnce_wp (pass : Pass) {s : State} (hkeyed : s.Keyed) :
    wp (reconcileOnce lib db schema settings pass)
      (fun _ s' => ∃ walk result progress s₁,
        Passed lib db schema settings pass (recovered lib schema pass s) walk result progress s₁ s')
      (fun _ s' => Undone (recovered lib schema pass s) s') s := by
  have hadded := recovered_added lib schema pass s
  unfold reconcileOnce
  rw [wp_bind]
  refine wp_mono wp_run ?_ ?_
  · intro _ s₀ hrun
    have hrecovered : recovered lib schema pass s = s₀ := by rw [recovered, hrun, finalState]
    rw [hrecovered] at hadded ⊢
    simp only [wp_bind, wp_get, wp_liftExcept, wp_modify, wp_transaction, wp_pure]
    cases hwalk : pass.walk with
    | none => exact Undone.of_eq rfl rfl rfl
    | some walk =>
      simp only [Option.elim_some]
      cases hscan : scan lib schema settings (knownOf pass s₀) walk with
      | error e =>
        unfold knownOf at hscan
        rw [hscan]
        exact Undone.of_eq rfl rfl rfl
      | ok result =>
        have hknown := hscan
        unfold knownOf at hknown
        rw [hknown]
        have hunidentified : Added s₀ { s₀ with memory := result.unidentified } :=
          Added.of_eq rfl rfl rfl
        refine wp_mono (wp_and wp_run (adoptAll_wp lib db schema pass result.candidates {} _)) ?_ ?_
        · rintro progress s₁ ⟨hadopt, hadded₁⟩
          have hadded₁ := hunidentified.trans hadded₁
          rw [wp_raiseIf]
          split
          · exact ⟨s₁, hadded₁, rfl, rfl⟩
          refine wp_mono (updateAll_wp lib schema pass result (mirrorIndex pass s₀)
            (pending_nodup (hadded.keyed hkeyed) result) _ _) ?_ ?_
          · intro _ s' h
            exact ⟨walk, result, progress, s₁, hwalk, hscan, hadopt,
              { keys := h.keys, memory := h.memory, collisions := h.collisions, others := h.others
                pending := h.pending, absent := h.absent }⟩
          · intro _ s' _
            exact ⟨s₁, hadded₁, rfl, rfl⟩
        · rintro _ s' ⟨-, hadded₁⟩
          exact ⟨s', hunidentified.trans hadded₁, rfl, rfl⟩
  · intro _ s₀ hrun
    rw [recovered, hrun, finalState]
    exact Undone.of_eq rfl rfl rfl

end Pass

end Coppermind.Reconciler
