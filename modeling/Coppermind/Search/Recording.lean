import Coppermind.Search.Lawful
import Coppermind.Search.Reading

/-!
# What a pass at rest records

A row of the mirror is wanted in the index where it is published and its file is a note that
parses or a page of a source; it is stale where the index does not have its version.  What the
batches of a pass give is written key by key: a row that was read is described, one that failed is
marked, and every other stays as it is.
-/

namespace Coppermind.Search

open Coppermind.Lib Coppermind.Lib.Text Coppermind.Frontmatter

section Rows

variable (env : Env) (w : World)

def noteRow (n : NoteRow) : Stale := ⟨.note, n.id, n.contentHash, n.path, 0⟩

def sourceRow (s : SourceRow) : Stale :=
  ⟨.source, s.id, sourceVersion s.currentRevision, [], s.currentRevision⟩

/-- The row of a note or a source that the index wants to describe. -/
def wanted (key : Key) : Option Stale :=
  match key.1 with
  | .note => ((w.notes.find key.2).filter fun n =>
      n.state == .ok && reviewedNote env env.settings.notesFolder n).map noteRow
  | .source => ((w.sources.find key.2).filter fun s =>
      eligible env env.settings.notesFolder w (.source, s.id)).map sourceRow
  | .artifact => none

/-- The row that the index does not describe. -/
def staleAt (key : Key) : Option Stale :=
  (wanted env w key).filter fun row => (w.documents.find key).all (·.version ≠ row.version)

def staleRows : List Stale :=
  staleNotes env env.settings.notesFolder w ++ staleSources env env.settings.notesFolder w

end Rows

section Staleness

variable {env : Env} {w w' : World} {row : Stale} {key : Key}

theorem Beside.wanted (h : Beside w w') (key : Key) : wanted env w' key = wanted env w key := by
  rw [h]
  rfl

/-- **A stale note.** -/
theorem staleAt_note {id : PyStr} : staleAt env w (.note, id) = some row ↔
    ∃ n ∈ w.notes.rows, n.id = id ∧ staleNote env env.settings.notesFolder w n = true ∧
      row = noteRow n := by
  simp only [staleAt, wanted, Option.filter_eq_some_iff, Option.map_eq_some_iff, Table.find_eq_some,
    staleNote, Bool.and_eq_true]
  constructor
  · rintro ⟨⟨n, ⟨⟨hn, hid⟩, hwanted⟩, rfl⟩, hold⟩
    subst hid
    exact ⟨n, hn, rfl, ⟨hwanted, hold⟩, rfl⟩
  · rintro ⟨n, hn, rfl, ⟨hwanted, hold⟩, rfl⟩
    exact ⟨⟨n, ⟨⟨hn, rfl⟩, hwanted⟩, rfl⟩, hold⟩

/-- **A stale source.** -/
theorem staleAt_source {id : PyStr} : staleAt env w (.source, id) = some row ↔
    ∃ s ∈ w.sources.rows, s.id = id ∧ staleSource env env.settings.notesFolder w s = true ∧
      row = sourceRow s := by
  simp only [staleAt, wanted, Option.filter_eq_some_iff, Option.map_eq_some_iff, Table.find_eq_some,
    staleSource, Bool.and_eq_true]
  constructor
  · rintro ⟨⟨s, ⟨⟨hs, hid⟩, hwanted⟩, rfl⟩, hold⟩
    subst hid
    exact ⟨s, hs, rfl, ⟨hwanted, hold⟩, rfl⟩
  · rintro ⟨s, hs, rfl, ⟨hwanted, hold⟩, rfl⟩
    exact ⟨⟨s, ⟨⟨hs, rfl⟩, hwanted⟩, rfl⟩, hold⟩

theorem staleAt_cases (h : staleAt env w key = some row) : row.key = key ∧
    ((∃ n ∈ w.notes.rows, staleNote env env.settings.notesFolder w n = true ∧ row = noteRow n) ∨
      ∃ s ∈ w.sources.rows, staleSource env env.settings.notesFolder w s = true ∧
        row = sourceRow s) := by
  obtain ⟨kind, id⟩ := key
  cases kind with
  | note =>
    rcases staleAt_note.1 h with ⟨n, hn, rfl, hstale, rfl⟩
    exact ⟨rfl, Or.inl ⟨n, hn, hstale, rfl⟩⟩
  | source =>
    rcases staleAt_source.1 h with ⟨s, hs, rfl, hstale, rfl⟩
    exact ⟨rfl, Or.inr ⟨s, hs, hstale, rfl⟩⟩
  | artifact => cases h

theorem mem_staleNotes : row ∈ staleNotes env env.settings.notesFolder w ↔
    row.kind = .note ∧ staleAt env w row.key = some row := by
  constructor
  · intro h
    rcases List.mem_map.1 h with ⟨n, hn, rfl⟩
    obtain ⟨hmem, hstale⟩ := List.mem_filter.1 hn
    exact ⟨rfl, staleAt_note.2 ⟨n, hmem, rfl, hstale, rfl⟩⟩
  · rintro ⟨hkind, h⟩
    rcases (staleAt_cases h).2 with ⟨n, hn, hstale, rfl⟩ | ⟨s, hs, hstale, rfl⟩
    · exact List.mem_map.2 ⟨n, List.mem_filter.2 ⟨hn, hstale⟩, rfl⟩
    · cases hkind

theorem mem_staleSources : row ∈ staleSources env env.settings.notesFolder w ↔
    row.kind = .source ∧ staleAt env w row.key = some row := by
  constructor
  · intro h
    rcases List.mem_map.1 h with ⟨s, hs, rfl⟩
    obtain ⟨hmem, hstale⟩ := List.mem_filter.1 hs
    exact ⟨rfl, staleAt_source.2 ⟨s, hmem, rfl, hstale, rfl⟩⟩
  · rintro ⟨hkind, h⟩
    rcases (staleAt_cases h).2 with ⟨n, hn, hstale, rfl⟩ | ⟨s, hs, hstale, rfl⟩
    · cases hkind
    · exact List.mem_map.2 ⟨s, List.mem_filter.2 ⟨hs, hstale⟩, rfl⟩

theorem mem_staleRows : row ∈ staleRows env w ↔ staleAt env w row.key = some row := by
  unfold staleRows
  rw [List.mem_append, mem_staleNotes, mem_staleSources]
  constructor
  · rintro (⟨-, h⟩ | ⟨-, h⟩) <;> exact h
  · intro h
    rcases (staleAt_cases h).2 with ⟨n, -, -, rfl⟩ | ⟨s, -, -, rfl⟩
    · exact Or.inl ⟨rfl, h⟩
    · exact Or.inr ⟨rfl, h⟩

theorem staleNotes_nodup :
    ((staleNotes env env.settings.notesFolder w).map Stale.key).Nodup := by
  have hids : ((w.notes.rows.filter (staleNote env env.settings.notesFolder w)).map
      NoteRow.id).Nodup := w.notes.keyed.sublist (List.filter_sublist.map _)
  unfold staleNotes
  rw [List.map_map]
  have hkey : Stale.key ∘ (fun n : NoteRow => (⟨.note, n.id, n.contentHash, n.path, 0⟩ : Stale)) =
      Prod.mk Kind.note ∘ NoteRow.id := rfl
  rw [hkey, ← List.map_map]
  exact hids.map fun _ _ h => (Prod.mk.inj h).2

theorem staleSources_nodup :
    ((staleSources env env.settings.notesFolder w).map Stale.key).Nodup := by
  have hids : ((w.sources.rows.filter (staleSource env env.settings.notesFolder w)).map
      SourceRow.id).Nodup := w.sources.keyed.sublist (List.filter_sublist.map _)
  unfold staleSources
  rw [List.map_map]
  have hkey : Stale.key ∘ (fun s : SourceRow =>
      (⟨.source, s.id, sourceVersion s.currentRevision, [], s.currentRevision⟩ : Stale)) =
      Prod.mk Kind.source ∘ SourceRow.id := rfl
  rw [hkey, ← List.map_map]
  exact hids.map fun _ _ h => (Prod.mk.inj h).2

theorem eligible_of_staleAt (h : staleAt env w key = some row) :
    eligible env env.settings.notesFolder w key = true := by
  obtain ⟨rfl, hrow⟩ := staleAt_cases h
  rcases hrow with ⟨n, hn, hstale, rfl⟩ | ⟨s, hs, hstale, rfl⟩
  · simp only [staleNote, Bool.and_eq_true] at hstale
    have hfind : w.notes.find n.id = some n := Table.find_of_mem hn
    change (w.notes.find n.id).any _ = true
    rw [hfind]
    exact hstale.1.2
  · simp only [staleSource, Bool.and_eq_true] at hstale
    exact hstale.1

theorem unindexed_of_staleAt (h : staleAt env w key = some row) :
    (w.documents.find key).all (·.version ≠ row.version) = true :=
  (Option.filter_eq_some_iff.1 h).2

end Staleness

section Answers

variable {env : Env} {w : World} {row : Stale} {key : Key} {d : Document} {m : Mark}

/-- **A row that was read** is described at its version, under its path. -/
theorem readyOf_spec (h : staleAt env w key = some row) (hready : readyOf env w row = some d) :
    d.key = key ∧ d.version = row.version ∧ accepts w d = true ∧ follow w d = d := by
  have hread : readEntry env w row (placeOf w row).1 = .ok d := by
    unfold readyOf tried entryOf at hready
    split at hready
    · next d' htried =>
      obtain rfl := Option.some.inj hready
      split at htried
      · cases htried
      · cases hr : readEntry env w row (placeOf w row).1 with
        | ok d'' =>
          rw [hr] at htried
          obtain rfl := Attempt.ready.inj (Except.ok.inj htried)
          rfl
        | error e =>
          rw [hr] at htried
          cases e <;> cases htried
    · cases hready
  obtain ⟨rfl, hrow⟩ := staleAt_cases h
  rcases hrow with ⟨n, hn, hstale, rfl⟩ | ⟨s, hs, hstale, rfl⟩
  · rcases readNote_spec hread with ⟨hkind, hid, hpath, hversion, -⟩
    have hfind : w.notes.find d.refId = some n := by
      rw [hid]
      exact Table.find_of_mem hn
    refine ⟨?_, hversion, ?_, ?_⟩
    · unfold Document.key
      rw [hkind, hid]
      rfl
    · unfold accepts
      rw [hkind, hfind, hversion]
      exact beq_self_eq_true _
    · have hpath : d.path = n.path := hpath
      unfold follow
      split
      · rw [hfind, Option.map_some, Option.getD_some, ← hpath]
      · rfl
  · rcases readProjection_spec hread with ⟨hkind, hid, -, hversion, -⟩
    refine ⟨?_, hversion, ?_, ?_⟩
    · unfold Document.key
      rw [hkind, hid]
      rfl
    · unfold accepts
      rw [hkind]
    · unfold follow
      rw [hkind]

theorem failedOf_spec (h : failedOf env w row = some m) : ∃ f, m = markOf w row f := by
  unfold failedOf at h
  split at h
  · next m' htried =>
    obtain rfl := Option.some.inj h
    rcases tried_cases htried with ⟨d, hd⟩ | ⟨f, hf⟩
    · cases hd
    · exact ⟨f, (Attempt.failed.inj hf).1⟩
  · cases h

theorem transientOf_spec (h : transientOf env w row = some m) : ∃ f, m = markOf w row f := by
  unfold transientOf at h
  split at h
  · next m' htried =>
    obtain rfl := Option.some.inj h
    rcases tried_cases htried with ⟨d, hd⟩ | ⟨f, hf⟩
    · cases hd
    · exact ⟨f, (Attempt.failed.inj hf).1⟩
  · cases h

theorem markOf_key (f : Fault) : (markOf w row f).key = row.key := rfl

/-- A mark of a stale row is of what the mirror has and the index has not. -/
theorem mirrored_markOf (h : staleAt env w key = some row) (f : Fault) :
    mirrored env env.settings.notesFolder w (markOf w row f) = true ∧
      indexed w (markOf w row f) = false := by
  obtain ⟨rfl, hrow⟩ := staleAt_cases h
  constructor
  · rcases hrow with ⟨n, hn, hstale, rfl⟩ | ⟨s, hs, hstale, rfl⟩
    · simp only [staleNote, Bool.and_eq_true] at hstale
      change (w.notes.find n.id).any _ = true
      rw [show w.notes.find n.id = some n from Table.find_of_mem hn, Option.any_some, hstale.1.2]
      simp [markOf, placeOf, noteRow]
    · change currentSource w s.id _ = true
      unfold currentSource
      rw [show w.sources.find s.id = some s from Table.find_of_mem hs]
      exact beq_self_eq_true _
  · have hall := unindexed_of_staleAt h
    unfold indexed
    rw [markOf_key]
    cases hd : w.documents.find row.key with
    | none => rfl
    | some d =>
      rw [hd] at hall
      simpa [markOf] using hall

end Answers

section Recording

variable {env : Env} {w : World} {row : Stale} {batch : List Stale} {key : Key} {d : Document}
  {m : Mark} {change : Change}

/-- What a pass at rest records. -/
structure AtRest (env : Env) (w : World) (batch : List Stale) (change : Change) : Prop where
  stale : ∀ row ∈ batch, staleAt env w row.key = some row
  keys : (batch.map Stale.key).Nodup
  ready : change.ready = batch.filterMap (readyOf env w)
  failed : change.failed = batch.filterMap (failedOf env w)
  tried : ∀ row ∈ batch, ∃ attempt, tried env w row = .ok attempt
  candidates : ∀ row ∈ staleRows env w,
    row.key ∉ (batch.filterMap (transientOf env w)).map Mark.key → row.key ∈ change.candidates

/-- What is seen of the index at a key. -/
def slot (key : Key) (w : World) : Option Document × Option Mark :=
  (w.documents.find key, w.unreadable.find key)

theorem slot_recordEntry_other (w : World) (d : Document) (key : Key) (h : d.key ≠ key) :
    slot key (recordEntry env env.settings.notesFolder w d) = slot key w := by
  unfold recordEntry
  split
  · unfold slot
    rw [upsertDocument_documents, upsertDocument_unreadable, if_neg (Ne.symm h),
      if_neg (Ne.symm h)]
  · rfl

theorem recordFailure_documents :
    (recordFailure env env.settings.notesFolder w m).documents = w.documents := by
  unfold recordFailure
  split <;> rfl

theorem slot_recordFailure_other (w : World) (m : Mark) (key : Key) (h : m.key ≠ key) :
    slot key (recordFailure env env.settings.notesFolder w m) = slot key w := by
  unfold slot
  rw [recordFailure_documents]
  unfold recordFailure
  split
  · rw [Table.find_upsert, if_neg h]
  · rfl

theorem beside_recordEntry (v : World) (d : Document) (h : Beside w v) :
    Beside w (recordEntry env env.settings.notesFolder v d) := by
  unfold Beside at h ⊢
  unfold recordEntry upsertDocument
  split
  · rw [h]
  · exact h

theorem beside_recordFailure (v : World) (m : Mark) (h : Beside w v) :
    Beside w (recordFailure env env.settings.notesFolder v m) := by
  unfold Beside at h ⊢
  unfold recordFailure
  split
  · rw [h]
  · exact h

theorem slot_entries {ds : List Document} {v : World} (h : ∀ d ∈ ds, d.key ≠ key) :
    slot key (ds.foldl (recordEntry env env.settings.notesFolder) v) = slot key v :=
  foldl_other slot_recordEntry_other h

theorem slot_failures {ms : List Mark} {v : World} (h : ∀ m ∈ ms, m.key ≠ key) :
    slot key (ms.foldl (recordFailure env env.settings.notesFolder) v) = slot key v :=
  foldl_other slot_recordFailure_other h

theorem failures_documents {ms : List Mark} {v : World} :
    (ms.foldl (recordFailure env env.settings.notesFolder) v).documents = v.documents := by
  induction ms generalizing v with
  | nil => rfl
  | cons m rest ih => exact ih.trans recordFailure_documents

theorem record_eq : record env env.settings.notesFolder w change =
    change.ready.foldl (recordEntry env env.settings.notesFolder)
      (change.failed.foldl (recordFailure env env.settings.notesFolder) (forgotten w change)) := rfl

theorem ready_keys (h : AtRest env w batch change) :
    (change.ready.map Document.key).Sublist (batch.map Stale.key) := by
  rw [h.ready]
  exact filterMap_keys fun row hrow d hd => (readyOf_spec (h.stale row hrow) hd).1

theorem failed_keys (h : AtRest env w batch change) :
    (change.failed.map Mark.key).Sublist (batch.map Stale.key) := by
  rw [h.failed]
  refine filterMap_keys fun row hrow m hm => ?_
  rcases failedOf_spec hm with ⟨f, rfl⟩
  rfl

/-- A row of the batch is the only one with its key. -/
theorem AtRest.eq_of_key (h : AtRest env w batch change) {row row' : Stale} (hrow : row ∈ batch)
    (hrow' : row' ∈ batch) (hkey : row.key = row'.key) : row = row' :=
  List.inj_on_of_nodup_map h.keys hrow hrow' hkey

/-- **A row that was read** is in the index. -/
theorem record_ready (h : AtRest env w batch change) (hrow : row ∈ batch)
    (hready : readyOf env w row = some d) :
    (record env env.settings.notesFolder w change).documents.find row.key = some d.cut := by
  obtain ⟨hkey, -, haccepts, -⟩ := readyOf_spec (h.stale row hrow) hready
  have helig := eligible_of_staleAt (h.stale row hrow)
  have hmem : d ∈ change.ready := by
    rw [h.ready]
    exact List.mem_filterMap.2 ⟨row, hrow, hready⟩
  have hself := foldl_self (I := Beside w) (Q := fun o => o.1 = some d.cut)
    (@slot_recordEntry_other env) beside_recordEntry (h.keys.sublist (ready_keys h))
    (foldl_keeps (fun v m _ => beside_recordFailure v m) rfl : Beside w (change.failed.foldl
      (recordFailure env env.settings.notesFolder) (forgotten w change))) hmem
  rw [record_eq, ← hkey]
  refine hself fun v hv _ => ?_
  unfold slot recordEntry
  rw [hv.accepts, if_pos haccepts, upsertDocument_documents, if_pos rfl, hv.eligible, hkey,
    if_pos helig]

/-- Nothing else is written. -/
theorem record_documents_other (h : AtRest env w batch change)
    (hother : ∀ row ∈ batch, ∀ d, readyOf env w row = some d → row.key ≠ key) :
    (record env env.settings.notesFolder w change).documents.find key =
      w.documents.find key := by
  have hready : ∀ d ∈ change.ready, d.key ≠ key := by
    intro d hd
    rw [h.ready] at hd
    rcases List.mem_filterMap.1 hd with ⟨row, hrow, hready⟩
    rw [(readyOf_spec (h.stale row hrow) hready).1]
    exact hother row hrow d hready
  rw [record_eq]
  refine (congrArg Prod.fst (slot_entries hready)).trans ?_
  exact congrArg (Table.find · key) failures_documents

/-- No document is read of a row that failed. -/
theorem readyOf_of_failedOf (h : failedOf env w row = some m) : readyOf env w row = none := by
  unfold failedOf at h
  unfold readyOf
  split at h
  · next htried => rw [htried]
  · cases h

/-- **A row that failed** has a mark that says what was seen. -/
theorem record_failed (h : AtRest env w batch change) (hrow : row ∈ batch)
    (hfailed : failedOf env w row = some m) :
    ∃ m', (record env env.settings.notesFolder w change).unreadable.find row.key = some m' ∧
      m'.seen = m.seen := by
  obtain ⟨f, rfl⟩ := failedOf_spec hfailed
  obtain ⟨hmirrored, hindexed⟩ := mirrored_markOf (h.stale row hrow) f
  have hmem : markOf w row f ∈ change.failed := by
    rw [h.failed]
    exact List.mem_filterMap.2 ⟨row, hrow, hfailed⟩
  have hready : ∀ d ∈ change.ready, d.key ≠ row.key := by
    intro d hd heq
    rw [h.ready] at hd
    rcases List.mem_filterMap.1 hd with ⟨row', hrow', hready⟩
    rw [(readyOf_spec (h.stale row' hrow') hready).1] at heq
    obtain rfl := h.eq_of_key hrow' hrow heq
    rw [readyOf_of_failedOf hfailed] at hready
    cases hready
  have hself := foldl_self (I := Beside w)
    (Q := fun o => ∃ m', o.2 = some m' ∧ m'.seen = (markOf w row f).seen)
    (@slot_recordFailure_other env) beside_recordFailure (h.keys.sublist (failed_keys h))
    (rfl : Beside w (forgotten w change)) hmem
  have hslot := hself fun v hv hseen => by
    have hdocs : v.documents.find row.key = w.documents.find row.key := congrArg Prod.fst hseen
    have hunindexed : indexed v (markOf w row f) = false := by
      unfold indexed at hindexed ⊢
      rw [markOf_key] at hindexed ⊢
      rw [hdocs]
      exact hindexed
    unfold slot recordFailure
    rw [hv.mirrored, hmirrored, hunindexed]
    cases hold : v.unreadable.find (markOf w row f).key with
    | none =>
      refine ⟨markOf w row f, ?_, rfl⟩
      simp
    | some old =>
      by_cases hsame : old.seen = (markOf w row f).seen
      · refine ⟨old, ?_, hsame⟩
        simp [hsame, hold]
      · refine ⟨markOf w row f, ?_, rfl⟩
        simp [hsame]
  obtain ⟨m', hm', hseen⟩ := hslot
  refine ⟨m', ?_, hseen⟩
  rw [record_eq]
  exact (congrArg Prod.snd (slot_entries hready)).trans hm'

/-- Other marks stay, but those of what is described. -/
theorem record_marks_other (h : AtRest env w batch change)
    (hother : ∀ row ∈ batch, row.key = key →
      readyOf env w row = none ∧ failedOf env w row = none) :
    (record env env.settings.notesFolder w change).unreadable.find key =
      (forgotten w change).unreadable.find key := by
  have hready : ∀ d ∈ change.ready, d.key ≠ key := by
    intro d hd heq
    rw [h.ready] at hd
    rcases List.mem_filterMap.1 hd with ⟨row, hrow, hready⟩
    rw [(readyOf_spec (h.stale row hrow) hready).1] at heq
    rw [(hother row hrow heq).1] at hready
    cases hready
  have hfailed : ∀ m ∈ change.failed, m.key ≠ key := by
    intro m hm heq
    rw [h.failed] at hm
    rcases List.mem_filterMap.1 hm with ⟨row, hrow, hfailed⟩
    obtain ⟨f, rfl⟩ := failedOf_spec hfailed
    rw [(hother row hrow heq).2] at hfailed
    cases hfailed
  rw [record_eq]
  exact congrArg Prod.snd ((slot_entries hready).trans (slot_failures hfailed))

theorem beside_record : Beside w (record env env.settings.notesFolder w change) := by
  rw [record_eq]
  exact foldl_keeps (fun v d _ => beside_recordEntry v d)
    (foldl_keeps (fun v m _ => beside_recordFailure v m) rfl)

/-- A mark is an older one or says what was seen of a row of the batch. -/
theorem record_marks (h : AtRest env w batch change)
    (hm : (record env env.settings.notesFolder w change).unreadable.find key = some m) :
    w.unreadable.find key = some m ∨ ∃ row ∈ batch, ∃ f, m = markOf w row f := by
  have hfailures : ∀ key m, (change.failed.foldl (recordFailure env env.settings.notesFolder)
      (forgotten w change)).unreadable.find key = some m →
        w.unreadable.find key = some m ∨ ∃ row ∈ batch, ∃ f, m = markOf w row f := by
    refine foldl_keeps (I := fun v : World => ∀ key m, v.unreadable.find key = some m →
      w.unreadable.find key = some m ∨ ∃ row ∈ batch, ∃ f, m = markOf w row f) ?_ ?_
    · intro v m' hm' hv key m hm
      unfold recordFailure at hm
      split at hm
      · rw [Table.find_upsert] at hm
        split at hm
        · obtain rfl := Option.some.inj hm
          rw [h.failed] at hm'
          rcases List.mem_filterMap.1 hm' with ⟨row, hrow, hfailed⟩
          exact Or.inr ⟨row, hrow, failedOf_spec hfailed⟩
        · exact hv key m hm
      · exact hv key m hm
    · intro key m hm
      unfold forgotten at hm
      rw [Table.find_delete] at hm
      exact Or.inl (Option.filter_eq_some_iff.1 hm).1
  rw [record_eq] at hm
  revert key m
  refine foldl_keeps (I := fun v : World => ∀ {key m}, v.unreadable.find key = some m →
    w.unreadable.find key = some m ∨ ∃ row ∈ batch, ∃ f, m = markOf w row f) ?_ (hfailures _ _)
  intro v d _ hv key m hm
  unfold recordEntry at hm
  split at hm
  · rw [upsertDocument_unreadable] at hm
    split at hm
    · cases hm
    · exact hv hm
  · exact hv hm

end Recording

end Coppermind.Search
