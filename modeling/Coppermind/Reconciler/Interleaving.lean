import Coppermind.Reconciler.Pass
import Coppermind.Notes.Writes
import Coppermind.Lib.Run

/-!
# A pass and a write of the same note

The steps of one pass that concern a note interleaved with the steps of one write of it.  The
database is the row as last committed: an update issued and not committed holds the row's lock,
so the pass's update waits for the commit and then sees the committed row.

The pass's guard compares the moment the write took at its start with the moment the pass took
at its own.  `updateRow_keeps_write_iff` says when the row survives the pass's update.
-/

namespace Coppermind.Reconciler.Interleaving

open Coppermind.Lib Coppermind.Frontmatter Coppermind.Schema Coppermind.Notes

/-- What the pass and the write are given. -/
structure Config where
  lib : Libraries
  schema : FrontmatterSchema
  settings : Settings
  full : Bool
  quiet : Option QuietWindow
  memory : Memory
  /-- The other rows of the mirror. -/
  others : Index
  write : Write

/-- Where the write stands: it takes `now`, issues the row update, changes the file, commits. -/
inductive ApiStage where
  | waiting
  | stamped (now : Instant)
  | issued (now : Instant) (updated : Row)
  | written (now : Instant) (updated : Row)
  | committed (now : Instant)

/-- The write holds the row's lock. -/
def ApiStage.locks : ApiStage → Bool
  | .issued _ _ => true
  | .written _ _ => true
  | _ => false

/-- Where the pass stands: it takes `scan_started`, reads the mirror, reads the file, and later
selects the row and updates it. -/
inductive PassStage where
  | idle
  | started (scanStarted : Instant)
  | mirrored (scanStarted : Instant) (index : Index)
  | observed (scanStarted : Instant) (o : Observation)
  | selected (scanStarted : Instant) (o : Observation) (row : Row) (now : Instant)
  | done

structure System where
  clock : Instant
  /-- The row as last committed. -/
  row : Row
  file : NoteFile
  api : ApiStage
  pass : PassStage

inductive Action where
  | tick (later : Instant)
  | takeScanStarted | readMirror | readFile | selectRow | updateRow
  | takeNow | issueUpdate | changeFile | commit
deriving DecidableEq

section Steps

variable (cfg : Config)

/-- The note's file as a walk meets it. -/
def sightingOf (s : System) : Sighting :=
  { path := s.file.path, fileName := PyStr.name s.file.path, clock := s.clock
    located := .found .regular s.file.data.length s.file.mtime (.bytes s.file.data) }

/-- The observation the pass chooses for the note, when it reads the note's file now. -/
def observation? (s : System) (index : Index) : Option Observation :=
  let known : Known := { full := cfg.full, quiet := cfg.quiet, index, memory := cfg.memory }
  match scan cfg.lib cfg.schema cfg.settings known [sightingOf s] with
  | .ok scan => chosen scan index s.row.id
  | .error _ => none

/-- The row as the pass's update leaves it, for the row it selected. -/
def updatedRow (scanStarted : Instant) (o : Observation) (selected : Row) (now : Instant)
    (row : Row) : Row :=
  let values := valuesFor cfg.lib cfg.schema selected (some o)
  if values = [] ∨ scanStarted < row.updatedAt then row else values.apply now row

def step (s : System) : Action → Option System
  | .tick later => if s.clock ≤ later then some { s with clock := later } else none
  | .takeScanStarted =>
    match s.pass with
    | .idle => some { s with pass := .started s.clock }
    | _ => none
  | .readMirror =>
    match s.pass with
    | .started scanStarted =>
      some { s with pass := .mirrored scanStarted (Row.entry s.row :: cfg.others) }
    | _ => none
  | .readFile =>
    match s.pass with
    | .mirrored scanStarted index =>
      (observation? cfg s index).map fun o => { s with pass := .observed scanStarted o }
    | _ => none
  | .selectRow =>
    match s.pass with
    | .observed scanStarted o => some { s with pass := .selected scanStarted o s.row s.clock }
    | _ => none
  | .updateRow =>
    match s.pass with
    | .selected scanStarted o selected now =>
      if s.api.locks || !(valuesFor cfg.lib cfg.schema selected (some o)).admitted then none
      else some { s with row := updatedRow cfg scanStarted o selected now s.row, pass := .done }
    | _ => none
  | .takeNow =>
    match s.api with
    | .waiting => some { s with api := .stamped s.clock }
    | _ => none
  | .issueUpdate =>
    match s.api with
    | .stamped now =>
      some { s with api := .issued now (cfg.write.rowAfter cfg.lib cfg.schema s.file now s.row) }
    | _ => none
  | .changeFile =>
    match s.api with
    | .issued now updated =>
      some { s with api := .written now updated, file := cfg.write.fileAfter s.file now }
    | _ => none
  | .commit =>
    match s.api with
    | .written now updated => some { s with api := .committed now, row := updated }
    | _ => none

/-- The pass's update takes nothing of the write back: the write took its `now` after the pass
took `scan_started`, or what the pass read of the path and of the hash is what the row says, or
what it said when the pass selected it. -/
def harmless (s : System) : Bool :=
  match s.api, s.pass with
  | .committed now, .selected scanStarted o selected _ =>
    scanStarted < now ||
      (observedValues cfg.lib cfg.schema o).all fun v =>
        !(v.1 == .path || v.1 == .contentHash) || v.1.same (s.row.cells v.1) v.2 ||
          v.1.same (selected.cells v.1) v.2
  | _, _ => true

/-- The row records the path and the hash of the note's file. -/
def Records (row : Row) (file : NoteFile) : Prop :=
  row.path = file.path ∧ row.contentHash = cfg.lib.hash file.data

/-- What the row and the file say of each other as the write goes on. -/
def WriteOf (s : System) : Prop :=
  match s.api with
  | .waiting => s.row.path = s.file.path
  | .stamped _ => s.row.path = s.file.path
  | .issued now updated =>
    updated.updatedAt = now ∧ Records cfg updated (cfg.write.fileAfter s.file now)
  | .written now updated => updated.updatedAt = now ∧ Records cfg updated s.file
  | .committed now => s.row.updatedAt = now ∧ Records cfg s.row s.file

end Steps

section Run

variable {cfg : Config} {s s' : System} {a : Action}

/-- Until the pass has updated the row, only the write changes it. -/
theorem step_writeOf (h : s.pass = .done ∨ WriteOf cfg s) (hstep : step cfg s a = some s') :
    s'.pass = .done ∨ WriteOf cfg s' := by
  cases a with
  | tick later =>
    simp only [step, Option.ite_none_right_eq_some, Option.some.injEq] at hstep
    rw [← hstep.2]
    exact h
  | takeScanStarted =>
    cases hp : s.pass <;> simp only [step, hp, reduceCtorEq, Option.some.injEq] at hstep
    rw [← hstep]
    exact Or.inr (h.resolve_left (by simp [hp]))
  | readMirror =>
    cases hp : s.pass <;> simp only [step, hp, reduceCtorEq, Option.some.injEq] at hstep
    rw [← hstep]
    exact Or.inr (h.resolve_left (by simp [hp]))
  | readFile =>
    cases hp : s.pass <;> simp only [step, hp, reduceCtorEq, Option.map_eq_some_iff] at hstep
    obtain ⟨o, -, rfl⟩ := hstep
    exact Or.inr (h.resolve_left (by simp [hp]))
  | selectRow =>
    cases hp : s.pass <;> simp only [step, hp, reduceCtorEq, Option.some.injEq] at hstep
    rw [← hstep]
    exact Or.inr (h.resolve_left (by simp [hp]))
  | updateRow =>
    cases hp : s.pass <;>
      simp only [step, hp, reduceCtorEq, Option.ite_none_left_eq_some, Option.some.injEq] at hstep
    exact Or.inl (by rw [← hstep.2])
  | takeNow =>
    cases ha : s.api <;> simp only [step, ha, reduceCtorEq, Option.some.injEq] at hstep
    rw [← hstep]
    refine h.imp id fun h => ?_
    simpa only [WriteOf, ha] using h
  | issueUpdate =>
    cases ha : s.api <;> simp only [step, ha, reduceCtorEq, Option.some.injEq] at hstep
    rw [← hstep]
    refine h.imp id fun h => ?_
    simp only [WriteOf, ha] at h
    exact ⟨rfl, rowAfter_path cfg.write s.file _ h, rowAfter_contentHash cfg.write s.file _ s.row⟩
  | changeFile =>
    cases ha : s.api <;> simp only [step, ha, reduceCtorEq, Option.some.injEq] at hstep
    rw [← hstep]
    refine h.imp id fun h => ?_
    simpa only [WriteOf, ha] using h
  | commit =>
    cases ha : s.api <;> simp only [step, ha, reduceCtorEq, Option.some.injEq] at hstep
    rw [← hstep]
    refine h.imp id fun h => ?_
    simpa only [WriteOf, ha] using h

/-- A write that has committed stays committed. -/
theorem step_committed (h : ∃ now, s.api = .committed now) (hstep : step cfg s a = some s') :
    ∃ now, s'.api = .committed now := by
  obtain ⟨now, h⟩ := h
  cases a <;> simp only [step, h, reduceCtorEq] at hstep
  case tick =>
    simp only [Option.ite_none_right_eq_some, Option.some.injEq] at hstep
    exact ⟨now, by rw [← hstep.2]⟩
  all_goals
    cases hp : s.pass <;>
      simp only [hp, reduceCtorEq, Option.map_eq_some_iff, Option.ite_none_left_eq_some,
        Option.some.injEq] at hstep
  case readFile =>
    obtain ⟨o, -, rfl⟩ := hstep
    exact ⟨now, rfl⟩
  case updateRow => exact ⟨now, by rw [← hstep.2]⟩
  all_goals exact ⟨now, by rw [← hstep]⟩

/-- A column keeps its value across the pass's update if and only if what the pass read is that
value, or what the row said when the pass selected it. -/
theorem changing_apply_eq_iff {values : Values} (hnodup : (values.map (·.1)).Nodup) {c : Column}
    (hlaw : ∀ v w, c.same v w = true ↔ v = w) (selected row : Row) (now : Instant) :
    ((Values.changing selected values).apply now row).cells c = row.cells c ↔
      ∀ v, ⟨c, v⟩ ∈ values → v = row.cells c ∨ v = selected.cells c := by
  have hsub : (Values.changing selected values).map (·.1) |>.Nodup :=
    hnodup.sublist (List.filter_sublist.map _)
  constructor
  · intro h v hv
    by_cases hs : c.same (selected.cells c) v = true
    · exact Or.inr ((hlaw _ _).1 hs).symm
    · have hmem : ⟨c, v⟩ ∈ Values.changing selected values := by
        simp only [Values.changing, List.mem_filter]
        exact ⟨hv, by simpa using hs⟩
      rw [apply_cells_of_mem hsub hmem] at h
      exact Or.inl h
  · intro h
    by_cases hm : c ∈ (Values.changing selected values).map (·.1)
    · obtain ⟨⟨c, v⟩, hv, rfl⟩ := List.mem_map.1 hm
      rw [apply_cells_of_mem hsub hv]
      simp only [Values.changing, List.mem_filter, Bool.not_eq_true'] at hv
      refine (h v hv.1).resolve_right fun hv' => ?_
      have hsame := (hlaw _ _).2 hv'.symm
      rw [hv.2] at hsame
      cases hsame
    · exact apply_cells_of_not_mentioned (by rw [mentions_eq]; exact decide_eq_false hm) now row

/-- Where the guard lets it through, the pass's update gives the row what it found changed. -/
theorem updatedRow_cells {scanStarted now : Instant} {o : Observation} {selected row : Row}
    (hguard : ¬scanStarted < row.updatedAt) :
    (updatedRow cfg scanStarted o selected now row).cells =
      ((Values.changing selected (observedValues cfg.lib cfg.schema o)).apply now row).cells := by
  unfold updatedRow
  simp only [hguard, or_false]
  split
  · next hnil =>
    have hnil : Values.changing selected (observedValues cfg.lib cfg.schema o) = [] := hnil
    rw [hnil]
    rfl
  · rfl

/-- The pass's update, where the write has committed before it. -/
theorem updateRow_records_iff {now : Instant} (hapi : s.api = .committed now)
    (hupdated : s.row.updatedAt = now) (hrecords : Records cfg s.row s.file)
    (hstep : step cfg s .updateRow = some s') :
    Records cfg s'.row s'.file ↔ harmless cfg s = true := by
  cases hp : s.pass <;>
    simp only [step, hp, reduceCtorEq, Option.ite_none_left_eq_some, Option.some.injEq] at hstep
  case selected scanStarted o selected passNow =>
    obtain ⟨-, rfl⟩ := hstep
    simp only [Records, Row.path, Row.contentHash] at hrecords ⊢
    rw [← hrecords.1, ← hrecords.2]
    simp only [harmless, hapi, hp, Bool.or_eq_true, decide_eq_true_eq]
    by_cases hguard : scanStarted < now
    · simp [updatedRow, hupdated, hguard]
    · have hnodup := observedValues_nodup cfg.lib cfg.schema o
      rw [updatedRow_cells (by rwa [hupdated]),
        changing_apply_eq_iff (c := .path) hnodup (fun v w => beq_iff_eq),
        changing_apply_eq_iff (c := .contentHash) hnodup (fun v w => beq_iff_eq)]
      simp only [hguard, false_or, List.all_eq_true, Bool.or_eq_true, Bool.not_eq_true',
        Bool.or_eq_false_iff, beq_eq_false_iff_ne]
      constructor
      · rintro ⟨hpath, hhash⟩ ⟨c, v⟩ hv
        by_cases hc : c = .path
        · subst hc
          rcases hpath v hv with h | h
          · exact Or.inl (Or.inr (beq_iff_eq.2 h.symm))
          · exact Or.inr (beq_iff_eq.2 h.symm)
        · by_cases hc' : c = .contentHash
          · subst hc'
            rcases hhash v hv with h | h
            · exact Or.inl (Or.inr (beq_iff_eq.2 h.symm))
            · exact Or.inr (beq_iff_eq.2 h.symm)
          · exact Or.inl (Or.inl ⟨hc, hc'⟩)
      · intro h
        refine ⟨fun v hv => ?_, fun v hv => ?_⟩
        · rcases h _ hv with (⟨hne, -⟩ | hsame) | hsame
          · exact absurd rfl hne
          · exact Or.inl (beq_iff_eq.1 hsame).symm
          · exact Or.inr (beq_iff_eq.1 hsame).symm
        · rcases h _ hv with (⟨-, hne⟩ | hsame) | hsame
          · exact absurd rfl hne
          · exact Or.inl (beq_iff_eq.1 hsame).symm
          · exact Or.inr (beq_iff_eq.1 hsame).symm

/-- **The row survives the pass's update** exactly where that update is `harmless`: in every
interleaving in which the pass read the file before the write changed it and updates the row
after the write committed, the row still records the path and the hash of the file written. -/
theorem updateRow_keeps_write_iff (before between middle after : List Action) {s₀ : System}
    (hapi : s₀.api = .waiting) (hpath : s₀.row.path = s₀.file.path)
    (hrun : exec (step cfg) s₀
      (before ++ .readFile :: (between ++ .changeFile :: (middle ++ .commit :: after))) = some s)
    (hupdate : step cfg s .updateRow = some s') :
    Records cfg s'.row s'.file ↔ harmless cfg s = true := by
  have hwrite : s.pass = .done ∨ WriteOf cfg s :=
    exec_invariant (P := fun s => s.pass = .done ∨ WriteOf cfg s) (fun _ _ _ => step_writeOf)
      (Or.inr (by simpa only [WriteOf, hapi] using hpath)) hrun
  have hwrite : WriteOf cfg s := by
    refine hwrite.resolve_left fun hdone => ?_
    simp [step, hdone] at hupdate
  obtain ⟨now, hcommitted⟩ : ∃ now, s.api = .committed now := by
    obtain ⟨s₁, -, h₁⟩ := exec_append_eq_some.1 hrun
    obtain ⟨s₂, -, h₂⟩ := exec_cons_eq_some.1 h₁
    obtain ⟨s₃, -, h₃⟩ := exec_append_eq_some.1 h₂
    obtain ⟨s₄, -, h₄⟩ := exec_cons_eq_some.1 h₃
    obtain ⟨s₅, -, h₅⟩ := exec_append_eq_some.1 h₄
    obtain ⟨s₆, hcommit, h₆⟩ := exec_cons_eq_some.1 h₅
    refine exec_invariant (P := fun s => ∃ now, s.api = .committed now)
      (fun _ _ _ => step_committed) ?_ h₆
    cases ha : s₅.api <;> simp only [step, ha, reduceCtorEq, Option.some.injEq] at hcommit
    exact ⟨_, by rw [← hcommit]⟩
  simp only [WriteOf, hcommitted] at hwrite
  exact updateRow_records_iff hcommitted hwrite.1 hwrite.2 hupdate

end Run

section Sample

def note (body : String) : FileBytes := .utf8 ("---\nid: N\n---\n" ++ body).toList

/-- `replace_note` gives the note a body. -/
def sampleWrite (body : String) : Write :=
  { operation := .replaceNote, newPath := [], data := note body, title := PyStr.lit "a"
    frontmatter := [(.str "id".toList, .str "N".toList)] }

def sampleConfig : Config where
  lib := plainLibraries
  schema := plainSchema
  settings := ⟨[], [], []⟩
  full := true
  quiet := none
  memory := []
  others := []
  write := sampleWrite "new"

def sampleFile : NoteFile := ⟨PyStr.lit "a.md", note "old", 0⟩

/-- The note at rest: its row records its file. -/
def sampleSystem : System where
  clock := 10
  row := newRow (PyStr.lit "N") (⟨.path, sampleFile.path⟩ ::
    (sampleWrite "old").values plainLibraries plainSchema sampleFile 0) 0 0
  file := sampleFile
  api := .waiting
  pass := .idle

/-- The write takes its `now` before the pass starts, and changes the file after the pass has
read it. -/
def lateWrite : List Action :=
  [.takeNow, .tick 20, .takeScanStarted, .readMirror, .readFile, .issueUpdate, .changeFile,
    .commit, .selectRow]

/-- The write takes its `now` after the pass started. -/
def newerWrite : List Action :=
  [.takeScanStarted, .tick 20, .readMirror, .readFile, .takeNow, .issueUpdate, .changeFile,
    .commit, .selectRow]

theorem exists_run (actions : List Action) (p : System → Bool)
    (h : (exec (step sampleConfig) sampleSystem actions).any p = true) :
    ∃ s, exec (step sampleConfig) sampleSystem actions = some s ∧ p s = true := by
  obtain ⟨s, hs⟩ := Option.isSome_iff_exists.1 (Option.isSome_of_any h)
  exact ⟨s, hs, by simpa [hs] using h⟩

theorem updateRow_keeps_write_iff_sample :
    ∃ s s', exec (step sampleConfig) sampleSystem newerWrite = some s ∧
      step sampleConfig s .updateRow = some s' ∧ Records sampleConfig s'.row s'.file := by
  obtain ⟨s, hs, h⟩ := exists_run newerWrite
    (fun s => harmless sampleConfig s && (step sampleConfig s .updateRow).isSome)
    (by decide +kernel)
  rw [Bool.and_eq_true] at h
  obtain ⟨s', hs'⟩ := Option.isSome_iff_exists.1 h.2
  refine ⟨s, s', hs, hs', ?_⟩
  exact (updateRow_keeps_write_iff [.takeScanStarted, .tick 20, .readMirror]
    [.takeNow, .issueUpdate] [] [.selectRow] rfl rfl hs hs').2 h.1

/-- The write has committed the new body; the pass's update puts the old one's hash back. -/
theorem newer_write_overwritten :
    ∃ s s', exec (step sampleConfig) sampleSystem lateWrite = some s ∧
      step sampleConfig s .updateRow = some s' ∧ Records sampleConfig s.row s.file ∧
      ¬Records sampleConfig s'.row s'.file := by
  obtain ⟨s, hs, h⟩ := exists_run lateWrite
    (fun s => s.row.path == s.file.path &&
      s.row.contentHash == sampleConfig.lib.hash s.file.data &&
      (step sampleConfig s .updateRow).any fun s' =>
        s'.row.contentHash != sampleConfig.lib.hash s'.file.data)
    (by decide +kernel)
  simp only [Bool.and_eq_true, beq_iff_eq] at h
  obtain ⟨s', hs'⟩ := Option.isSome_iff_exists.1 (Option.isSome_of_any h.2)
  refine ⟨s, s', hs, hs', h.1, fun hrecords => ?_⟩
  have hne := h.2
  rw [hs'] at hne
  simp [hrecords.2] at hne

end Sample

end Coppermind.Reconciler.Interleaving
