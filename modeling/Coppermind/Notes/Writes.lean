import Coppermind.Notes.Adoption

/-!
# What the writes of a note put into its row

`replace_note`, `patch_frontmatter`, `move_note` and `rename_note` each issue one update of the
note's row before they change its file.
-/

namespace Coppermind.Notes

open Coppermind.Lib Coppermind.Lib.Text Coppermind.Frontmatter Coppermind.Schema

/-- The four writes of an existing note. -/
inductive Operation where
  | replaceNote | patchFrontmatter | moveNote | renameNote
deriving DecidableEq, Repr

/-- The file of a note. -/
structure NoteFile where
  path : RelPath
  data : FileBytes
  mtime : Instant
deriving DecidableEq

/-- What a write was decided to do, once its request and the current file are known. -/
structure Write where
  operation : Operation
  /-- Where a move or a rename puts the file. -/
  newPath : RelPath
  /-- The bytes of the file afterwards; a move keeps those it finds. -/
  data : FileBytes
  title : PyStr
  frontmatter : Entries

namespace Write

variable (w : Write)

/-- The write sets the row's path. -/
def moves : Bool := w.operation == .moveNote || w.operation == .renameNote

def pathAfter (file : NoteFile) : RelPath := if w.moves then w.newPath else file.path

def dataAfter (file : NoteFile) : FileBytes :=
  if w.operation = .moveNote then file.data else w.data

/-- The file as the write leaves it: a patch that changes no byte writes nothing. -/
def fileAfter (file : NoteFile) (now : Instant) : NoteFile :=
  { path := w.pathAfter file, data := w.dataAfter file
    mtime :=
      if w.operation = .moveNote ∨ (w.operation = .patchFrontmatter ∧ w.data = file.data) then
        file.mtime
      else now }

/-- The mtime a write records. -/
def recordedMtime (file : NoteFile) (now : Instant) : Instant := (w.fileAfter file now).mtime

section Row

variable (lib : Libraries) (schema : FrontmatterSchema)

/-- The values every write sets. -/
def noteValues (file : NoteFile) (now : Instant) : Values :=
  [⟨.title, some w.title⟩, ⟨.contentHash, lib.hash (w.dataAfter file)⟩,
    ⟨.sizeBytes, (w.dataAfter file).length⟩, ⟨.mtime, some (w.recordedMtime file now)⟩,
    ⟨.frontmatter, jsonableEntries lib.py w.frontmatter []⟩] ++
    mirrorColumns lib.py schema w.frontmatter ++ [⟨.state, .ok⟩, ⟨.stateReason, none⟩]

/-- The values of the write's update. -/
def values (file : NoteFile) (now : Instant) : Values :=
  if w.moves then ⟨.path, w.newPath⟩ :: w.noteValues lib schema file now
  else w.noteValues lib schema file now

/-- The row as the write's update leaves it. -/
def rowAfter (file : NoteFile) (now : Instant) (row : Row) : Row :=
  (w.values lib schema file now).apply now row

end Row

end Write

section Columns

variable {lib : Libraries} {schema : FrontmatterSchema}

theorem noteValues_nodup (w : Write) (file : NoteFile) (now : Instant) :
    ((w.values lib schema file now).map (·.1)).Nodup := by
  unfold Write.values Write.noteValues
  rcases mirrorColumns_columns lib.py schema w.frontmatter with h | h <;>
    by_cases hm : w.moves = true <;>
    simp [hm, h]

/-- A write records the path its file has afterwards. -/
theorem rowAfter_path (w : Write) (file : NoteFile) (now : Instant) {row : Row}
    (hrow : row.path = file.path) : (w.rowAfter lib schema file now row).path = w.pathAfter file := by
  unfold Write.rowAfter Write.pathAfter Row.path
  by_cases hm : w.moves = true
  · have hmem : ⟨.path, w.newPath⟩ ∈ w.values lib schema file now := by simp [Write.values, hm]
    rw [apply_cells_of_mem (noteValues_nodup w file now) hmem, if_pos hm]
  · have hkeep : (w.values lib schema file now).mentions .path = false := by
      rcases mirrorColumns_columns lib.py schema w.frontmatter with h | h <;>
        simp [Write.values, Write.noteValues, hm, mentions_eq, h]
    rw [apply_cells_of_not_mentioned hkeep, if_neg hm]
    exact hrow

/-- A write records the hash its file has afterwards. -/
theorem rowAfter_contentHash (w : Write) (file : NoteFile) (now : Instant) (row : Row) :
    (w.rowAfter lib schema file now row).contentHash = lib.hash (w.dataAfter file) := by
  refine apply_cells_of_mem (c := .contentHash) (noteValues_nodup w file now) ?_ now row
  by_cases hm : w.moves = true <;> simp [Write.values, Write.noteValues, hm]

end Columns

end Coppermind.Notes
