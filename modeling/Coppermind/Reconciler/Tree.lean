import Coppermind.Reconciler.Pass

/-!
# Passes over a tree at rest

A tree of readable files that nobody but the store writes to: what a pass over it meets is
decided by the files, by what does not change from pass to pass (`Surroundings`), and by what
each pass brings (`Turn`).  `Tree.rewrite` is what the adoptions of a pass leave of it.
-/

namespace Coppermind.Reconciler

open Coppermind.Lib Coppermind.Lib.Text Coppermind.Frontmatter Coppermind.Schema Coppermind.Notes

/-- A readable file. -/
structure File where
  path : RelPath
  /-- The name of the file the path resolves to. -/
  fileName : PyStr
  data : FileBytes
  mtime : Instant

abbrev Tree := List File

/-- What stays as it is from pass to pass. -/
structure Surroundings where
  lib : Libraries
  db : Database
  schema : FrontmatterSchema
  settings : Settings
  purging : List NoteId
  history : History
  filing : NoteId → Filing
  manifests : PyStr → SourceManifest

/-- What one pass brings. -/
structure Turn where
  full : Bool
  quietPeriod : Instant
  scanStarted : Instant
  /-- The clock once the files have been walked and adopted. -/
  now : Instant
  localNow : DateTime
  /-- The identifier drawn for a file. -/
  newId : RelPath → Text
  /-- The mtime of the files the pass writes. -/
  writtenAt : Instant

/-- A file as a walk meets it. -/
def File.sighting (file : File) (clock : Instant) : Sighting :=
  { path := file.path, fileName := file.fileName, clock
    located := .found .regular file.data.length file.mtime (.bytes file.data) }

namespace Tree

def file? (tree : Tree) (path : RelPath) : Option File := tree.find? (·.path == path)

/-- The file at a path with a new text. -/
def replace (tree : Tree) (path : RelPath) (text : Text) (mtime : Instant) : Tree :=
  tree.map fun file => if file.path == path then { file with data := .utf8 text, mtime } else file

/-- The tree once files have been replaced, one after the other. -/
def rewrite (tree : Tree) (written : List (RelPath × Text)) (mtime : Instant) : Tree :=
  written.foldl (fun tree w => tree.replace w.1 w.2 mtime) tree

end Tree

namespace Surroundings

variable (world : Surroundings)

/-- What `adopt_note` meets at a file nobody else touches. -/
def adoptionMoment (turn : Turn) (file : File) : AdoptionMoment where
  outside := false
  fileName := file.fileName
  current := .bytes file.data
  newId := turn.newId file.path
  latest := .bytes file.data
  stageFails := false
  commitFails := none
  mtime :=
    match planAdoption world.lib world.schema turn.localNow (turn.newId file.path) file.data with
    | .ok adoption => some (if .utf8 adoption.text = file.data then file.mtime else turn.writtenAt)
    | .error _ => some file.mtime
  now := turn.now

/-- What `adopt_note` meets where no file is. -/
def absentMoment (turn : Turn) : AdoptionMoment where
  outside := false
  fileName := []
  current := .vanished
  newId := []
  latest := .vanished
  stageFails := false
  commitFails := none
  mtime := none
  now := turn.now

/-- The pass of a turn over a tree. -/
def pass (turn : Turn) (tree : Tree) : Pass where
  full := turn.full
  quietPeriod := turn.quietPeriod
  scanStarted := turn.scanStarted
  now := turn.now
  purging := world.purging
  walk := some (tree.map (·.sighting turn.scanStarted))
  adoptions := fun candidate =>
    match tree.file? candidate.path with
    | some file => world.adoptionMoment turn file
    | none => absentMoment turn
  history := world.history
  filing := world.filing
  manifests := world.manifests
  localNow := turn.localNow

/-- What a turn over a tree leaves of the store, whether its pass returns or raises. -/
def after (turn : Turn) (s : State) (tree : Tree) : State :=
  finalState (reconcileOnce world.lib world.db world.schema world.settings (world.pass turn tree)
    { s with written := [] })

end Surroundings

end Coppermind.Reconciler
