import Coppermind.Notes.Adoption

/-!
# One walk of the notes filesystem

`scanFile` is the body of the loop of `_scan`: what one walked file adds to the scan, given the
mirror the pass read and the stats earlier passes remembered.  `scan` collects what the files
of a walk add.  A walk is the list of its `Sighting`s, each with what its stat and its read
gave at the moment they were taken, so that nothing is assumed about a tree that changes while
it is walked.
-/

namespace Coppermind.Reconciler

open Coppermind.Lib Coppermind.Lib.Text Coppermind.Frontmatter Coppermind.Schema Coppermind.Notes

/-- What a file is, by its stat. -/
inductive FileKind where
  | regular | directory | other
deriving DecidableEq, Repr

/-- What reading a file's bytes gave. -/
inductive ReadResult where
  | bytes (data : FileBytes)
  /-- `FileNotFoundError`. -/
  | vanished
  /-- Any other `OSError`. -/
  | refused

/-- What resolving a path and taking its stat gave, and what a read would. -/
inductive Located where
  | found (kind : FileKind) (size : Nat) (mtime : Instant) (read : ReadResult)
  /-- `FileNotFoundError`. -/
  | vanished
  /-- A link out of the notes filesystem, a link loop, or any other `OSError`. -/
  | refused

/-- One file of a walk. -/
structure Sighting where
  path : RelPath
  /-- The name of the file the path resolves to. -/
  fileName : PyStr
  located : Located
  /-- The clock when the file's stat was taken. -/
  clock : Instant

/-- The stat of a file: its size and its mtime. -/
abbrev Stat := Nat × Instant

/-- `UnidentifiedStats`. -/
abbrev Memory := List (RelPath × Stat)

/-- `unidentified.get(relative)`. -/
def getStat (memory : Memory) (path : RelPath) : Option Stat :=
  (memory.find? (·.1 == path)).map (·.2)

def unidentifiedLimit : Nat := 10000

/-- `stats[relative] = stat_seen`. -/
def setStat (memory : Memory) (path : RelPath) (stat : Stat) : Memory :=
  if memory.any (·.1 == path) then
    memory.map fun entry => if entry.1 == path then (path, stat) else entry
  else memory ++ [(path, stat)]

/-- `_remember`. -/
def remember (memory : Memory) (path : RelPath) (stat : Stat) : Memory :=
  if memory.length < unidentifiedLimit then setStat memory path stat else memory

/-- `MirrorEntry`. -/
structure MirrorEntry where
  noteId : NoteId
  path : RelPath
  state : NoteState
  stateReason : Option PyStr
  sizeBytes : Nat
  mtime : Option Instant
deriving DecidableEq

def Row.entry (row : Row) : MirrorEntry :=
  { noteId := row.id, path := row.path, state := row.state, stateReason := row.stateReason
    sizeBytes := row.sizeBytes, mtime := row.mtime }

/-- `by_id`, in the order of the identifiers. -/
abbrev Index := List MirrorEntry

namespace Index

def knows (index : Index) (id : NoteId) : Bool := index.any (·.noteId == id)

def entry? (index : Index) (id : NoteId) : Option MirrorEntry := index.find? (·.noteId == id)

/-- The rows that claim a path: those that are neither missing nor deleted. -/
def occupants (index : Index) (path : RelPath) : List MirrorEntry :=
  index.filter fun entry => entry.state != .missing && entry.state != .deleted && entry.path == path

/-- `_by_path`: the row that claims a path, unless several do. -/
def byPath (index : Index) (path : RelPath) : Option MirrorEntry :=
  match index.occupants path with
  | [entry] => some entry
  | _ => none

end Index

def missingReason : PyStr := PyStr.lit "not observed during reconciliation"

def deletedReason : PyStr := PyStr.lit "removal recorded in Git; recovery copy retained"

def unparsedReason : PyStr := PyStr.lit "frontmatter could not be parsed"

def unreadableReason : PyStr := PyStr.lit "file could not be read"

/-- What an observed file says about its own state. -/
inductive ObservedState where
  /-- Read whole: its title, its frontmatter as JSON, and its body. -/
  | ok (title : PyStr) (frontmatter : Entries) (body : Text)
  | unparsed
  | unreadable

/-- `Observation`; an unreadable file has neither a hash nor a stat. -/
structure Observation where
  noteId : NoteId
  path : RelPath
  state : ObservedState
  contentHash : Option PyStr := none
  sizeBytes : Option Nat := none
  mtime : Option Instant := none
  pathDerived : Bool := false

/-- `AdoptionCandidate`. -/
structure Candidate where
  path : RelPath
  contentHash : PyStr
  statSeen : Stat

/-- `QuietWindow`. -/
structure QuietWindow where
  earliest : Instant
  tolerance : Instant

/-- `_CLOCK_SKEW_TOLERANCE`. -/
def clockSkewTolerance : Instant := 60 * 1000000

/-- `QuietWindow.holds`, at a reading of the clock. -/
def QuietWindow.holds (quiet : QuietWindow) (mtime clock : Instant) : Bool :=
  quiet.earliest < mtime && mtime ≤ clock + quiet.tolerance

/-- The product settings a pass reads, and the local clock it dates a note by. -/
structure Settings where
  excludedFolders : List Text
  excludedPatterns : List Text
  /-- `_unadoptable_folders`, as the components of each folder. -/
  unadoptable : List (List PyStr)

/-- What `reconcile_once` raises. -/
inductive Raised where
  | notesFilesystemUnavailable
  | metadataUnavailable
  /-- Any other exception, by its class. -/
  | python (className : String)
deriving DecidableEq

/-- `data.decode("utf-8")` and `fm.parse`, where a `FrontmatterError` and bytes that do not
decode count alike and leave no result. -/
def parseBytes (yaml : RoundTrip) (data : FileBytes) : Except Raised (Option (Entries × Text)) :=
  match data with
  | .other _ => .ok none
  | .utf8 text =>
    match parse yaml text with
    | .ok result => .ok (some result)
    | .error (.frontmatter _) => .ok none
    | .error (.python className) => .error (.python className)

def isQuote (c : Char) : Bool := c = '\'' || c = '"'

def isBlank (c : Char) : Bool := c = ' ' || c = '\t'

/-- The value of a line `key: value`, bare or quoted, with nothing else behind it. -/
def identityOfLine (key : Text) (line : Text) : Option Text :=
  if (key ++ [':']).isPrefixOf line then
    let rest := (line.drop (key.length + 1)).dropWhile isBlank
    let rest := if rest.head?.any isQuote then rest.tail else rest
    let value := rest.takeWhile fun c => !isQuote c && !isBlank c && !isCrLf c
    let rest := rest.drop value.length
    let rest := if rest.head?.any isQuote then rest.tail else rest
    if value ≠ [] ∧ rest.all isBlank then some value else none
  else none

/-- `_identity_from_broken`. -/
def identityFromBroken (text : Text) (schema : FrontmatterSchema) : Option NoteId :=
  if ['-', '-', '-'].isPrefixOf text then
    let block := (bareLines text).tail.takeWhile (· ≠ ['-', '-', '-'])
    match block.filterMap (identityOfLine schema.roles.idKey) with
    | [id] => some (PyStr.ofText id)
    | _ => none
  else none

/-- `_IGNORED_DIRECTORIES`. -/
def ignoredDirectories : List PyStr := [PyStr.lit ".git", PyStr.lit ".obsidian", PyStr.lit ".trash"]

def isIgnored (path : RelPath) : Bool := (PyStr.parts path).any (· ∈ ignoredDirectories)

/-- `folder.rstrip("/")`. -/
def rstripSlash (folder : Text) : Text := folder.rdropWhile (· = '/')

def folderRule (path : RelPath) (folder : Text) : Option PyStr :=
  let folder := PyStr.ofText (rstripSlash folder)
  let components := PyStr.parts folder
  if components.isPrefixOf (PyStr.parts path) then
    some (PyStr.lit "folder: " ++ folder ++ PyStr.lit "/")
  else none

def patternRule (path : RelPath) (pattern : Text) : Option PyStr :=
  let target := if '/' ∈ pattern then path else PyStr.name path
  if PyStr.fnmatchcase target (PyStr.ofText pattern) then
    some (PyStr.lit "pattern: " ++ PyStr.ofText pattern)
  else none

/-- `_path_exclusion`. -/
def pathExclusion (settings : Settings) (path : RelPath) : Option PyStr :=
  match settings.excludedFolders.findSome? (folderRule path) with
  | some rule => some rule
  | none => settings.excludedPatterns.findSome? (patternRule path)

/-- `_frontmatter_exclusion`, of a file already parsed. -/
def frontmatterExclusion (parsed : Option (Entries × Text)) : Option PyStr :=
  match parsed with
  | none => none
  | some (frontmatter, _) =>
    (["excalidraw-plugin", "kanban-plugin"].find? fun marker => frontmatter.has marker.toList).map
      fun marker => PyStr.lit "frontmatter: " ++ PyStr.lit marker

/-- `_unchanged`. -/
def unchanged (entry : MirrorEntry) (size : Nat) (mtime : Instant) : Bool :=
  entry.stateReason != some unreadableReason && entry.sizeBytes == size &&
    entry.mtime == some mtime

/-- `_unreadable`. -/
def unreadable (entry : Option MirrorEntry) (path : RelPath) : Option Observation :=
  entry.map fun entry =>
    { noteId := entry.noteId, path, state := .unreadable, pathDerived := true }

/-- What `_observe` makes of a file's bytes. -/
inductive Observed where
  | observation (o : Observation)
  | candidate (c : Candidate)
  /-- Broken bytes that name no known note, at a path no row claims. -/
  | unknown

section Scan

variable (lib : Libraries) (schema : FrontmatterSchema) (settings : Settings)

/-- An observation of a file that was read, other than `ok`. -/
def unparsedObservation (noteId : NoteId) (path : RelPath) (data : FileBytes) (mtime : Instant)
    (pathDerived : Bool) : Observation :=
  { noteId, path, state := .unparsed, contentHash := some (lib.hash data)
    sizeBytes := some data.length, mtime := some mtime, pathDerived }

/-- The identity broken bytes name. -/
def brokenIdentity (data : FileBytes) : Option NoteId :=
  match data with
  | .utf8 text => identityFromBroken text schema
  | .other _ => none

/-- `str(frontmatter.get(id_key, ""))`. -/
def carriedIdentity (frontmatter : Entries) : NoteId :=
  match frontmatter.get? schema.roles.idKey with
  | some value => strOf lib.py value
  | none => []

/-- `_observe`, of a file already parsed. -/
def observe (index : Index) (path : RelPath) (fileName : PyStr) (data : FileBytes)
    (parsed : Option (Entries × Text)) (mtime : Instant) (entry : Option MirrorEntry) : Observed :=
  match parsed with
  | none =>
    match brokenIdentity schema data with
    | some id =>
      if index.knows id then .observation (unparsedObservation lib id path data mtime false)
      else
        match entry with
        | some entry => .observation (unparsedObservation lib entry.noteId path data mtime true)
        | none => .unknown
    | none =>
      match entry with
      | some entry => .observation (unparsedObservation lib entry.noteId path data mtime true)
      | none => .unknown
  | some (frontmatter, body) =>
    let id := carriedIdentity lib schema frontmatter
    if index.knows id then
      .observation
        { noteId := id, path
          state := .ok (titleOf body fileName) (jsonableEntries lib.py frontmatter []) body
          contentHash := some (lib.hash data), sizeBytes := some data.length, mtime := some mtime }
    else
      match entry with
      | some entry => .observation (unparsedObservation lib entry.noteId path data mtime true)
      | none => .candidate ⟨path, lib.hash data, (data.length, mtime)⟩

/-- What one walked file adds to a scan. -/
structure Finding where
  observation : Option Observation := none
  /-- The identity its stat vouches for. -/
  trusted : Option NoteId := none
  held : Option NoteId := none
  deferred : Bool := false
  unparsed : Bool := false
  /-- The stat to keep for a file that named no known note. -/
  remembered : Option Stat := none
  candidate : Option Candidate := none
  exclusion : Option PyStr := none

/-- What a pass looks files up in. -/
structure Known where
  full : Bool
  quiet : Option QuietWindow
  index : Index
  memory : Memory

/-- A file the scan could see and not open: it holds the row that names its path. -/
def unopened (entry : Option MirrorEntry) (path : RelPath) (unparsed : Bool) : Finding :=
  { observation := unreadable entry path, deferred := entry.isNone
    unparsed := entry.isNone && unparsed }

/-- `path.suffix == ".md"`. -/
def isMarkdown (path : RelPath) : Bool := PyStr.suffix (PyStr.name path) == PyStr.lit ".md"

/-- The folders adoption leaves alone. -/
def isUnadoptable (path : RelPath) : Bool :=
  let parts := PyStr.parts path
  lib.py.casefold (parts.headD []) ∈ [PyStr.lit "people", PyStr.lit "companies"] ||
    settings.unadoptable.any fun folder => folder.isPrefixOf parts

/-- The end of the loop of `_scan`, for a file whose bytes were read. -/
def findingOf (known : Known) (sighting : Sighting) (size : Nat) (mtime : Instant)
    (data : FileBytes) (parsed : Option (Entries × Text)) : Finding :=
  let path := sighting.path
  let settling := known.quiet.any (·.holds mtime sighting.clock)
  match observe lib schema known.index path sighting.fileName data parsed mtime
      (known.index.byPath path) with
  | .observation o => { observation := some o }
  | result =>
    match (pathExclusion settings path).orElse fun _ => frontmatterExclusion parsed with
    | some rule => { exclusion := some rule, deferred := settling }
    | none =>
      if !isMarkdown path then {}
      else
        match result with
        | .candidate c =>
          if settling then { deferred := true }
          else if isUnadoptable lib settings path then { remembered := some (size, mtime) }
          else { candidate := some c }
        | _ =>
          if settling then { deferred := true }
          else { unparsed := true, remembered := some (size, mtime) }

/-- What the scan makes of a file before its bytes are parsed. -/
inductive Opened where
  | decided (finding : Finding)
  | read (size : Nat) (mtime : Instant) (data : FileBytes)

/-- The loop of `_scan` up to the read of the file's bytes. -/
def openFile (known : Known) (sighting : Sighting) : Opened :=
  let path := sighting.path
  let entry := known.index.byPath path
  let rule := pathExclusion settings path
  let markdown := isMarkdown path
  if isIgnored path then .decided {}
  else if !markdown && PyStr.suffix (PyStr.name path) != PyStr.lit ".canvas" && rule.isNone &&
      entry.isNone then
    .decided {}
  else
    match sighting.located with
    | .vanished => .decided { deferred := true, held := entry.map (·.noteId) }
    | .refused => .decided (unopened entry path false)
    | .found kind size mtime read =>
      let settling := known.quiet.any (·.holds mtime sighting.clock)
      if kind = .directory ∧ !markdown ∧ entry.isNone then .decided {}
      else if !known.full && entry.any (unchanged · size mtime) then
        .decided { trusted := entry.map (·.noteId), held := entry.map (·.noteId) }
      else if !known.full && entry.isNone && rule.isNone &&
          getStat known.memory path == some (size, mtime) then
        .decided { remembered := some (size, mtime), deferred := settling }
      else if kind ≠ .regular then .decided (unopened entry path true)
      else if entry.isSome && settling then
        .decided { held := entry.map (·.noteId), deferred := true }
      else
        match read with
        | .vanished => .decided { deferred := true, held := entry.map (·.noteId) }
        | .refused => .decided (unopened entry path !settling)
        | .bytes data => .read size mtime data

/-- The body of the loop of `_scan`. -/
def scanFile (known : Known) (sighting : Sighting) : Except Raised Finding :=
  match openFile settings known sighting with
  | .decided finding => .ok finding
  | .read size mtime data => do
    let parsed ← parseBytes lib.yaml data
    return findingOf lib schema settings known sighting size mtime data parsed

/-- `ScanResult`. -/
structure ScanResult where
  findings : List (RelPath × Finding)

namespace ScanResult

variable (scan : ScanResult)

/-- Every observation, in the order of the walk; those of an identity are `observed[id]`. -/
def observations : List Observation := scan.findings.filterMap (·.2.observation)

def observed (id : NoteId) : List Observation := scan.observations.filter (·.noteId == id)

/-- The identities a file was found for. -/
def seen (id : NoteId) : Bool :=
  scan.findings.any fun f => f.2.trusted == some id || f.2.observation.any (·.noteId == id)

def held (id : NoteId) : Bool := scan.findings.any fun f => f.2.held == some id

def deferred : Nat := scan.findings.countP (·.2.deferred)

def unidentifiedUnparsed : Nat := scan.findings.countP (·.2.unparsed)

/-- The stats kept, up to the limit. -/
def unidentified : Memory :=
  scan.findings.foldl (fun memory f =>
    match f.2.remembered with
    | some stat => remember memory f.1 stat
    | none => memory) []

def candidates : List Candidate := scan.findings.filterMap (·.2.candidate)

def exclusions : List (RelPath × PyStr) :=
  scan.findings.filterMap fun f => f.2.exclusion.map (f.1, ·)

end ScanResult

/-- `_scan`, over the files a walk yields. -/
def scan (known : Known) (walk : List Sighting) : Except Raised ScanResult := do
  let findings ← walk.mapM fun sighting => do
    let finding ← scanFile lib schema settings known sighting
    return (sighting.path, finding)
  return ⟨findings⟩

end Scan

end Coppermind.Reconciler
