import Coppermind.Lib.Assoc
import Coppermind.Lib.Effect
import Coppermind.Naming

/-!
# What holds an artifact

The archive keeps a manifest and one directory of bytes for each revision; the notes
filesystem keeps the browsable copy; the state directory keeps the record; the mirror keeps
the row.  Each file system step of an operation is named by a `Site`, and an operation runs
under an optional fault: the one step of it that raises an `OSError`, or the one database
step that fails.
-/

namespace Coppermind.Artifacts

open Coppermind.Lib Coppermind.Lib.Text Coppermind.Naming

abbrev Bytes := List UInt8

/-- An identifier: 26 characters of Crockford base32. -/
abbrev Id := Text

/-- A moment, in microseconds. -/
abbrev Instant := Int

/-- `is_valid_id`; the `$` of its pattern also matches before a final line feed. -/
def isValidId (id : Id) : Bool :=
  let id := if id.getLast? = some lf then id.dropLast else id
  id.length == 26 && id.all (· ∈ "0123456789ABCDEFGHJKMNPQRSTVWXYZ".toList) &&
    (id.head?.any (· ∈ "01234567".toList))

inductive TextStatus where
  | extracted | noExtractableText | unsupported | failed | link
deriving DecidableEq, Repr

inductive ArtifactState where
  | ok | modified | missing
deriving DecidableEq, Repr

/-- A path relative to the notes root: its folder and its last component. -/
structure NotePath where
  folder : Text
  name : Text
deriving DecidableEq, Repr

/-- What the notes filesystem holds at a path. -/
inductive Entry where
  | file (data : Bytes) (mtimeNs : Nat)
  | directory
deriving DecidableEq, Repr

/-- One entry of `revisions` in a manifest. -/
structure Revision where
  revision : Nat
  storedAt : Instant
  filename : Option Text
  mimeType : Option Text
  sha256 : Option Text
  sizeBytes : Nat
  url : Option Text
deriving DecidableEq, Repr

/-- `manifest.json`. -/
structure Manifest where
  artifactId : Id
  title : Text
  origin : Text
  receivedAt : Instant
  tags : List Text
  url : Option Text
  /-- `source_id` and `source_name`. -/
  source : Option (Text × Text)
  path : Option NotePath
  currentRevision : Nat
  revisions : List Revision
  createdAt : Instant
  removedAt : Option Instant
  removedReason : Option Text
  removalCommit : Option Text
deriving DecidableEq, Repr

abbrev RevisionDir := AList fun _ : Text => Bytes

/-- `artifacts/<id>/`: the manifest and the `rNNNN` directories. -/
structure Archive where
  manifest : Option Manifest
  dirs : AList fun _ : Nat => RevisionDir

def Archive.empty : Archive := ⟨none, ∅⟩

/-- `state/artifacts/<id>.json`. -/
structure Record where
  id : Id
  title : Text
  origin : Text
  receivedAt : Instant
  filename : Option Text
  mimeType : Option Text
  sha256 : Option Text
  sizeBytes : Nat
  url : Option Text
  tags : List Text
  path : Option NotePath
  revision : Nat
  source : Option (Text × Text)
  text : Text
  textStatus : TextStatus
  extractorVersion : Text
  extractedAt : Instant
  browse : Option (Nat × Nat)
  state : ArtifactState
  createdAt : Instant
  updatedAt : Instant
deriving DecidableEq, Repr

/-- A row of the mirror; its key is the artifact's identifier. -/
structure Row where
  title : Text
  origin : Text
  receivedAt : Instant
  filename : Option Text
  mimeType : Option Text
  sha256 : Option Text
  sizeBytes : Nat
  url : Option Text
  tags : List Text
  path : Option NotePath
  currentRevision : Nat
  source : Option (Text × Text)
  textStatus : TextStatus
  extractorVersion : Text
  state : ArtifactState
  createdAt : Instant
  updatedAt : Instant
deriving DecidableEq, Repr

structure Store where
  archives : AList fun _ : Id => Archive
  notes : AList fun _ : NotePath => Entry
  records : AList fun _ : Id => Record
  rows : AList fun _ : Id => Row

def Store.empty : Store := ⟨∅, ∅, ∅, ∅⟩

/-- What the operations take from the settings, the clock's zone and other code. -/
structure Env where
  unicode : Unicode
  /-- `hashlib.sha256(data).hexdigest()`. -/
  sha256 : Bytes → Text
  mediaType : Text → Option Text → Bytes → Text
  /-- `extract`, on the bytes at the path it is given. -/
  extract : Option Bytes → Text → Text × TextStatus
  extractorVersion : Text
  artifactsFolder : Text
  artifactMaxBytes : Nat
  /-- `{yyyy}` and `{yyyy-mm}` of an instant in the operator's zone. -/
  localMonth : Instant → Text × Text

/-- What one call draws from the outside: the clock, the stamp its files get, and the
identifier `new_id` would give it. -/
structure Draw where
  now : Instant
  mtimeNs : Nat
  newId : Id

section Faults

/-- The steps of `atomic_write_bytes`; a failure of the first two leaves the old file. -/
inductive AtomicStep where
  | staging | replacing | syncing
deriving DecidableEq, Repr

/-- The steps of `create_exclusive_bytes`; a failure of either leaves no file. -/
inductive ExclusiveStep where
  | opening | writing
deriving DecidableEq, Repr

/-- The steps at which an operation can fail for a reason outside the store. -/
inductive Site where
  | connect
  | readManifest
  | readRecord
  | listFolder
  | revisionDirectory
  | revisionFile (step : ExclusiveStep)
  | readBrowse
  | browseCopy (step : ExclusiveStep)
  | browseCopyAgain (step : ExclusiveStep)
  | browseReplace (step : AtomicStep)
  | unlinkBrowse
  | syncBrowse
  | newManifest (step : ExclusiveStep)
  | manifest (step : AtomicStep)
  | record (step : AtomicStep)
  | unlinkRecord
  | mirror
  | commit
deriving DecidableEq, Repr

abbrev Fault := Option Site

inductive Raised where
  | osError
  | fileExists
  | database
  | artifactMissing (id : Id)
  | artifactsFilesystemUnavailable (reason : Option String)
  | notesFilesystemUnavailable
  | metadataUnavailable
  | payloadTooLarge (limit : Nat)
  | valueError (reason : String)
deriving DecidableEq, Repr

/-- `except OSError as exc: raise ArtifactsFilesystemUnavailable(str(exc))`. -/
def Raised.inArchive : Raised → Raised
  | .osError => .artifactsFilesystemUnavailable none
  | .fileExists => .artifactsFilesystemUnavailable none
  | e => e

/-- `except OSError as exc: raise NotesFilesystemUnavailable(str(exc))`. -/
def Raised.inNotes : Raised → Raised
  | .osError => .notesFilesystemUnavailable
  | .fileExists => .notesFilesystemUnavailable
  | e => e

/-- `_metadata_failure`: what reaches a transaction untyped is the database. -/
def Raised.inMetadata : Raised → Raised
  | .osError => .metadataUnavailable
  | .fileExists => .metadataUnavailable
  | .database => .metadataUnavailable
  | e => e

end Faults

/-- An operation of the store. -/
abbrev Op := EStateM Raised Store

/-- The step `site` raises an `OSError` under this fault. -/
def step (fault : Fault) (site : Site) (e : Raised) : Op Unit :=
  raiseIf (fault = some site) e

namespace Store

def manifest? (s : Store) (id : Id) : Option Manifest :=
  (s.archives.lookup id).bind (·.manifest)

def archive (s : Store) (id : Id) : Archive :=
  (s.archives.lookup id).getD Archive.empty

def setArchive (s : Store) (id : Id) (a : Archive) : Store :=
  { s with archives := s.archives.insert id a }

def setNote (s : Store) (path : NotePath) (e : Entry) : Store :=
  { s with notes := s.notes.insert path e }

def dropNote (s : Store) (path : NotePath) : Store :=
  { s with notes := s.notes.erase path }

def setRecord (s : Store) (id : Id) (r : Record) : Store :=
  { s with records := s.records.insert id r }

def dropRecord (s : Store) (id : Id) : Store :=
  { s with records := s.records.erase id }

def setRow (s : Store) (id : Id) (r : Row) : Store :=
  { s with rows := s.rows.insert id r }

def dropRow (s : Store) (id : Id) : Store :=
  { s with rows := s.rows.erase id }

/-- `shutil.rmtree(archive)` and the record with it. -/
def dropArtifact (s : Store) (id : Id) : Store :=
  { s with archives := s.archives.erase id, records := s.records.erase id }

/-- `_entries`: the names in a folder. -/
def entries (s : Store) (folder : Text) : List Text :=
  (s.notes.keys.filter (·.folder = folder)).map (·.name)

/-- The mirror as it was before the transaction. -/
def rollback (before after : Store) : Store :=
  { after with rows := before.rows }

end Store

section Names

variable (env : Env)

/-- `browse_folder`. -/
def browseFolder (receivedAt : Instant) : Text :=
  let (year, month) := env.localMonth receivedAt
  sanitizeFolder env.unicode env.artifactsFolder ++ '/' :: year ++ '/' :: month

/-- `artifact_filename`: the original filename, portable, with its extension kept. -/
def artifactFilename (filename : Text) : Text :=
  let (stem, extension) := splitExtension filename
  let extension := if extension = [] then [] else sanitizeStem env.unicode extension []
  let reserve := if extension = [] then 0 else extension.length + 1
  let safeStem :=
    (sanitizeStem env.unicode stem "artifact".toList).take (max (maxStemLength - reserve) 1)
  let safeStem := orElse (strip (safeStem.rdropWhile isDotOrSpace)) "artifact".toList
  if extension = [] then safeStem else safeStem ++ '.' :: extension

/-- The `n`-th variant of a filename: `stem (n).extension`. -/
def numberedFilename (filename : Text) (n : Nat) : Text :=
  let (stem, extension) := splitExtension filename
  let numbered := stem ++ " (".toList ++ (Nat.repr n).toList ++ ")".toList
  if extension = [] then numbered else numbered ++ '.' :: extension

/-- The loop of `unique_filename`, for `fuel` more variants. -/
def firstFree (lowered : List Text) (filename : Text) : Nat → Nat → Text
  | 0, n => numberedFilename filename n
  | fuel + 1, n =>
    let candidate := numberedFilename filename n
    if env.unicode.casefold candidate ∈ lowered then firstFree lowered filename fuel (n + 1)
    else candidate

/-- `unique_filename`: the filename, or its first variant free in the folder.  Among one
variant more than there are names taken, one is free. -/
def uniqueFilename (filename : Text) (taken : List Text) : Text :=
  let lowered := taken.map env.unicode.casefold
  if env.unicode.casefold filename ∈ lowered then
    firstFree env lowered filename taken.length 2
  else filename

end Names

end Coppermind.Artifacts
