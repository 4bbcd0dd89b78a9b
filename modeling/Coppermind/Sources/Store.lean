import Coppermind.Notes.Adoption
import Coppermind.Lib.Effect

/-!
# What holds a source

A source has a claim file, which its provider and external identifier name, and a bundle with
its manifest and one directory of bytes for each revision; the notes tree holds its page and its
Review note, and the mirror its rows.  Each step of an ingest that can fail for a reason outside
the store is a `Site`; an ingest runs under the set of the sites that fail.
-/

namespace Coppermind.Sources

open Coppermind.Lib Coppermind.Lib.Text Coppermind.Frontmatter Coppermind.Schema
open Coppermind.Artifacts (Bytes NotePath RevisionDir AtomicStep)
open Coppermind.Notes (FileBytes Row NoteId RelPath Values Column Instant)

abbrev SourceId := Text

/-- One entry of `artifacts` in a revision. -/
structure ArtifactEntry where
  name : Text
  mimeType : Text
  sha256 : Text
  sizeBytes : Nat
deriving DecidableEq, Repr

/-- One entry of `revisions` in a manifest. -/
structure Revision where
  revision : Nat
  ingestedAt : Instant
  capturedAt : Option Instant
  contentIdentity : Text
  metadata : Entries
  artifacts : List ArtifactEntry

/-- `manifest.json`. -/
structure Manifest where
  sourceId : SourceId
  provider : Text
  externalSourceId : Text
  sourceType : Text
  origin : Text
  noteId : Text
  currentRevision : Nat
  revisions : List Revision
  projectionPath : NotePath

/-- `.external-id-….json`. -/
structure Claim where
  provider : Text
  externalSourceId : Text
  sourceId : SourceId
deriving DecidableEq, Repr

/-- A document on disk: as it was written, or cut off by a write that failed. -/
inductive Doc (α : Type) where
  | whole (a : α)
  | torn

/-- The document, where it can be read. -/
def Doc.read {α : Type} : Doc α → Option α
  | .whole a => some a
  | .torn => none

/-- `sources/<id>/`. -/
structure Bundle where
  manifest : Option (Doc Manifest)
  dirs : AList fun _ : Nat => RevisionDir

def Bundle.empty : Bundle := ⟨none, ∅⟩

/-- What the notes tree holds at a path. -/
inductive Entry where
  | file (data : FileBytes) (mtime : Instant)
  | directory

/-- A row of `sources`; its key is the source's identifier. -/
structure SourceRow where
  provider : Text
  externalSourceId : Text
  sourceType : Text
  origin : Text
  currentRevision : Nat
  contentIdentity : Text
  createdAt : Instant
  updatedAt : Instant
deriving DecidableEq, Repr

/-- A row of `source_revisions`; its key is the source and the number. -/
structure RevisionRow where
  contentIdentity : Text
  ingestedAt : Instant
  capturedAt : Option Instant
  metadata : Entries

/-- A row of `source_artifacts`; its key is the revision's and the name. -/
structure ArtifactRow where
  mimeType : Text
  sha256 : Text
  sizeBytes : Nat
deriving DecidableEq, Repr

structure Database where
  sources : AList fun _ : SourceId => SourceRow
  revisions : AList fun _ : SourceId × Nat => RevisionRow
  artifacts : AList fun _ : SourceId × Nat × Text => ArtifactRow
  notes : AList fun _ : NoteId => Row
  /-- `note_sources`: when the link was made. -/
  links : AList fun _ : NoteId × SourceId => Instant

def Database.empty : Database := ⟨∅, ∅, ∅, ∅, ∅⟩

structure Store where
  claims : AList fun _ : Text => Doc Claim
  bundles : AList fun _ : SourceId => Bundle
  notes : AList fun _ : NotePath => Entry
  db : Database

def Store.empty : Store := ⟨∅, ∅, ∅, .empty⟩

section Faults

/-- The steps of `create_exclusive_bytes`.  A failure of the write or of a sync removes the file
again, which may fail too. -/
inductive ExclusiveStep where
  | opening | writing | syncing | unlinking
deriving DecidableEq, Repr

/-- What `shutil.rmtree` removes from a bundle. -/
inductive Removal where
  | manifest
  | artifact (revision : Nat) (name : Text)
  | directory (revision : Nat)
  | bundle
deriving DecidableEq, Repr

/-- The steps of an ingest that can fail for a reason outside the store. -/
inductive Site where
  | connect
  | readClaim
  | listReview
  | occupied
  | claim (step : ExclusiveStep)
  | listPending
  | flushRows
  | flushArtifacts
  | makeRevision
  | artifact (name : Text) (step : ExclusiveStep)
  | page (step : ExclusiveStep)
  | pageReplace (step : AtomicStep)
  | readPage
  | rereadPage
  | newManifest (step : ExclusiveStep)
  | note (step : ExclusiveStep)
  | remove (removal : Removal)
  | unlinkClaim
  | unlinkPage
  | readManifest
  | verifyArtifact (name : Text)
  | linkedNote
  | listNotes
  | readNote (path : NotePath)
  | mirror
  | readArtifact (name : Text)
  | manifest (step : AtomicStep)
  | getNote
  | flushRevision
  | commit
deriving DecidableEq, Repr

/-- The sites that fail. -/
abbrev Faults := Site → Bool

/-- Nothing fails. -/
def noFault : Faults := fun _ => false

/-- One step fails. -/
def single (site : Site) : Faults := fun s => s == site

inductive Raised where
  | osError
  | fileExists
  | valueError
  | database
  | dataRefused
  /-- An `IntegrityError`, and whether it names the external identifier's constraint. -/
  | integrity (externalId : Bool)
  | frontmatter (e : Frontmatter.Raised)
  | storeError (reason : String)
  | validationFailed (problems : List PyStr)
  | payloadTooLarge (limit : Nat)
  | pathCollision (path : NotePath)
  | projectionNotPlaced (path : NotePath)
  | incompleteRevision (sourceId : SourceId) (revision : Nat)
  | sourceClaimMissing
  | sourcesFilesystemUnavailable (reason : Option String)
  | notesFilesystemUnavailable
  | metadataUnavailable

/-- `except OSError as exc: raise SourcesFilesystemUnavailable(str(exc))`. -/
def Raised.inSources : Raised → Raised
  | .osError => .sourcesFilesystemUnavailable none
  | .fileExists => .sourcesFilesystemUnavailable none
  | e => e

/-- `except (OSError, ValueError, FrontmatterError) as exc: raise
NotesFilesystemUnavailable(str(exc))`. -/
def Raised.inNotes : Raised → Raised
  | .osError => .notesFilesystemUnavailable
  | .fileExists => .notesFilesystemUnavailable
  | .valueError => .notesFilesystemUnavailable
  | .frontmatter (.frontmatter _) => .notesFilesystemUnavailable
  | e => e

/-- `_metadata_failure`: what reaches a transaction untyped is the database. -/
def Raised.inMetadata : Raised → Raised
  | .osError => .metadataUnavailable
  | .fileExists => .metadataUnavailable
  | .database => .metadataUnavailable
  | .integrity _ => .metadataUnavailable
  | .dataRefused =>
    .validationFailed [PyStr.lit "request contains a value the metadata store cannot accept"]
  | e => e

end Faults

/-- An operation of the store. -/
abbrev Op := EStateM Raised Store

/-- An entry of `request.source.artifacts`, decoded. -/
structure Artifact where
  name : Text
  mimeType : Text
  data : Bytes
deriving DecidableEq, Repr

/-- `IngestRequest`, as it is validated: there are artifacts, and no name stands twice. -/
structure Request where
  provider : Text
  externalSourceId : Text
  sourceType : Text
  origin : Text
  capturedAt : Option Instant
  metadata : Entries
  artifacts : List Artifact
  noteTitle : Text
  noteBody : Text
  noteFrontmatter : Entries
  /-- `max(_payload_size(request), payload_size_bytes or 0)`. -/
  payloadSize : Nat
  names_nodup : (artifacts.map (·.name)).Nodup
  artifacts_ne_nil : artifacts ≠ []
  /-- `dict[str, Any]`: the keys are strings, a lone surrogate in one or not. -/
  keys_str : ∀ e ∈ noteFrontmatter,
    (∃ t, e.1 = .str t) ∨ ∃ points : PyStr, e.1 = .surrogateStr points ∧ points.encodable = false

/-- What an ingest takes from the settings. -/
structure Settings where
  schema : FrontmatterSchema
  /-- The listed tags, where the schema's tags are closed. -/
  closedTags : Option (List Text)
  reviewFolder : Text
  sourcesFolder : Text
  datedTypes : List PyStr
  ingestMaxBytes : Nat
  /-- `moment.astimezone(ZoneInfo(settings.general.timezone))`. -/
  localTime : Instant → DateTime

/-- What an ingest takes from the settings and from libraries. -/
structure Env extends Settings where
  lib : Notes.Libraries
  unicode : Naming.Unicode
  /-- `hashlib.sha256(data).hexdigest()`. -/
  sha256 : Bytes → Text
  /-- `json.dumps(value, ensure_ascii=False, separators=(",", ":")).encode("utf-8")`. -/
  dumps : Value → Bytes
  /-- `artifact_text`. -/
  artifactText : Bytes → Text → Option Text

/-- What one request draws from the outside: the identifiers it would give, the clock, and the
stamp its files get. -/
structure Draw where
  sourceId : SourceId
  noteId : Text
  now : Instant
  mtime : Instant

section Steps

variable (faults : Faults)

/-- The step `site` raises where it is one that fails. -/
def step (site : Site) (e : Raised) : Op Unit :=
  raiseIf (faults site) e

/-- What a write that failed leaves of a file. -/
inductive Written where
  | whole | torn

/-- `create_exclusive_bytes`: `taken` says that something stands at the path, `put` writes the
file there. -/
def createExclusive (site : ExclusiveStep → Site) (taken : Store → Bool)
    (put : Written → Store → Store) : Op Unit := do
  step faults (site .opening) .osError
  raiseIf (taken (← get)) .fileExists
  if faults (site .writing) then
    if faults (site .unlinking) then modify (put .torn)
    throw .osError
  if faults (site .syncing) then
    if faults (site .unlinking) then modify (put .whole)
    throw .osError
  modify (put .whole)

end Steps

namespace Store

variable (s : Store)

def bundle (id : SourceId) : Bundle := (s.bundles.lookup id).getD .empty

def setBundle (id : SourceId) (b : Bundle) : Store := { s with bundles := s.bundles.insert id b }

def setClaim (name : Text) (claim : Doc Claim) : Store :=
  { s with claims := s.claims.insert name claim }

def dropClaim (name : Text) : Store := { s with claims := s.claims.erase name }

def setNote (path : NotePath) (e : Entry) : Store := { s with notes := s.notes.insert path e }

def dropNote (path : NotePath) : Store := { s with notes := s.notes.erase path }

def setDb (db : Database) : Store := { s with db }

/-- The manifest of a source, where it has one that can be read. -/
def manifest? (id : SourceId) : Option Manifest :=
  ((s.bundles.lookup id).bind (·.manifest)).bind Doc.read

/-- The text of the file at a path, where it decodes. -/
def text? (path : NotePath) : Option Text :=
  match s.notes.lookup path with
  | some (.file (.utf8 text) _) => some text
  | _ => none

/-- The metadata as it was before the transaction. -/
def rollback (before after : Store) : Store := { after with db := before.db }

section Setters

variable {s} {id : SourceId} {b b' : Bundle}

theorem bundle_eq_empty (h : s.bundles.lookup id = none) : s.bundle id = .empty := by
  rw [bundle, h, Option.getD_none]

theorem bundle_eq (h : s.bundles.lookup id = some b) : s.bundle id = b := by
  rw [bundle, h, Option.getD_some]

@[simp] theorem bundle_setBundle : (s.setBundle id b).bundle id = b :=
  bundle_eq (AList.lookup_insert _)

@[simp] theorem setBundle_setBundle : (s.setBundle id b).setBundle id b' = s.setBundle id b' := by
  simp only [setBundle, AList.insert_insert]

@[simp] theorem setBundle_claims : (s.setBundle id b).claims = s.claims := rfl

@[simp] theorem setBundle_notes : (s.setBundle id b).notes = s.notes := rfl

@[simp] theorem setBundle_db : (s.setBundle id b).db = s.db := rfl

@[simp] theorem setBundle_bundles : (s.setBundle id b).bundles = s.bundles.insert id b := rfl

@[simp] theorem setClaim_bundles (name : Text) (claim : Doc Claim) :
    (s.setClaim name claim).bundles = s.bundles := rfl

@[simp] theorem setClaim_claims (name : Text) (claim : Doc Claim) :
    (s.setClaim name claim).claims = s.claims.insert name claim := rfl

@[simp] theorem setClaim_notes (name : Text) (claim : Doc Claim) :
    (s.setClaim name claim).notes = s.notes := rfl

@[simp] theorem setClaim_db (name : Text) (claim : Doc Claim) :
    (s.setClaim name claim).db = s.db := rfl

end Setters

end Store

/-- A document that a write left. -/
def Written.doc {α : Type} (a : α) : Written → Doc α
  | .whole => .whole a
  | .torn => .torn

/-- Bytes that a write left. -/
def Written.bytes (data : Bytes) : Written → Bytes
  | .whole => data
  | .torn => []

/-- A text file that a write left. -/
def Written.file (text : Text) (mtime : Instant) : Written → Entry
  | .whole => .file (.utf8 text) mtime
  | .torn => .file (.utf8 []) mtime

section Removing

variable (faults : Faults)

/-- What `rmtree` leaves of a revision's directory. -/
def leftOfDir (number : Nat) (dir : RevisionDir) : Option RevisionDir :=
  let kept := dir.entries.filter fun e => faults (.remove (.artifact number e.1))
  if kept.isEmpty && !faults (.remove (.directory number)) then none
  else some (kept.map (fun e => (⟨e.1, e.2⟩ : Sigma fun _ : Text => Bytes))).toAList

/-- `shutil.rmtree(revision_path, ignore_errors=True)`. -/
def removeRevision (id : SourceId) (number : Nat) (s : Store) : Store :=
  let b := s.bundle id
  match b.dirs.lookup number with
  | none => s
  | some dir =>
    match leftOfDir faults number dir with
    | some kept => s.setBundle id { b with dirs := b.dirs.insert number kept }
    | none => s.setBundle id { b with dirs := b.dirs.erase number }

/-- What `rmtree` leaves of a bundle. -/
def leftOfBundle (b : Bundle) : Option Bundle :=
  let manifest := if faults (.remove .manifest) then b.manifest else none
  let dirs := b.dirs.entries.filterMap fun e =>
    (leftOfDir faults e.1 e.2).map fun dir => (⟨e.1, dir⟩ : Sigma fun _ : Nat => RevisionDir)
  if manifest.isNone && dirs.isEmpty && !faults (.remove .bundle) then none
  else some ⟨manifest, dirs.toAList⟩

/-- `shutil.rmtree(source_path, ignore_errors=True)`. -/
def removeBundle (id : SourceId) (s : Store) : Store :=
  match s.bundles.lookup id with
  | none => s
  | some b =>
    match leftOfBundle faults b with
    | some kept => s.setBundle id kept
    | none => { s with bundles := s.bundles.erase id }

end Removing

end Coppermind.Sources
