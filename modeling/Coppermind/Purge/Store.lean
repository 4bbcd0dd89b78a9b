import Coppermind.Lib.Json
import Coppermind.Lib.Volume
import Coppermind.Lib.Task
import Coppermind.Dossiers.Service
import Coppermind.Notes.Adoption
import Mathlib.Data.Finset.Basic
import Mathlib.Data.List.Dedup

/-!
# What a purge reads and removes

Receipts, the four areas of files, the records of the context service, the rows of the database and
the dossiers.  A place on the disk is the root of an area followed by the components of a relative
path.  `references` is what the notes tree still names: it fails where a note cannot be read, so
that no purge goes on without having read every note.
-/

namespace Coppermind.Purge

open Coppermind.Lib Coppermind.Lib.Text Coppermind.Frontmatter Coppermind.Schema
open Coppermind.Notes (Instant FileBytes)

/-- The components of a relative path. -/
abbrev Parts := List PyStr

abbrev Disk := Volume PyStr FileBytes

inductive Area where
  | notes | sources | artifacts | state
deriving DecidableEq, Repr

def Area.root : Area → PyStr
  | notes => PyStr.lit "notes"
  | sources => PyStr.lit "sources"
  | artifacts => PyStr.lit "artifacts"
  | state => PyStr.lit "state"

/-- A place under the root of an area. -/
def Area.at (area : Area) (path : Parts) : List PyStr := area.root :: path

theorem Area.root_injective : Function.Injective Area.root := by
  intro a b h
  revert h
  cases a <;> cases b <;> decide

@[simp] theorem Area.at_inj {area area' : Area} {path path' : Parts} :
    area.at path = area'.at path' ↔ area = area' ∧ path = path' := by
  simp [Area.at, Area.root_injective.eq_iff]

inductive Kind where
  | note | source | artifact | entity
deriving DecidableEq, Repr

/-- `PurgeCandidate`. -/
structure Candidate where
  kind : Kind
  id : PyStr
  title : PyStr
  path : PyStr
  origins : List PyStr
  providers : List PyStr
  deletedAt : Option Instant := none
  leftover : Bool := false
  reason : Option PyStr := none
deriving DecidableEq

/-- A file of a receipt, with the digest of its bytes. -/
structure Listed where
  area : Area
  path : Parts
  hash : PyStr
deriving DecidableEq

def Listed.place (f : Listed) : List PyStr := f.area.at f.path

/-- An item of a receipt; `opening` is the note a source opened with. -/
structure Item where
  candidate : Candidate
  row : Option PyStr
  opening : Option PyStr := none
  files : List Listed
  directories : List Parts
deriving DecidableEq

namespace Item

def id (item : Item) : PyStr := item.candidate.id

def kind (item : Item) : Kind := item.candidate.kind

/-- `_directory_root`. -/
def directoryRoot (item : Item) : Area :=
  if item.kind = .artifact then .artifacts else .sources

def directoryPlaces (item : Item) : List (List PyStr) := item.directories.map item.directoryRoot.at

def filePlaces (item : Item) : List (List PyStr) := item.files.map Listed.place

/-- The places of an item: its files and its directories. -/
def places (item : Item) : List (List PyStr) := item.filePlaces ++ item.directoryPlaces

end Item

inductive State where
  | preview | applying | failed | complete | abandoned
deriving DecidableEq, Repr

/-- `{"applying", "failed"}`. -/
def State.unfinished (s : State) : Bool := s = .applying || s = .failed

/-- `PurgeKept`. -/
structure Kept where
  notesWithinRetention : Nat
  sourcesInUse : Nat
  artifactsWithinRetention : Nat
deriving DecidableEq

/-- A receipt. -/
structure Record where
  token : PyStr
  state : State
  createdAt : Instant
  retentionDays : Nat
  items : List Item
  kept : Option Kept
  completed : List PyStr
  remaining : List PyStr := []
  error : Option String := none
deriving DecidableEq

namespace Record

/-- The ids of a kind that a receipt lists. -/
def idsOf (record : Record) (kind : Kind) : List PyStr :=
  (record.items.filter (·.kind = kind)).map Item.id

def ids (record : Record) : List PyStr := record.items.map Item.id

def places (record : Record) : List (List PyStr) := record.items.flatMap Item.places

end Record

/-- Where receipts lie: the unfinished and the previews in the root. -/
inductive Folder where
  | root | done | abandoned
deriving DecidableEq, Repr

/-- `TERMINAL`. -/
def State.folder : State → Folder
  | complete => .done
  | abandoned => .abandoned
  | _ => .root

structure NoteRow extends Notes.Row where
  filedSourceIds : List PyStr

def NoteRow.title (row : NoteRow) : Option PyStr := row.cells .title

def NoteRow.sourceIds (row : NoteRow) : List PyStr := row.cells .sourceIds

def NoteRow.live (row : NoteRow) : Bool := row.state ≠ .deleted

/-- A row of `sources`. -/
structure SourceRow where
  id : PyStr
  provider : PyStr
  externalSourceId : PyStr
  sourceType : PyStr
  origin : PyStr
  currentRevision : Int
  contentIdentity : PyStr
  createdAt : Instant
  updatedAt : Instant
deriving DecidableEq

/-- A row of `note_sources`, in the order of `created_at` and the note. -/
structure Link where
  noteId : PyStr
  sourceId : PyStr
deriving DecidableEq

/-- What a purge asks of a source manifest. -/
structure Manifest where
  sourceId : Option PyStr
  noteId : Option PyStr
  projectionPath : Option PyStr

/-- What a purge asks of an artifact manifest. -/
structure Archive where
  artifactId : Option PyStr
  isArtifact : Bool
  removedAt : Instant
  removedReason : Option PyStr
  origin : Option PyStr
  title : Option PyStr
  filename : Option PyStr

/-- What a purge asks of a recovery receipt. -/
structure Saved where
  noteId : PyStr
  path : PyStr
  contentHash : PyStr
  recordedAt : Instant

/-- The records of the context service that have a member for a note. -/
inductive Book where
  | finalized | associations | calendarFollowups
deriving DecidableEq, Repr

/-- What a purge asks of an enrichment job. -/
structure EnrichmentJob where
  id : PyStr
  noteId : PyStr
deriving DecidableEq

/-- The files of the context service that a purge reads, writes or removes: what each holds, none
where that cannot be read. -/
structure Context where
  /-- `finalized.json`, `associations.json` and `calendar-followups.json`, where they are. -/
  books : Book → Option (Option Json)
  /-- `dossiers.json`, the old view by address. -/
  dossiers : Option (Option Json)
  /-- The names in `review-completions/`. -/
  completions : Finset PyStr
  /-- `association-corrections/` -/
  corrections : AList fun _ : PyStr => Option Json
  /-- `jobs/` -/
  jobs : AList fun _ : PyStr => Option EnrichmentJob
  /-- `save_job` files a job under its own id. -/
  jobs_filed : ∀ name job, jobs.lookup name = some (some job) → job.id = name

/-- `EntityRecord`; `record` is what is public of the dossier. -/
structure EntityRow where
  id : Text
  kind : Dossiers.EntityKind
  name : Text
  version : Nat
  active : Bool
  record : Dossiers.Entity
deriving DecidableEq

/-- What `mirror` upserts for a dossier. -/
def EntityRow.of (e : Dossiers.Entity) : EntityRow where
  id := e.id
  kind := e.kind
  name := e.name
  version := e.version
  active := e.retiredAt.isNone && e.redirect.all (·.isEmpty)
  record := { e with generated := none, pending := none }

/-- The ledger in memory, its dossiers under different identifiers. -/
structure Memory extends Dossiers.Draft where
  keyed : (ledger.entities.map (·.id)).Nodup

structure World where
  disk : Disk
  /-- The rows of `notes`, in the order of their ids. -/
  notes : List NoteRow
  sources : List SourceRow
  artifacts : List PyStr
  links : List Link
  /-- The rows of `entities`. -/
  entityRows : List EntityRow
  /-- `catalog.json` -/
  ledger : Dossiers.Ledger
  context : Context
  /-- `purges/`: what each file holds, none where it is no receipt. -/
  receipts : Folder → AList fun _ : PyStr => Option Record
  quarantined : List PyStr
  /-- `settings().retention.days`. -/
  retentionDays : Nat
  notes_keyed : (notes.map (·.id)).Nodup
  sources_keyed : (sources.map (·.id)).Nodup
  ledger_keyed : (ledger.entities.map (·.id)).Nodup

/-- `load` of the entity service. -/
def World.memory (w : World) (drawn : Nat) : Memory := ⟨⟨w.ledger, drawn⟩, w.ledger_keyed⟩

inductive Raised where
  | validationFailed (problem : String)
  | purgeConflict
  | valueError
  | attributeError
  | typeError
  | frontmatter (e : Frontmatter.Raised)
  | osError (place : Option (List PyStr))
  | sqlalchemyError
  | metadataUnavailable
  | notesFilesystemUnavailable
  | sourcesFilesystemUnavailable

/-- What a purge asks of the settings, of other code and of its libraries. -/
structure Env where
  yaml : RoundTrip
  /-- `schema.role("id_key")`. -/
  idKey : Text
  /-- `schema.role("sources_key")`. -/
  sourcesKey : Text
  /-- `_digest` of a file's bytes. -/
  digest : FileBytes → PyStr
  noteFingerprint : NoteRow → PyStr
  sourceFingerprint : SourceRow → PyStr
  entityDigest : Dossiers.Entity → PyStr
  /-- `_read_json` of a source manifest. -/
  manifest : FileBytes → Option Manifest
  /-- `json.loads` of an artifact manifest that has a moment of removal with an offset. -/
  archive : FileBytes → Option Archive
  /-- The source a claim names; none where it is no document. -/
  claim : FileBytes → Option (Option PyStr)
  /-- The name of the claim of a provider and an external id. -/
  claimName : PyStr → PyStr → PyStr
  /-- `Receipt.model_validate_json`, with its path and content checked. -/
  recovery : FileBytes → Option Saved
  dossiers : Dossiers.Env
  /-- `str(Decimal(literal))`, what stands for a float that `ijson` has read. -/
  decimal : PyStr → PyStr
  /-- `refresh_locked` up to its projections: the ledger in memory, and the pages it has seen. -/
  refreshed : World → Nat → Except Raised (Memory × Dossiers.Seen)

/-- `is_valid_id`. -/
def isValidId (id : PyStr) : Bool := id.encodable && Artifacts.isValidId (id.map Char.ofNat)

/-- The text an id is, if it is one. -/
def text? (id : PyStr) : Option Text := if id.encodable then some (id.map Char.ofNat) else none

/-- `Path(path).parts` of a relative path; none where the path is absolute. -/
def partsOf (path : PyStr) : Option Parts :=
  if path.head? = some PyStr.slash then none
  else some (path.parts.filter fun part => part ≠ [] ∧ part ≠ [PyStr.dot])

/-- `as_posix`. -/
def posix (path : Parts) : PyStr := [PyStr.slash].intercalate path

/-- `sorted(paths)`. -/
def sortedPaths (paths : List Parts) : List Parts := paths.insertionSort (· ≤ ·)

/-- `sorted(set(values))`. -/
def sortedSet (values : List PyStr) : List PyStr := values.dedup.insertionSort (· ≤ ·)

@[simp] theorem mem_sortedPaths {paths : List Parts} {p : Parts} :
    p ∈ sortedPaths paths ↔ p ∈ paths :=
  List.mem_insertionSort _

@[simp] theorem mem_sortedSet {values : List PyStr} {v : PyStr} :
    v ∈ sortedSet values ↔ v ∈ values := by
  rw [sortedSet, List.mem_insertionSort, List.mem_dedup]

section Disk

variable (d : Disk)

/-- `resolve`: the place of a path; none where it raises `ValueError`. -/
def resolve (area : Area) (path : Parts) : Option (List PyStr) :=
  if path = [] ∨ path.any (· ∈ [PyStr.lit ".", PyStr.lit "..", PyStr.lit ".git"]) then none
  else if d.linked (area.at path) then none
  else some (area.at path)

def resolveOr (area : Area) (path : Parts) : Except Raised (List PyStr) :=
  match resolve d area path with
  | some place => .ok place
  | none => .error .valueError

/-- The bytes of the file at a place. -/
def file? (place : List PyStr) : Option FileBytes :=
  match d.lookup place with
  | some (.file data) => some data
  | _ => none

def isDir (place : List PyStr) : Bool := (d.lookup place).any Node.isDir

/-- `read_bytes`. -/
def readBytes (place : List PyStr) : Except Raised FileBytes :=
  match file? d place with
  | some data => .ok data
  | none => .error (.osError (some place))

/-- `read_text`. -/
def readText (place : List PyStr) : Except Raised Text := do
  match ← readBytes d place with
  | .utf8 text => .ok (newlines text)
  | .other _ => .error .valueError

/-- What stands under a folder of an area, as paths of the area, sorted. -/
def walk (area : Area) (path : Parts) : List Parts :=
  sortedPaths ((d.under (area.at path)).map List.tail)

/-- The names in a folder of an area. -/
def names (area : Area) (folder : Parts) : List PyStr :=
  ((walk d area folder).filter (·.length = folder.length + 1)).filterMap (·.getLast?)

end Disk

section References

variable (env : Env) (d : Disk)

/-- What the notes tree names: `disk_references`. -/
structure References where
  ids : List PyStr := []
  cited : List PyStr := []
  /-- The generated pages, each with its source. -/
  pages : List (PyStr × PyStr) := []

/-- The valid identifier a value is. -/
def validId? (value : Option Value) : Option PyStr := (value.bind str?).filter isValidId

/-- `fields.get("managed") is True`. -/
def managed (fields : Entries) : Bool := (fields.get? "managed".toList).any fun
  | .bool b => b
  | _ => false

/-- The source of a verified generated page. -/
def pageSource? (fields : Entries) : Option PyStr :=
  if managed fields ∧ (validId? (fields.get? env.idKey)).isNone then
    validId? (fields.get? "source_id".toList)
  else none

/-- The sources a note cites; none where they are no list of strings. -/
def citations? (fields : Entries) : Option (List PyStr) :=
  match fields.get? env.sourcesKey with
  | none => some []
  | some (.seq _ items) => items.mapM str?
  | some _ => none

/-- The note files, those under hidden folders apart. -/
def markdown : List Parts :=
  (walk d .notes []).filter fun path =>
    (PyStr.lit ".md").isSuffixOf (path.getLastD []) &&
      !path.any (· ∈ [PyStr.lit ".git", PyStr.lit ".obsidian"])

/-- The frontmatter of the note at a path. -/
def fieldsAt (path : Parts) : Except Raised Entries := do
  let place ← resolveOr d .notes path
  let text ← readText d place
  match Notes.parse env.yaml text with
  | .ok (fields, _) => .ok fields
  | .error e => .error (.frontmatter e)

/-- One note of `disk_references`. -/
def reference (refs : References) (path : Parts) : Except Raised References := do
  let fields ← fieldsAt env d path
  match pageSource? env fields with
  | some source => .ok { refs with pages := refs.pages ++ [(source, posix path)] }
  | none =>
    match citations? env fields with
    | none => .error (.validationFailed
        "A note has unreadable source references. Fix Problems first.")
    | some sources =>
      .ok { refs with
        ids := refs.ids ++ ((fields.get? env.idKey).bind str?).toList
        cited := refs.cited ++ sources }

/-- `disk_references`. -/
def references : Except Raised References :=
  if isDir d (Area.notes.at []) ∧ isDir d (Area.sources.at []) then
    (markdown d).foldlM (reference env d) {}
  else .error .notesFilesystemUnavailable

/-- The pages of a source. -/
def References.pagesOf (refs : References) (source : PyStr) : List PyStr :=
  (refs.pages.filter (·.1 = source)).map (·.2)

end References

end Coppermind.Purge
