import Coppermind.Artifacts.Store

/-!
# Storing, removing and recovering artifacts

`createArtifact` goes through the one write path, `storeRevision`: a new artifact, a new
revision of one, or a replay.  `removeArtifact` marks the manifest and takes the projection
away; `recoverArtifacts` rebuilds every record and row from the archive.
-/

namespace Coppermind.Artifacts

open Coppermind.Lib Coppermind.Lib.Text Coppermind.Naming

/-- What one request stores: a file, or a link. -/
inductive Payload where
  | file (filename mimeType : Text) (data : Bytes)
  | link (url : Text)
deriving DecidableEq, Repr

namespace Payload

def filename? : Payload → Option Text
  | .file filename _ _ => some filename
  | .link _ => none

def mimeType? : Payload → Option Text
  | .file _ mimeType _ => some mimeType
  | .link _ => none

def url? : Payload → Option Text
  | .file _ _ _ => none
  | .link url => some url

def sha256? (env : Env) : Payload → Option Text
  | .file _ _ data => some (env.sha256 data)
  | .link _ => none

def sizeBytes : Payload → Nat
  | .file _ _ data => data.length
  | .link _ => 0

end Payload

/-- What the caller of `_store_revision` says of the artifact beside its payload. -/
structure Details where
  title : Text
  origin : Text
  receivedAt : Instant
  tags : List Text
  source : Option (Text × Text)

structure CreatedArtifact where
  id : Id
  revision : Nat
  created : Bool
  path : Option NotePath
  title : Text
deriving DecidableEq, Repr

section Files

variable (fault : Fault)

/-- `create_exclusive_bytes` in the notes filesystem. -/
def createNote (site : ExclusiveStep → Site) (path : NotePath) (data : Bytes) (mtimeNs : Nat) :
    Op Unit := do
  step fault (site .opening) .osError
  raiseIf (((← get).notes.lookup path).isSome) .fileExists
  step fault (site .writing) .osError
  modify (·.setNote path (.file data mtimeNs))

/-- `atomic_write_bytes` in the notes filesystem. -/
def replaceNote (site : AtomicStep → Site) (path : NotePath) (data : Bytes) (mtimeNs : Nat) :
    Op Unit := do
  step fault (site .staging) .osError
  step fault (site .replacing) .osError
  modify (·.setNote path (.file data mtimeNs))
  step fault (site .syncing) .osError

/-- `_entries`, where the folder can be listed. -/
def listFolder (folder : Text) : Op (List Text) := do
  step fault .listFolder .notesFilesystemUnavailable
  return (← get).entries folder

/-- `(archive / f"r{number:04d}").mkdir(exist_ok=False)`. -/
def makeRevisionDir (id : Id) (number : Nat) : Op Unit := do
  step fault .revisionDirectory .osError
  raiseIf ((((← get).archive id).dirs.lookup number).isSome) .fileExists
  modify fun s =>
    s.setArchive id { s.archive id with dirs := (s.archive id).dirs.insert number ∅ }

/-- `create_exclusive_bytes(archive / f"r{number:04d}" / filename, data)`. -/
def createRevisionFile (id : Id) (number : Nat) (filename : Text) (data : Bytes) : Op Unit := do
  step fault (.revisionFile .opening) .osError
  let dir := (((← get).archive id).dirs.lookup number).getD ∅
  raiseIf ((dir.lookup filename).isSome) .fileExists
  step fault (.revisionFile .writing) .osError
  modify fun s => s.setArchive id
    { s.archive id with dirs := (s.archive id).dirs.insert number (dir.insert filename data) }

/-- `archive.mkdir(exist_ok=False)`. -/
def makeArchive (id : Id) : Op Unit := do
  step fault .revisionDirectory .osError
  raiseIf (((← get).archives.lookup id).isSome) .fileExists
  modify (·.setArchive id Archive.empty)

/-- `shutil.rmtree(revision_dir)`. -/
def dropRevisionDir (id : Id) (number : Nat) (s : Store) : Store :=
  s.setArchive id { s.archive id with dirs := (s.archive id).dirs.erase number }

/-- `_write_manifest` with `new=True`. -/
def createManifest (manifest : Manifest) : Op Unit := do
  step fault (.newManifest .opening) .osError
  raiseIf (((← get).manifest? manifest.artifactId).isSome) .fileExists
  step fault (.newManifest .writing) .osError
  modify fun s => s.setArchive manifest.artifactId
    { s.archive manifest.artifactId with manifest := some manifest }

/-- `_write_manifest` with `new=False`: the replacement is published before its directory
is synced. -/
def replaceManifest (manifest : Manifest) : Op Unit := do
  step fault (.manifest .staging) .osError
  step fault (.manifest .replacing) .osError
  modify fun s => s.setArchive manifest.artifactId
    { s.archive manifest.artifactId with manifest := some manifest }
  step fault (.manifest .syncing) .osError

/-- `read_manifest`: the archive manifest, or `ArtifactMissing` when no archive holds it. -/
def readManifest (id : Id) : Op Manifest := do
  raiseIf (!isValidId id) (.artifactMissing id)
  step fault .readManifest
    (.artifactsFilesystemUnavailable (some "the artifact manifest is unreadable"))
  match (← get).manifest? id with
  | none => throw (.artifactMissing id)
  | some manifest =>
    raiseIf (manifest.artifactId ≠ id) (.artifactsFilesystemUnavailable
      (some "the artifact manifest names a different artifact"))
    return manifest

/-- `_current_revision`: the first recorded revision of the current number. -/
def Manifest.current? (manifest : Manifest) : Option Revision :=
  manifest.revisions.find? (·.revision = manifest.currentRevision)

def currentRevision (manifest : Manifest) : Op Revision :=
  match manifest.current? with
  | some revision => pure revision
  | none => throw (.artifactsFilesystemUnavailable
      (some "the artifact manifest has inconsistent revisions"))

/-- `read_record`. -/
def readRecord (id : Id) : Op (Option Record) := do
  step fault .readRecord
    (.artifactsFilesystemUnavailable (some "the artifact record is unreadable"))
  return (← get).records.lookup id

/-- `write_record`. -/
def writeRecord (record : Record) : Op Unit := mapRaised Raised.inArchive do
  step fault (.record .staging) .osError
  step fault (.record .replacing) .osError
  modify (·.setRecord record.id record)
  step fault (.record .syncing) .osError

end Files

section Records

variable (env : Env)

/-- `record_is_current`. -/
def recordIsCurrent (record : Option Record) (manifest : Manifest) : Bool :=
  record.any fun record =>
    record.extractorVersion == env.extractorVersion && record.revision == manifest.currentRevision

/-- `_browse_stat`: size and modification time. -/
def browseStat (s : Store) (path : NotePath) : Option (Nat × Nat) :=
  match s.notes.lookup path with
  | some (.file data mtimeNs) => some (data.length, mtimeNs)
  | some .directory => some (0, 0)
  | none => none

def revisionBytes (s : Store) (id : Id) (revision : Revision) : Option Bytes :=
  ((s.archive id).dirs.lookup revision.revision).bind fun dir =>
    revision.filename.bind dir.lookup

/-- `_extract_record`: the record of the current revision's archived bytes. -/
def extractRecord (manifest : Manifest) (now : Instant) (state : ArtifactState) :
    Op Record := do
  let current ← currentRevision manifest
  let s ← get
  let (text, textStatus) :=
    match manifest.url, current.filename with
    | some url, none => (manifest.title ++ '\n' :: url, TextStatus.link)
    | _, _ => env.extract (revisionBytes s manifest.artifactId current)
        (current.mimeType.getD "application/octet-stream".toList)
  return {
    id := manifest.artifactId
    title := manifest.title
    origin := manifest.origin
    receivedAt := manifest.receivedAt
    filename := current.filename
    mimeType := current.mimeType
    sha256 := current.sha256
    sizeBytes := current.sizeBytes
    url := manifest.url
    tags := manifest.tags
    path := manifest.path
    revision := manifest.currentRevision
    source := manifest.source
    text := text
    textStatus := textStatus
    extractorVersion := env.extractorVersion
    extractedAt := now
    browse := manifest.path.bind (browseStat s)
    state := state
    createdAt := manifest.createdAt
    updatedAt := current.storedAt }

/-- `_row_values`. -/
def Record.row (record : Record) : Row where
  title := record.title
  origin := record.origin
  receivedAt := record.receivedAt
  filename := record.filename
  mimeType := record.mimeType
  sha256 := record.sha256
  sizeBytes := record.sizeBytes
  url := record.url
  tags := record.tags
  path := record.path
  currentRevision := record.revision
  source := record.source
  textStatus := record.textStatus
  extractorVersion := record.extractorVersion
  state := record.state
  createdAt := record.createdAt
  updatedAt := record.updatedAt

/-- `mirror_record`, without the search entry. -/
def mirrorRecord (fault : Fault) (record : Record) : Op Unit := do
  step fault .mirror .database
  modify (·.setRow record.id record.row)

end Records

section Replay

/-- Whether a row is of the payload's bytes under its filename, or of its link. -/
def Row.matches (env : Env) (payload : Payload) (row : Row) : Bool :=
  match payload with
  | .file filename _ data =>
    row.sha256 == some (env.sha256 data) && row.filename == some filename && row.source.isNone
  | .link url => row.url == some url

/-- The row first created; of rows created together, the first listed. -/
def firstCreated : List (Id × Row) → Option (Id × Row)
  | [] => none
  | x :: xs =>
    match firstCreated xs with
    | none => some x
    | some y => if y.2.createdAt < x.2.createdAt then some y else some x

/-- `_find_replay`: an existing artifact these same bytes, or this same link, already made. -/
def findReplay (env : Env) (s : Store) (payload : Payload) : Option Id :=
  (firstCreated ((s.rows.entries.map fun e => (e.1, e.2)).filter
    fun e => e.2.matches env payload)).map (·.1)

end Replay

section Write

variable (env : Env) (fault : Fault) (draw : Draw)

def Payload.revision (payload : Payload) (number : Nat) : Revision where
  revision := number
  storedAt := draw.now
  filename := payload.filename?
  mimeType := payload.mimeType?
  sha256 := payload.sha256? env
  sizeBytes := payload.sizeBytes
  url := payload.url?

/-- The browsable copy of a new artifact, at the path chosen or, where something landed
there since, at the next free name. -/
def placeBrowse (path : NotePath) (filename : Text) (data : Bytes) : Op NotePath := fun s =>
  match createNote fault .browseCopy path data draw.mtimeNs s with
  | .ok _ s' => .ok path s'
  | .error .fileExists s' =>
    (do
      let taken ← listFolder fault path.folder
      let path : NotePath := ⟨path.folder, uniqueFilename env filename taken⟩
      createNote fault .browseCopyAgain path data draw.mtimeNs
      return path) s'
  | .error e s' => .error e.inNotes s'

/-- The manifest `_create_new` writes. -/
def newManifest (details : Details) (payload : Payload) (path : Option NotePath) : Manifest where
  artifactId := draw.newId
  title := details.title
  origin := details.origin
  receivedAt := details.receivedAt
  tags := details.tags
  url := payload.url?
  source := details.source
  path := path
  currentRevision := 1
  revisions := [payload.revision env draw 1]
  createdAt := draw.now
  removedAt := none
  removedReason := none
  removalCommit := none

/-- The bytes of a new artifact: its first revision, and the browsable copy. -/
def placeNew (payload : Payload) (chosen : Option NotePath) :
    Op (Option NotePath) :=
  match payload, chosen with
  | .file filename _ data, some path => do
    makeRevisionDir fault draw.newId 1
    createRevisionFile fault draw.newId 1 filename data
    let path ← placeBrowse env fault draw path filename data
    return some path
  | _, _ => do
    makeArchive fault draw.newId
    return none

/-- The record of the current revision extracted, written and mirrored. -/
def landRecord (manifest : Manifest) : Op Unit := do
  let record ← extractRecord env manifest draw.now .ok
  writeRecord fault record
  mirrorRecord fault record

/-- The path `_create_new` chooses for the browsable copy. -/
def choosePath (details : Details) (payload : Payload) : Op (Option NotePath) :=
  match payload with
  | .file filename _ _ => do
    let folder := browseFolder env details.receivedAt
    let taken ← listFolder fault folder
    return some ⟨folder, uniqueFilename env filename taken⟩
  | .link _ => pure none

/-- `_create_new`.  Until it is complete, whatever it raises removes the archive and the
record, and the browsable copy once that is there. -/
def createNew (details : Details) (payload : Payload) : Op CreatedArtifact := do
  let chosen ← choosePath env fault details payload
  let path ← onRaise (mapRaised Raised.inArchive (placeNew env fault draw payload chosen))
    (·.dropArtifact draw.newId)
  let manifest := newManifest env draw details payload path
  onRaise
    (mapRaised Raised.inArchive do
      createManifest fault manifest
      landRecord env fault draw manifest)
    fun s =>
      match path with
      | some path => (s.dropArtifact draw.newId).dropNote path
      | none => s.dropArtifact draw.newId
  return ⟨draw.newId, 1, true, path, details.title⟩

/-- `_bring_browse_current`: the browsable copy made the new revision.  A copy a device
changed is left, and the new revision lands at a fresh name beside it. -/
def bringBrowseCurrent (manifest : Manifest) (previous : Revision) (filename : Text)
    (data : Bytes) : Op NotePath := do
  let folder := browseFolder env manifest.receivedAt
  let target := manifest.path
  match target, target.bind (← get).notes.lookup with
  | some target, some (.file current _) =>
    step fault .readBrowse .osError
    if some (env.sha256 current) = previous.sha256 then
      replaceNote fault .browseReplace target data draw.mtimeNs
      return target
    else beside folder
  | some target, none =>
    mapRaised Raised.inNotes (createNote fault .browseCopy target data draw.mtimeNs)
    return target
  | _, _ => beside folder
where
  beside (folder : Text) : Op NotePath := do
    let taken ← listFolder fault folder
    let path : NotePath := ⟨folder, uniqueFilename env filename taken⟩
    mapRaised Raised.inNotes (createNote fault .browseCopyAgain path data draw.mtimeNs)
    return path

/-- The manifest with a revision appended. -/
def revisedManifest (manifest : Manifest) (payload : Payload) (path : Option NotePath) :
    Manifest :=
  { manifest with
    path := path
    currentRevision := manifest.currentRevision + 1
    revisions := manifest.revisions ++ [payload.revision env draw (manifest.currentRevision + 1)]
    url := payload.url?.or manifest.url }

/-- The name of a revision's directory: `f"r{number:04d}"`. -/
def revisionDirName (number : Nat) : String :=
  "r" ++ String.ofList (List.replicate (4 - (Nat.repr number).length) '0') ++ Nat.repr number

/-- The directory of the new revision; one that is there already was left by an interrupted
write, and is the operator's to inspect. -/
def makeFreshRevisionDir (id : Id) (number : Nat) : Op Unit := fun s =>
  match makeRevisionDir fault id number s with
  | .error .fileExists s' => .error (.artifactsFilesystemUnavailable (some
      ("the artifact archive holds " ++ revisionDirName number ++ ", which its manifest does " ++
        "not record; inspect that directory, remove it, then retry"))) s'
  | r => r

/-- The part of `_add_revision` in which `replacement_started` is still false: whatever it
raises, the manifest's own write included, removes the directory it created. -/
def placeRevision (manifest : Manifest) (previous : Revision) (payload : Payload) :
    Op Manifest :=
  let id := manifest.artifactId
  let number := manifest.currentRevision + 1
  match payload with
  | .file filename _ data => do
    makeFreshRevisionDir fault id number
    onRaise
      (do
        createRevisionFile fault id number filename data
        let path ← bringBrowseCurrent env fault draw manifest previous filename data
        let manifest := revisedManifest env draw manifest payload (some path)
        replaceManifest fault manifest
        return manifest)
      (dropRevisionDir id number)
  | .link _ => do
    let manifest := revisedManifest env draw manifest payload manifest.path
    replaceManifest fault manifest
    return manifest

/-- `_add_revision`. -/
def addRevision (manifest : Manifest) (payload : Payload) : Op CreatedArtifact := do
  let previous ← currentRevision manifest
  let manifest ← mapRaised Raised.inArchive do
    let manifest ← placeRevision env fault draw manifest previous payload
    landRecord env fault draw manifest
    return manifest
  return ⟨manifest.artifactId, manifest.currentRevision, true, manifest.path, manifest.title⟩

/-- Whether the artifact holds what the payload would store. -/
def samePayload (manifest : Manifest) (current : Revision) (payload : Payload) : Bool :=
  match payload with
  | .file _ _ data => current.sha256 == some (env.sha256 data)
  | .link url => manifest.url == some url

/-- The record extracted now, and written. -/
def freshRecord (manifest : Manifest) : Op Record := do
  let record ← extractRecord env manifest draw.now .ok
  writeRecord fault record
  return record

/-- The record on disk while it is current, else the one extracted now. -/
def currentRecord (manifest : Manifest) (record : Option Record) : Op Record :=
  match record with
  | some record =>
    if recordIsCurrent env (some record) manifest then pure record
    else freshRecord env fault draw manifest
  | none => freshRecord env fault draw manifest

/-- The replay of `_store_revision`: the record brought current, the row mirrored again. -/
def replay (manifest : Manifest) : Op CreatedArtifact := do
  let record ← readRecord fault manifest.artifactId
  let record ← currentRecord env fault draw manifest record
  mirrorRecord fault record
  return ⟨manifest.artifactId, manifest.currentRevision, false, manifest.path, manifest.title⟩

/-- The manifest a request is about: the one `artifact_id` names, or that of a replay. -/
def findManifest (artifactId : Option Id) (payload : Payload) : Op (Option Manifest) := do
  match artifactId with
  | some id =>
    let manifest ← readManifest fault id
    raiseIf manifest.removedAt.isSome (.artifactMissing id)
    return some manifest
  | none =>
    match findReplay env (← get) payload with
    | some id =>
      let manifest ← readManifest fault id
      return some manifest
    | none => return none

/-- `_store_revision`: decides new, revision or replay, then lands it.  The commit of the
metadata transaction comes last; a failure of it takes no file back. -/
def storeRevision (artifactId : Option Id) (details : Details) (payload : Payload) :
    Op CreatedArtifact :=
  mapRaised Raised.inMetadata <|
    transaction Store.rollback (step fault .commit .database) do
      step fault .connect .database
      match ← findManifest env fault artifactId payload with
      | some manifest =>
        let current ← currentRevision manifest
        if samePayload env manifest current payload then replay env fault draw manifest
        else addRevision env fault draw manifest payload
      | none => createNew env fault draw details payload

end Write

section Operations

variable (env : Env) (fault : Fault) (draw : Draw)

/-- The file or the link of a request: never both, never neither. -/
inductive Upload where
  | file (filename : Text) (mimeType : Option Text) (data : Bytes)
  | link (url : Text)

/-- `CreateArtifact`; `date` is noon of the stated day. -/
structure CreateArtifact where
  title : Option Text
  date : Option Instant
  tags : List Text
  origin : Text
  artifactId : Option Id
  upload : Upload

/-- `Path(filename).stem`. -/
def pathStem (filename : Text) : Text :=
  match rpartition? '.' filename with
  | some (stem, extension) => if stem = [] ∨ extension = [] then filename else stem
  | none => filename

def Upload.payload : Upload → Payload
  | .file filename mimeType data =>
    let filename := artifactFilename env filename
    .file filename (env.mediaType filename mimeType data) data
  | .link url => .link url

def CreateArtifact.details (request : CreateArtifact) : Details where
  title := (request.title.filter (· ≠ [])).getD <|
    match request.upload.payload env with
    | .file filename _ _ => pathStem filename
    | .link url => url
  origin := request.origin
  receivedAt := request.date.getD draw.now
  tags := request.tags
  source := none

/-- `create_artifact`, for a request that names no citing note. -/
def createArtifact (request : CreateArtifact) : Op CreatedArtifact := do
  raiseIf ((request.upload.payload env).sizeBytes > env.artifactMaxBytes)
    (.payloadTooLarge env.artifactMaxBytes)
  storeRevision env fault draw request.artifactId (request.details env draw)
    (request.upload.payload env)

/-- The browsable copy taken away, while it still holds the bytes of the archive. -/
def unlinkBrowse (manifest : Manifest) (current : Revision) : Op Unit := do
  match manifest.path, manifest.path.bind (← get).notes.lookup with
  | some path, some (.file data _) =>
    mapRaised Raised.inNotes do
      step fault .readBrowse .osError
      if some (env.sha256 data) = current.sha256 then
        step fault .unlinkBrowse .osError
        modify (·.dropNote path)
        step fault .syncBrowse .osError
      else pure ()
  | _, _ => pure ()

/-- `_retire`. -/
def retire (manifest : Manifest) (reason : Text) (removalCommit : Option Text) : Op Unit := do
  let id := manifest.artifactId
  let current ← currentRevision manifest
  mapRaised Raised.inMetadata <|
    transaction Store.rollback (step fault .commit .database) do
      step fault .connect .database
      unlinkBrowse env fault manifest current
      let manifest := { manifest with
        removedAt := some draw.now
        removedReason := some reason
        removalCommit := removalCommit.or manifest.removalCommit }
      mapRaised Raised.inArchive do
        replaceManifest fault manifest
        step fault .unlinkRecord .osError
        modify (·.dropRecord id)
      step fault .mirror .database
      modify (·.dropRow id)

/-- `remove_artifact`. -/
def removeArtifact (id : Id) (reason : Text) : Op Unit := do
  let manifest ← readManifest fault id
  raiseIf manifest.removedAt.isSome (.artifactMissing id)
  retire env fault draw manifest reason none

/-- `_verified_bytes` of every revision recorded with a file. -/
def verifyRevisions (id : Id) : List Revision → Op Unit
  | [] => pure ()
  | revision :: revisions => do
    if revision.filename.isSome then
      match revisionBytes (← get) id revision with
      | none => throw .osError
      | some data =>
        raiseIf (data.length ≠ revision.sizeBytes ∨ some (env.sha256 data) ≠ revision.sha256)
          (.artifactsFilesystemUnavailable (some "the archived artifact failed verification"))
    verifyRevisions id revisions

/-- The first loop of `recover_artifacts`. -/
def verifyArchives : List (Id × Manifest) → Op Unit
  | [] => pure ()
  | (id, manifest) :: rest => do
    raiseIf (!isValidId id) (.valueError "invalid artifact archive path")
    raiseIf (manifest.artifactId ≠ id) (.valueError "artifact manifest identity mismatch")
    verifyRevisions env id manifest.revisions
    verifyArchives rest

/-- The state `recover_artifacts` gives an artifact: `missing` while its browsable copy is
absent, and no longer `missing` once it is there. -/
def recoveredState (s : Store) (manifest : Manifest) (record : Option Record) : ArtifactState :=
  let state := (record.map (·.state)).getD .ok
  match manifest.path with
  | some path =>
    match s.notes.lookup path with
    | some (.file _ _) => if state = .missing then .ok else state
    | _ => .missing
  | none => state

/-- The record `recover_artifacts` mirrors: extracted again unless it is current. -/
def recoveredRecord (manifest : Manifest) (record : Option Record) (state : ArtifactState) :
    Op Record :=
  match record with
  | some record =>
    if recordIsCurrent env (some record) manifest then do
      let record := { record with state := state }
      modify (·.setRecord record.id record)
      return record
    else extracted
  | none => extracted
where
  extracted : Op Record := do
    let record ← extractRecord env manifest draw.now state
    modify (·.setRecord record.id record)
    return record

/-- One archive of `recover_artifacts`. -/
def recoverOne (manifest : Manifest) : Op Unit := do
  let id := manifest.artifactId
  if manifest.removedAt.isSome then
    modify fun s => (s.dropRow id).dropRecord id
  else
    let s ← get
    let record := s.records.lookup id
    let record ← recoveredRecord env draw manifest record (recoveredState s manifest record)
    modify (·.setRow record.id record.row)

/-- The second loop of `recover_artifacts`. -/
def recoverEach : List (Id × Manifest) → Op Unit
  | [] => pure ()
  | (_, manifest) :: rest => do
    recoverOne env draw manifest
    recoverEach rest

/-- Rows for archives that no longer exist describe nothing durable. -/
def dropUnknownRows (known : List Id) (s : Store) : Store :=
  (s.rows.keys.filter (· ∉ known)).foldl (fun s id => s.dropRow id) s

/-- `recover_artifacts`: every archive is verified before any row is written. -/
def recoverArtifacts : Op Unit := do
  let s ← get
  let manifests := s.archives.entries.filterMap fun e => e.2.manifest.map fun m => (e.1, m)
  verifyArchives env manifests
  recoverEach env draw manifests
  modify (dropUnknownRows (manifests.map (·.1)))

end Operations

end Coppermind.Artifacts
