import Coppermind.Sources.Document

/-!
# Ingesting a source

`ingest` reads the claim its request names: where there is none it creates the source with its
page and its Review note, else it replays the current revision or adds the next one.  A failed
creation removes what it made; a failed revision keeps its directory once the manifest that
names it has been put in place.
-/

namespace Coppermind.Sources

open Coppermind.Lib Coppermind.Lib.Text Coppermind.Frontmatter Coppermind.Schema
open Coppermind.Artifacts (Bytes NotePath RevisionDir isValidId)
open Coppermind.Notes (FileBytes Row NoteId RelPath Values Instant textAdmits jsonAdmits jsonableEntries
  mirrorColumns newRow titleOf)

/-- What `ingest` answers. -/
structure IngestResult where
  sourceId : SourceId
  revision : Nat
  sourceCreated : Bool
  unstoredFields : List String
  noteId : NoteId
  notePath : NotePath
  noteCreated : Bool
  projectionPath : NotePath

/-- The next of what a search that always finds one finds. -/
def found {α : Type} : Option α → Op α
  | some a => pure a
  | none => throw .valueError

/-- The problems of the tags, or the `TypeError` of one that has no hash. -/
def hashedTags {α : Type} : Except TypeError α → Op α
  | .ok a => pure a
  | .error _ => throw (.frontmatter (.python "TypeError"))

/-- What composing a text raises is raised on. -/
def composed {α : Type} : Except Frontmatter.Raised α → Op α
  | .ok a => pure a
  | .error e => throw (.frontmatter e)

/-- The components of a path in the mirror. -/
def splitPath (path : PyStr) : NotePath :=
  let text := path.map Char.ofNat
  match Naming.rpartition? '/' text with
  | some (folder, name) => ⟨folder, name⟩
  | none => ⟨[], text⟩

section Documents

variable (env : Env) (draw : Draw) (request : Request)

def claimOf : Claim := ⟨request.provider, request.externalSourceId, draw.sourceId⟩

/-- `artifact_metadata` of the whole request. -/
def entriesOf : List ArtifactEntry := request.artifacts.map (artifactEntry env)

def identityOf : Text := contentIdentity env (entriesOf env request)

/-- `_jsonable(request.source.metadata)`. -/
def metadataOf : Entries := jsonableEntries env.lib.py request.metadata []

/-- `_revision_document`. -/
def revisionDocument (number : Nat) : Revision where
  revision := number
  ingestedAt := draw.now
  capturedAt := request.capturedAt
  contentIdentity := identityOf env request
  metadata := metadataOf env request
  artifacts := entriesOf env request

/-- `_manifest`. -/
def newManifest (path : NotePath) : Manifest where
  sourceId := draw.sourceId
  provider := request.provider
  externalSourceId := request.externalSourceId
  sourceType := request.sourceType
  origin := request.origin
  noteId := draw.noteId
  currentRevision := 1
  revisions := [revisionDocument env draw request 1]
  projectionPath := path

/-- The manifest with one revision more. -/
def revisedManifest (old : Manifest) (path : NotePath) : Manifest :=
  { old with
    sourceType := request.sourceType
    origin := request.origin
    currentRevision := old.currentRevision + 1
    revisions := old.revisions ++ [revisionDocument env draw request (old.currentRevision + 1)]
    projectionPath := path }

/-- The artifacts with their descriptions. -/
def describedArtifacts : List (ArtifactEntry × Bytes) :=
  request.artifacts.map fun a => (artifactEntry env a, a.data)

/-- `_descriptive_differences`. -/
def descriptiveDifferences (manifest : Manifest) (current : Revision) : List String :=
  (if request.capturedAt = current.capturedAt then [] else ["captured_at"]) ++
  (if (Value.map (metadataOf env request)).pyEq (.map current.metadata) then [] else ["metadata"]) ++
  (if request.sourceType = manifest.sourceType then [] else ["source_type"]) ++
  (if request.origin = manifest.origin then [] else ["origin"]) ++
  (if (entriesOf env request).any fun a =>
      ((current.artifacts.reverse.find? (·.name == a.name)).map (·.mimeType)) != some a.mimeType
    then ["mime_type"] else [])

end Documents

section Mirror

variable (env : Env)

/-- The note row of a file. -/
def noteRow (id : NoteId) (path : NotePath) (title : PyStr) (text : Text) (frontmatter : Entries)
    (moment : Instant) : Values × Row :=
  let values : Values :=
    [⟨.path, PyStr.ofText (pathText path)⟩, ⟨.title, some title⟩,
      ⟨.contentHash, env.lib.hash (.utf8 text)⟩, ⟨.sizeBytes, (FileBytes.utf8 text).length⟩,
      ⟨.mtime, some moment⟩, ⟨.frontmatter, jsonableEntries env.lib.py frontmatter []⟩] ++
    mirrorColumns env.lib.py env.schema frontmatter ++ [⟨.state, .ok⟩]
  (values, newRow id values moment moment)

/-- The source row of a manifest whose current revision is `current`. -/
def sourceRow (manifest : Manifest) (current : Revision) (createdAt : Instant) : SourceRow where
  provider := manifest.provider
  externalSourceId := manifest.externalSourceId
  sourceType := manifest.sourceType
  origin := manifest.origin
  currentRevision := manifest.currentRevision
  contentIdentity := current.contentIdentity
  createdAt := createdAt
  updatedAt := current.ingestedAt

def revisionRow (revision : Revision) : RevisionRow where
  contentIdentity := revision.contentIdentity
  ingestedAt := revision.ingestedAt
  capturedAt := revision.capturedAt
  metadata := revision.metadata

def artifactRow (entry : ArtifactEntry) : ArtifactRow := ⟨entry.mimeType, entry.sha256, entry.sizeBytes⟩

/-- The text columns of a source row take its values. -/
def SourceRow.admitted (row : SourceRow) : Bool :=
  [row.provider, row.externalSourceId, row.sourceType, row.origin].all fun t =>
    textAdmits (PyStr.ofText t)

/-- The columns of a revision's rows take its values. -/
def Revision.admitted (revision : Revision) : Bool :=
  jsonAdmits (.map revision.metadata) && revision.artifacts.all fun a =>
    textAdmits (PyStr.ofText a.name) && textAdmits (PyStr.ofText a.mimeType)

namespace Database

variable (db : Database)

/-- A live row holds the path. -/
def occupied (path : NotePath) : Bool :=
  db.notes.entries.any fun e =>
    e.2.path == PyStr.ofText (pathText path) && e.2.state != .missing && e.2.state != .deleted

/-- A row of another source has this provider and external identifier. -/
def conflicting (provider externalSourceId : Text) : Bool :=
  db.sources.entries.any fun e =>
    e.2.provider == provider && e.2.externalSourceId == externalSourceId

/-- The rows of a revision that are not there yet. -/
def withRevision (id : SourceId) (revision : Revision) : Database :=
  { db with
    revisions :=
      if (db.revisions.lookup (id, revision.revision)).isSome then db.revisions
      else db.revisions.insert (id, revision.revision) (revisionRow revision)
    artifacts := revision.artifacts.foldl (fun artifacts entry =>
      if (artifacts.lookup (id, revision.revision, entry.name)).isSome then artifacts
      else artifacts.insert (id, revision.revision, entry.name) (artifactRow entry)) db.artifacts }

/-- The notes that cite a source in the mirror, or the one of them with an identity. -/
def citing (id : SourceId) (noteId : NoteId) : List (NoteId × RelPath) :=
  (db.links.keys.filter fun link => link.2 == id && link.1 == noteId).filterMap fun link =>
    (db.notes.lookup link.1).map fun row => (link.1, row.path)

end Database

end Mirror

section Files

variable (env : Env) (faults : Faults)

/-- `revision_path.mkdir(exist_ok=False)`. -/
def makeRevisionDir (id : SourceId) (number : Nat) : Op Unit := do
  step faults .makeRevision .osError
  raiseIf ((((← get).bundle id).dirs.lookup number).isSome) .fileExists
  modify fun s => s.setBundle id { s.bundle id with dirs := (s.bundle id).dirs.insert number ∅ }

/-- The files of a revision's directory. -/
def revisionDir (s : Store) (id : SourceId) (number : Nat) : RevisionDir :=
  ((s.bundle id).dirs.lookup number).getD ∅

/-- A file put into a revision's directory. -/
def putFile (id : SourceId) (number : Nat) (name : Text) (data : Bytes) (s : Store) : Store :=
  s.setBundle id { s.bundle id with
    dirs := (s.bundle id).dirs.insert number ((revisionDir s id number).insert name data) }

/-- `create_exclusive_bytes(revision_path / artifact.name, data)`. -/
def createArtifact (id : SourceId) (number : Nat) (artifact : Artifact) : Op Unit :=
  createExclusive faults (.artifact artifact.name)
    (fun s => ((revisionDir s id number).lookup artifact.name).isSome)
    fun written => putFile id number artifact.name (written.bytes artifact.data)

/-- The loop over the artifacts of a request. -/
def createArtifacts (id : SourceId) (number : Nat) : List Artifact → Op Unit
  | [] => pure ()
  | artifact :: rest => do
    createArtifact faults id number artifact
    createArtifacts id number rest

/-- `projection_revision`. -/
def projectionRevision (site : Site) (path : NotePath) (id : SourceId) : Op (Option Int) := do
  step faults site .notesFilesystemUnavailable
  return ((← get).text? path).bind (revisionOfText env id)

/-- `write_projection`: whether it created the page. -/
def writePage (id : SourceId) (path : NotePath) (mtime : Instant)
    (text : Except Frontmatter.Raised Text) : Op Bool :=
  mapRaised Raised.inNotes do
    let text ← composed text
    if ((← get).notes.lookup path).isSome then
      step faults (.pageReplace .staging) .osError
      raiseIf ((← projectionRevision env faults .rereadPage path id).isNone)
        (.projectionNotPlaced path)
      step faults (.pageReplace .replacing) .osError
      modify (·.setNote path (.file (.utf8 text) mtime))
      step faults (.pageReplace .syncing) .osError
      return false
    createExclusive faults .page (fun s => (s.notes.lookup path).isSome)
      fun written s => s.setNote path (written.file text mtime)
    return true

/-- The manifest put over the old one, before its directory is synced. -/
def replaceManifest (id : SourceId) (manifest : Manifest) : Op Unit := do
  step faults (.manifest .staging) .osError
  step faults (.manifest .replacing) .osError
  modify fun s => s.setBundle id { s.bundle id with manifest := some (.whole manifest) }

end Files

section New

variable (env : Env) (faults : Faults) (draw : Draw) (request : Request)

/-- The rows `_ingest_new` adds before anything is on disk but the claim. -/
def insertRows (manifest : Manifest) (values : Values) (row : Row) : Op Unit := do
  let revision := revisionDocument env draw request 1
  let source := sourceRow manifest revision draw.now
  step faults .flushRows .database
  let db := (← get).db
  raiseIf (db.conflicting request.provider request.externalSourceId) (.integrity true)
  raiseIf ((db.sources.lookup draw.sourceId).isSome || (db.notes.lookup row.id).isSome)
    (.integrity false)
  raiseIf (!source.admitted || !jsonAdmits (.map revision.metadata) || !values.admitted) .dataRefused
  step faults .flushArtifacts .database
  raiseIf (!revision.admitted) .dataRefused
  modify fun s => s.setDb { s.db.withRevision draw.sourceId revision with
    sources := s.db.sources.insert draw.sourceId source
    notes := s.db.notes.insert row.id row
    links := s.db.links.insert (row.id, draw.sourceId) draw.now }

/-- The claim's file, exclusive. -/
def createClaim : Op Unit :=
  let name := claimName env request.provider request.externalSourceId
  createExclusive faults .claim (fun s => (s.claims.lookup name).isSome)
    fun written s => s.setClaim name (written.doc (claimOf draw request))

/-- Everything between the claim and the manifest: the rows, the revision's directory and the
page.  It answers the note's text, and the page with whether it was created. -/
def placeSource (path : NotePath) : Op (Text × NotePath × Bool) := do
  step faults .listPending .notesFilesystemUnavailable
  let day := (dateOfNote env draw request).getD (env.localTime draw.now).date
  let page ← found (newProjectionPath env (← get) request.noteTitle day)
  let text ← composed (noteText env draw request page)
  let manifest := newManifest env draw request page
  let (values, row) := noteRow env (PyStr.ofText draw.noteId) path (PyStr.ofText request.noteTitle)
    text (buildFrontmatter env draw request) draw.now
  insertRows env faults draw request manifest values row
  makeRevisionDir faults draw.sourceId 1
  createArtifacts faults draw.sourceId 1 request.artifacts
  let created ← mapRaised (fun
      | .projectionNotPlaced path => .pathCollision path
      | e => e) <|
    writePage env faults draw.sourceId page draw.mtime
      (pageText env draw.sourceId 1 request.noteTitle draw.now (describedArtifacts env request))
  return (text, page, created)

/-- The manifest and the note, both exclusive. -/
def placeNote (path page : NotePath) (text : Text) : Op Unit := do
  createExclusive faults .newManifest
    (fun s => (s.bundle draw.sourceId).manifest.isSome)
    fun written s => s.setBundle draw.sourceId { s.bundle draw.sourceId with
      manifest := some (written.doc (newManifest env draw request page)) }
  mapRaised (fun
      | .fileExists => .pathCollision path
      | .osError => .notesFilesystemUnavailable
      | e => e) <|
    createExclusive faults .note (fun s => (s.notes.lookup path).isSome)
      fun written s => s.setNote path (written.file text draw.mtime)

/-- The `finally` clause of `_ingest_new`, once the claim is there and the note is not: the
claim goes before the page, and the page goes whether or not the claim could. -/
def cleanUp (page : Option NotePath) : Op Unit := do
  modify (removeBundle faults draw.sourceId)
  let name := claimName env request.provider request.externalSourceId
  if !faults .unlinkClaim then modify (·.dropClaim name)
  if let some page := page then
    step faults .unlinkPage .notesFilesystemUnavailable
    modify (·.dropNote page)
  raiseIf (faults .unlinkClaim) (.sourcesFilesystemUnavailable none)

/-- `_ingest_new`. -/
def ingestNew : Op IngestResult := do
  let problems ← hashedTags (noteProblems env draw request)
  raiseIf (problems ≠ []) (.validationFailed problems)
  step faults .listReview .notesFilesystemUnavailable
  let path ← found (notePath env draw request (← get))
  step faults .occupied .database
  raiseIf ((← get).db.occupied path) (.pathCollision path)
  let page ← mapRaised (fun
      | .integrity true => .sourceClaimMissing
      | e => e.inSources) do
    createClaim env faults draw request
    let (text, page, created) ←
      onRaiseRun (placeSource env faults draw request path) (cleanUp env faults draw request none)
    onRaiseRun (placeNote env faults draw request path page text)
      (cleanUp env faults draw request (if created then some page else none))
    pure page
  return {
    sourceId := draw.sourceId, revision := 1, sourceCreated := true, unstoredFields := []
    noteId := PyStr.ofText draw.noteId, notePath := path, noteCreated := true
    projectionPath := page }

end New

section Existing

variable (env : Env) (faults : Faults) (draw : Draw) (request : Request)

/-- `_claimed_source`. -/
def claimedSource (claim : Doc Claim) : Op SourceId :=
  match claim with
  | .torn => throw (.sourcesFilesystemUnavailable (some "the external-id claim is unreadable"))
  | .whole claim =>
    if claim.provider ≠ request.provider ∨ claim.externalSourceId ≠ request.externalSourceId ∨
        !isValidId claim.sourceId then
      throw (.sourcesFilesystemUnavailable (some "the external-id claim is invalid"))
    else pure claim.sourceId

/-- `_read_json` of the manifest, and what `_ingest_existing` checks of it. -/
def readManifest (id : SourceId) : Op Manifest := do
  step faults .readManifest (.sourcesFilesystemUnavailable (some "the source manifest is unreadable"))
  match (← get).manifest? id with
  | none => throw (.sourcesFilesystemUnavailable (some "the source manifest is unreadable"))
  | some manifest =>
    raiseIf (manifest.sourceId ≠ id || manifest.provider ≠ request.provider ||
      manifest.externalSourceId ≠ request.externalSourceId)
      (.storeError "the external-id claim and source manifest disagree")
    return manifest

/-- `_manifest_revision` and `_manifest_artifacts` of the current revision. -/
def currentRevision (manifest : Manifest) : Op Revision := do
  raiseIf (manifest.currentRevision = 0) (.sourcesFilesystemUnavailable
    (some "the source manifest has an invalid current_revision"))
  match manifest.revisions.filter (·.revision = manifest.currentRevision) with
  | [revision] =>
    raiseIf revision.artifacts.isEmpty (.sourcesFilesystemUnavailable
      (some "the source manifest has invalid artifacts"))
    return revision
  | _ => throw (.sourcesFilesystemUnavailable
      (some "the source manifest has inconsistent revisions"))

/-- The bytes of an artifact of a revision. -/
def artifactBytes (s : Store) (id : SourceId) (number : Nat) (name : Text) : Option Bytes :=
  ((s.bundle id).dirs.lookup number).bind (·.lookup name)

/-- `_verify_revision_artifacts`. -/
def verifyArtifacts (id : SourceId) (number : Nat) : List ArtifactEntry → Op Unit
  | [] => pure ()
  | entry :: rest => do
    let e := Raised.sourcesFilesystemUnavailable (some "the current source revision artifact")
    step faults (.verifyArtifact entry.name) e
    match artifactBytes (← get) id number entry.name with
    | none => throw e
    | some data => raiseIf (env.sha256 data ≠ entry.sha256) e
    verifyArtifacts id number rest

/-- `_read_revision_artifacts`. -/
def readArtifacts (id : SourceId) (number : Nat) :
    List ArtifactEntry → Op (List (ArtifactEntry × Bytes))
  | [] => pure []
  | entry :: rest => do
    let e := Raised.sourcesFilesystemUnavailable
      (some "the current source revision changed while it was being read")
    step faults (.readArtifact entry.name) e
    match artifactBytes (← get) id number entry.name with
    | none => throw e
    | some data => return (entry, data) :: (← readArtifacts id number rest)

/-- The note a file holds. -/
structure Snapshot where
  text : Text
  frontmatter : Entries
  body : Text
  mtime : Instant

/-- A file of the tree that carries the identity and cites the source. -/
def linkedFile (id : SourceId) (noteId : Text) (file : NotePath × Entry) :
    Option (NotePath × Snapshot) :=
  match file.2 with
  | .file (.utf8 text) mtime =>
    if !".md".toList.isSuffixOf file.1.name || faults (.readNote file.1) then none
    else
      match Notes.parse env.lib.yaml text with
      | .error _ => none
      | .ok (frontmatter, body) =>
        match frontmatter.get? env.schema.roles.sourcesKey,
            frontmatter.get? env.schema.roles.idKey with
        | some (.seq _ cited), some (.str carried) =>
          if cited.any (·.isText id) && isValidId carried && carried == noteId then
            some (file.1, ⟨text, frontmatter, body, mtime⟩)
          else none
        | _, _ => none
  | _ => none

/-- `_linked_note`, of the note the manifest names. -/
def linkedNote (id : SourceId) (noteId : Text) : Op (NotePath × Option Snapshot) := do
  raiseIf (!isValidId noteId) (.storeError "invalid original ingest note identity")
  step faults .linkedNote .database
  match (← get).db.citing id (PyStr.ofText noteId) with
  | [(_, path)] => return (splitPath path, none)
  | _ =>
    step faults .listNotes .notesFilesystemUnavailable
    let files := (← get).notes.entries.map fun e => (e.1, e.2)
    match files.filterMap (linkedFile env faults id noteId) with
    | [(path, snapshot)] => return (path, some snapshot)
    | _ => throw (.storeError "the durable source claim does not resolve to exactly one note")

/-- `_ensure_source_mirror`. -/
def ensureSourceMirror (manifest : Manifest) (current : Revision) : Op Unit := do
  let id := manifest.sourceId
  let createdAt := (manifest.revisions.head?.map (·.ingestedAt)).getD current.ingestedAt
  let db := (← get).db
  match db.sources.lookup id with
  | none =>
    let row := sourceRow manifest current createdAt
    raiseIf (db.conflicting manifest.provider manifest.externalSourceId)
      (.storeError "the source mirror conflicts with the durable external-id claim")
    raiseIf (!row.admitted) .dataRefused
    modify fun s => s.setDb { s.db with sources := s.db.sources.insert id row }
  | some old =>
    let row := { sourceRow manifest current old.createdAt with
      provider := old.provider, externalSourceId := old.externalSourceId }
    raiseIf (!row.admitted) .dataRefused
    modify fun s => s.setDb { s.db with sources := s.db.sources.replace id row }
  raiseIf (manifest.revisions.any (!·.admitted)) .dataRefused
  modify fun s => s.setDb (manifest.revisions.foldl (fun db revision => db.withRevision id revision)
    s.db)

/-- `_ensure_mirror`. -/
def ensureMirror (manifest : Manifest) (current : Revision) (path : NotePath)
    (snapshot : Option Snapshot) : Op Unit := do
  step faults .mirror .database
  ensureSourceMirror manifest current
  let noteId := PyStr.ofText manifest.noteId
  if ((← get).db.notes.lookup noteId).isNone then
    match snapshot with
    | none => throw (.storeError "the linked note mirror is incomplete")
    | some file =>
      let (values, row) := noteRow env noteId path
        (titleOf file.body (PyStr.ofText path.name)) file.text file.frontmatter file.mtime
      raiseIf (!values.admitted) .dataRefused
      modify fun s => s.setDb { s.db with notes := s.db.notes.insert noteId row }
  if ((← get).db.links.lookup (noteId, manifest.sourceId)).isNone then
    let createdAt := (manifest.revisions.head?.map (·.ingestedAt)).getD current.ingestedAt
    modify fun s => s.setDb
      { s.db with links := s.db.links.insert (noteId, manifest.sourceId) createdAt }

/-- `session.get(Note, note_id)`: the title and the day a page takes from the note's row. -/
def noteTitleDay (noteId : NoteId) : Op (Text × Date) := do
  step faults .getNote .database
  match (← get).db.notes.lookup noteId with
  | none => throw (.storeError "the linked note mirror is incomplete")
  | some row =>
    return (((row.cells .title).getD []).map Char.ofNat,
      (row.cells .date).getD (env.localTime draw.now).date)

/-- The path of a page that is to be written anew. -/
def freshPage (title : Text) (day : Date) : Op NotePath := do
  step faults .listPending .notesFilesystemUnavailable
  found (newProjectionPath env (← get) title day)

/-- The path a page is written to: the recorded one where it holds the source's page. -/
def pageFor (manifest : Manifest) (held : Option Int) (title : Text) (day : Date) : Op NotePath :=
  if held.isSome then pure manifest.projectionPath else freshPage env faults title day

/-- The page of a replay: the one recorded where it stands, else one written now. -/
def replayPage (manifest : Manifest) (current : Revision) : Op (NotePath × Bool) := do
  let id := manifest.sourceId
  let held ← projectionRevision env faults .readPage manifest.projectionPath id
  if held = some (current.revision : Int) then return (manifest.projectionPath, false)
  let (title, day) ← noteTitleDay env faults draw (PyStr.ofText manifest.noteId)
  let path ← pageFor env faults manifest held title day
  let artifacts ← readArtifacts faults id current.revision current.artifacts
  let created ← writePage env faults id path draw.mtime
    (pageText env id current.revision title current.ingestedAt artifacts)
  return (path, created)

/-- The end of a replay: the manifest is told where the page is. -/
def recordPage (manifest : Manifest) (page : NotePath) (created : Bool) : Op Unit :=
  mapRaised Raised.inSources do
    if manifest.projectionPath ≠ page then
      onRaiseRun
        (replaceManifest faults manifest.sourceId { manifest with projectionPath := page })
        (if created then do
          step faults .unlinkPage .notesFilesystemUnavailable
          modify (·.dropNote page)
        else pure ())
      step faults (.manifest .syncing) .osError

/-- The files of a new revision, up to the manifest that names it. -/
def placeRevision (manifest : Manifest) (number : Nat) : Op (Text × NotePath) := do
  let id := manifest.sourceId
  createArtifacts faults id number request.artifacts
  let (title, day) ← noteTitleDay env faults draw (PyStr.ofText manifest.noteId)
  let held ← projectionRevision env faults .readPage manifest.projectionPath id
  let page ← pageFor env faults manifest held title day
  replaceManifest faults id (revisedManifest env draw request manifest page)
  return (title, page)

/-- The rows of a new revision. -/
def insertRevisionRows (manifest : Manifest) (number : Nat) : Op Unit := do
  let id := manifest.sourceId
  let revision := revisionDocument env draw request number
  step faults .flushRevision .database
  match (← get).db.sources.lookup id with
  | none => throw (.storeError "the source mirror could not be rebuilt")
  | some old =>
    let row : SourceRow := { old with
      sourceType := request.sourceType, origin := request.origin, currentRevision := number
      contentIdentity := identityOf env request, updatedAt := draw.now }
    raiseIf (((← get).db.revisions.lookup (id, number)).isSome) (.integrity false)
    raiseIf (!row.admitted || !revision.admitted) .dataRefused
    modify fun s => s.setDb { s.db.withRevision id revision with
      sources := s.db.sources.replace id row }

/-- The part of `_ingest_existing` that adds a revision.  Its directory is removed again unless
the manifest that names it is in place. -/
def addRevision (manifest : Manifest) (notePath : NotePath) : Op IngestResult := do
  let id := manifest.sourceId
  let number := manifest.currentRevision + 1
  mapRaised (fun
      | .fileExists => .incompleteRevision id number
      | e => e.inSources) (makeRevisionDir faults id number)
  let page ← mapRaised Raised.inSources do
    let (title, page) ← onRaise (placeRevision env faults draw request manifest number)
      (removeRevision faults id number)
    step faults (.manifest .syncing) .osError
    let _ ← writePage env faults id page draw.mtime
      (pageText env id number title draw.now (describedArtifacts env request))
    pure page
  insertRevisionRows env faults draw request manifest number
  return {
    sourceId := id, revision := number, sourceCreated := true, unstoredFields := []
    noteId := PyStr.ofText manifest.noteId, notePath, noteCreated := false, projectionPath := page }

/-- The part of `_ingest_existing` that answers a replay. -/
def replay (manifest : Manifest) (current : Revision) (notePath : NotePath) : Op IngestResult := do
  let (page, created) ← replayPage env faults draw manifest current
  recordPage faults manifest page created
  return {
    sourceId := manifest.sourceId, revision := manifest.currentRevision, sourceCreated := false
    unstoredFields := descriptiveDifferences env request manifest current
    noteId := PyStr.ofText manifest.noteId, notePath, noteCreated := false, projectionPath := page }

/-- `_ingest_existing`. -/
def ingestExisting (claim : Doc Claim) : Op IngestResult := do
  let id ← claimedSource request claim
  let manifest ← readManifest faults request id
  let current ← currentRevision manifest
  let replaying := contentIdentity env current.artifacts == identityOf env request
  (if replaying then verifyArtifacts env faults id current.revision current.artifacts else pure ())
  let (path, snapshot) ← linkedNote env faults id manifest.noteId
  ensureMirror env faults manifest current path snapshot
  if replaying then replay env faults draw request manifest current path
  else addRevision env faults draw request manifest path

/-- `ingest`. -/
def ingest : Op IngestResult := do
  raiseIf (request.payloadSize > env.ingestMaxBytes) (.payloadTooLarge env.ingestMaxBytes)
  let name := claimName env request.provider request.externalSourceId
  mapRaised Raised.inMetadata <|
    transaction Store.rollback (step faults .commit .database) do
      step faults .connect .database
      step faults .readClaim (.sourcesFilesystemUnavailable none)
      match (← get).claims.lookup name with
      | none => ingestNew env faults draw request
      | some claim => ingestExisting env faults draw request claim

end Existing

section Samples

open Coppermind.Notes (plainEntry plainSchema plainLibraries)

/-- A date and time as it is written in a block. -/
def sampleDatetime (text : Text) : Option DateTime := do
  let (year, month, day, hour, minute, second) ← localDatetime? text
  DateTime.make? year month day hour minute second

/-- A scalar of a plain block. -/
def blockScalar (text : Text) : Value :=
  if text = [] then .null
  else if text = "true".toList then .bool true
  else if text = "false".toList then .bool false
  else if text.all Char.isDigit && text.length < 20 then
    .int (text.foldl (fun n c => n * 10 + (c.toNat - 48)) 0)
  else (sampleDatetime text).elim (.str text) .timestamp

/-- The entries of a block of lines `key: value` and, under a key, `  - item`. -/
def blockEntries : List Text → Entries
  | [] => []
  | line :: rest =>
    match plainEntry line with
    | some (key, _) =>
      let items := rest.takeWhile fun l => "  - ".toList.isPrefixOf l
      let value :=
        if items = [] then blockScalar (strip ((line.dropWhile (· ≠ ':')).drop 1))
        else .seq false (items.map fun l => blockScalar (strip (l.drop 4)))
      (key, value) :: blockEntries rest
    | none => blockEntries rest

/-- The text of a scalar. -/
def blockText : Value → Text
  | .str s => s
  | .bool b => if b then "true".toList else "false".toList
  | .int i => (toString i).toList
  | .timestamp d => Notes.formatNoteTime false d
  | _ => []

/-- The lines of an entry. -/
def blockLines : Value × Value → Text
  | (key, .seq _ items) => blockText key ++ ":\n".toList ++
      items.flatMap fun item => "  - ".toList ++ blockText item ++ [lf]
  | (key, value) => blockText key ++ ": ".toList ++ blockText value ++ [lf]

/-- YAML of plain blocks, without quoting. -/
def blockYaml : RoundTrip where
  load := fun block => .ok (.mapping ⟨some block, blockEntries (splitLines block)⟩)
  loadGuessIndent := fun block =>
    .ok (.mapping ⟨some block, blockEntries (splitLines block)⟩, none, none)
  keyPosition := fun _ _ => (0, 0)
  dump := fun _ m => .ok (m.entries.flatMap blockLines)

/-- An archive whose digests are the bytes themselves. -/
def sampleSources : Env where
  schema := plainSchema
  closedTags := none
  reviewFolder := "Review".toList
  sourcesFolder := "Sources".toList
  datedTypes := []
  ingestMaxBytes := 1000
  localTime := fun n => ⟨⟨2026, 1, n.toNat + 1⟩, 3, 4, 5, 0, some 0⟩
  lib :=
    { plainLibraries with
      yaml := blockYaml
      py :=
        { plainLibraries.py with
          datetimeFromIso := sampleDatetime
          isoformat := fun
            | .datetime d => PyStr.ofText (Notes.formatNoteTime false d ++ "+00:00".toList)
            | .timestamp d => PyStr.ofText (Notes.formatNoteTime false d)
            | _ => [] } }
  unicode := ⟨id, List.map Char.toUpper, List.map Char.toLower⟩
  sha256 := fun data => data.map fun b => Char.ofNat b.toNat
  dumps := fun
    | .seq _ [.str a, .str b] => (a ++ ',' :: b).map fun c => c.toNat.toUInt8
    | .seq _ items => items.flatMap fun
      | .seq _ [.str a, .str b] => (a ++ ':' :: b).map fun c => c.toNat.toUInt8
      | _ => []
    | _ => []
  artifactText := fun data _ => some (data.map fun b => Char.ofNat b.toNat)

def sampleRequest (title : String) : Request where
  provider := "mail".toList
  externalSourceId := "1".toList
  sourceType := "email".toList
  origin := []
  capturedAt := none
  metadata := []
  artifacts := [⟨"a.txt".toList, "text/plain".toList, [104, 105]⟩]
  noteTitle := title.toList
  noteBody := []
  noteFrontmatter := []
  payloadSize := 10
  names_nodup := by decide
  artifacts_ne_nil := by decide
  keys_str := by simp

def sampleDraw : Draw :=
  ⟨"01ARZ3NDEKTSV4RRFFQ69G5FAV".toList, "01ARZ3NDEKTSV4RRFFQ69G5FAW".toList, 1, 2⟩

def otherDraw : Draw :=
  ⟨"01ARZ3NDEKTSV4RRFFQ69G5FAX".toList, "01ARZ3NDEKTSV4RRFFQ69G5FAY".toList, 3, 4⟩

end Samples

end Coppermind.Sources
