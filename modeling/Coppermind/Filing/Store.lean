import Coppermind.Lib.Task
import Coppermind.Artifacts.Write
import Coppermind.Reconciler.Pass
import Coppermind.Sources.Document

/-!
# What a filing pass reads and writes

The notes tree, the source manifests and their archived bytes, the journal of a filing, the record
of a review, and the rows of a note.  `Event` is what anyone else does to them while a pass runs:
a device edits the tree, a review is recorded, a revision of a source arrives.

The last two fields of `World` are its history: the revisions that arrived since a note's last
recorded review, and what each publication wrote and found.
-/

namespace Coppermind.Filing

open Coppermind.Lib Coppermind.Lib.Text Coppermind.Frontmatter Coppermind.Schema
open Coppermind.Artifacts (Bytes NotePath)
open Coppermind.Notes (FileBytes NoteId NoteState Libraries)
open Coppermind.Reconciler (Review SourceManifest)
open Coppermind.Sources (SourceId)

/-- What filing reads and writes of `manifest.json`. -/
structure Manifest where
  provider : Text
  currentRevision : Nat
  revisions : List Sources.Revision
  projectionPath : NotePath
  filedProjectionPath : Option NotePath

/-- One entry of `sources` in a plan. -/
structure Item where
  id : SourceId
  origin : NotePath
  linkFrom : Option NotePath
  linkFroms : List NotePath
  target : NotePath
  revision : Nat
deriving DecidableEq

/-- One entry of `copies` in a plan. -/
structure Copy where
  path : NotePath
  hash : PyStr
  content : FileBytes
deriving DecidableEq

/-- `filing/<note>.json`. -/
structure Plan where
  month : Option Text
  folder : Option Text
  sources : Option (List Item)
  complete : Bool
  attempts : Nat
  copies : List Copy
  handMovedFrom : Option NotePath
  targetFolder : Option Text
  contentHash : Option PyStr
  error : Option PyStr
deriving DecidableEq

/-- What the notes tree holds at a path. -/
inductive Entry where
  | file (data : FileBytes)
  | directory
deriving DecidableEq

/-- What filing reads and writes of a row of `notes`. -/
structure NoteRow where
  path : NotePath
  contentHash : PyStr
  reviewed : Bool
  filed : Bool
  state : NoteState
  sourceIds : List PyStr
  filedSourceIds : List PyStr
deriving DecidableEq

/-- What a publication wrote, beside what it found: the pages and attachments the pass placed,
each with its revision, the rows of `note_sources` with their approved revisions, the note's file,
the record of its review, and the revisions that arrived since. -/
structure Publication where
  noteId : NoteId
  placed : List (SourceId × Nat)
  rows : List (PyStr × Option Nat)
  file : Option Entry
  review : Option Review
  since : List (SourceId × Nat)

structure World where
  notes : AList fun _ : NotePath => Entry
  manifests : AList fun _ : SourceId => Manifest
  /-- `sources/<id>/rNNNN/<name>`. -/
  archived : AList fun _ : SourceId × Nat × Text => Bytes
  reviews : AList fun _ : NoteId => Review
  journals : AList fun _ : NoteId => Plan
  rows : AList fun _ : NoteId => NoteRow
  /-- `note_sources`: the approved revision. -/
  noteSources : AList fun _ : NoteId × PyStr => Option Nat
  /-- The artifact archive; its part of the notes tree is the artifacts folder. -/
  artifacts : Artifacts.Store
  since : NoteId → List (SourceId × Nat)
  published : List Publication

/-- What filing takes from the settings and from other code. -/
structure Env where
  schema : FrontmatterSchema
  closedTags : Option (List Text)
  notesFolder : Text
  sourcesFolder : Text
  attachmentsFolder : Text
  folders : Notes.Folders.FolderSettings
  lifecycleEnabled : Bool
  reconcile : Reconciler.Settings
  lib : Libraries
  unicode : Naming.Unicode
  artifacts : Artifacts.Env
  /-- `_existing_folder`, over the folders of the notes filesystem. -/
  existingFolder : List Text → List Text
  /-- `rewrite_embeds`, of a body and the filed attachments. -/
  rewriteEmbeds : Text → List (SourceId × Text × NotePath) → Text
  /-- What the filing of one attachment draws from the outside. -/
  draw : SourceId → Text → Artifacts.Draw

/-- Whose reading of a note a step belongs to. -/
inductive Reading where
  | first | again | replace | move
deriving DecidableEq, Repr

/-- The steps of a filing pass. -/
inductive Site where
  | row (r : Reading)
  | lookAt (r : Reading)
  | follow (r : Reading)
  | repair (r : Reading)
  | read (r : Reading)
  | followAgain (r : Reading)
  | repairAgain (r : Reading)
  | readAgain (r : Reading)
  | filingState (r : Reading)
  | journal
  | lifecycle
  | manifests
  | review
  | saveReview
  | manifestsAgain
  | rememberRead (r : Reading)
  | rememberSave (r : Reading)
  | unfile
  | savePlan
  | manifest (id : SourceId)
  | lock (id : SourceId)
  | verify (id : SourceId)
  | page (id : SourceId)
  | attachment (id : SourceId) (name : Text)
  | fileArtifact (id : SourceId) (name : Text)
  | targetRead (id : SourceId)
  | replaceTarget (id : SourceId)
  | createTarget (id : SourceId)
  | fillTarget (id : SourceId)
  | unlinkTarget (id : SourceId)
  | saveManifest (id : SourceId)
  | oldRead (id : SourceId)
  | unlinkOld (id : SourceId)
  | bytes (r : Reading)
  | artifactLinks
  | update
  | compare
  | swap
  | replaceReview
  | replaceCommit
  | stems
  | occupied
  | bytesAgain
  | flush
  | link
  | unlinkNote
  | undoLink
  | moveCommit
  | saveTarget
  | saveComplete
  | approved
  | publish
  | settle
  | follows
deriving DecidableEq, Repr

/-- The steps at which the pass waits: other tasks of the store have their turn there. -/
def Site.awaits : Site → Bool
  | .row _ | .follow _ | .repair _ | .followAgain _ | .repairAgain _ | .filingState _
  | .lifecycle | .unfile | .lock _ | .fileArtifact _ _ | .artifactLinks | .update | .replaceCommit
  | .occupied | .flush | .moveCommit | .publish | .follows => true
  | _ => false

/-- The source whose lock the pass holds before a step. -/
def Site.holds : Site → Option SourceId
  | .verify id | .page id | .attachment id _ | .fileArtifact id _ | .targetRead id
  | .replaceTarget id | .createTarget id | .fillTarget id | .unlinkTarget id | .saveManifest id
  | .oldRead id | .unlinkOld id => some id
  | _ => none

inductive Raised where
  | osError
  | valueError (reason : String)
  | needsReview
  | notFound
  | noteUnparseable
  | versionConflict (hash : PyStr)
  | validationFailed (problems : List PyStr)
  | pathCollision (path : NotePath)
  | metadataUnavailable
  | notesFilesystemUnavailable
  | sourcesFilesystemUnavailable
  | artifact (e : Artifacts.Raised)
  | frontmatter (e : Frontmatter.Raised)
  | python (className : String)

/-- An operation of the store, step by step. -/
abbrev Op := Task Site World Raised

namespace World

variable (w : World)

def setNote (path : NotePath) (e : Entry) : World := { w with notes := w.notes.insert path e }

def dropNote (path : NotePath) : World := { w with notes := w.notes.erase path }

def setManifest (id : SourceId) (m : Manifest) : World :=
  { w with manifests := w.manifests.insert id m }

def setJournal (id : NoteId) (plan : Plan) : World :=
  { w with journals := w.journals.insert id plan }

def setRow (id : NoteId) (row : NoteRow) : World := { w with rows := w.rows.insert id row }

/-- The file at a path. -/
def file? (path : NotePath) : Option FileBytes :=
  match w.notes.lookup path with
  | some (.file data) => some data
  | _ => none

/-- A saved record of a review; what arrived since it has not arrived yet. -/
def setReview (id : NoteId) (review : Review) : World :=
  { w with reviews := w.reviews.insert id review, since := Function.update w.since id [] }

/-- The revision the record of a note's review names for a source, `approved.get(source_id)`. -/
def approvedFor (review : Option Review) (source : PyStr) : Option Nat :=
  (review.bind fun r => (r.sources.find? (·.1 == source)).map (·.2)).join

/-- What `record_review` finds of a source's manifest. -/
def sourceManifest (source : PyStr) : SourceManifest :=
  match w.manifests.lookup (source.map Char.ofNat) with
  | some m => if source.encodable then .revision m.currentRevision else .unreadable
  | none => .unreadable

end World

/-- `record_review`; what raises saves nothing. -/
def recordReview (env : Env) (id : NoteId) (frontmatter : Entries) (w : World) :
    Except Raised World :=
  match Reconciler.reviewOf env.schema w.sourceManifest frontmatter with
  | .ok review => .ok (w.setReview id review)
  | .error _ => .error (.python "TypeError")

/-- A revision of a source as it arrives: its entry, the bytes of its artifacts, and its page. -/
structure Arrival where
  provider : Text
  entry : Nat → Sources.Revision
  bytes : List (Text × Bytes)
  page : FileBytes
  path : NotePath

/-- What others do while a pass runs. -/
inductive Event where
  /-- A device writes the file at a path, or removes it. -/
  | edit (path : NotePath) (data : Option FileBytes)
  /-- `record_review` of a note, with the frontmatter it is given. -/
  | review (id : NoteId) (frontmatter : Entries)
  /-- A write of the note, or the reconciler, leaves its row so. -/
  | mirror (id : NoteId) (row : NoteRow)
  /-- A new source, or a new revision of one. -/
  | ingest (id : SourceId) (arrival : Arrival)

/-- The manifest with one more revision. -/
def Manifest.revised (m : Manifest) (arrival : Arrival) : Manifest :=
  { m with
    currentRevision := m.currentRevision + 1
    revisions := m.revisions ++ [arrival.entry (m.currentRevision + 1)] }

/-- The manifest an arrival leaves. -/
def Arrival.manifest (arrival : Arrival) (before : Option Manifest) : Manifest :=
  match before with
  | some m => m.revised arrival
  | none =>
    { provider := arrival.provider, currentRevision := 1, revisions := [arrival.entry 1]
      projectionPath := arrival.path, filedProjectionPath := none }

/-- The bytes of an arrival, in the directory of their revision. -/
def Arrival.archive (arrival : Arrival) (id : SourceId) (revision : Nat)
    (archived : AList fun _ : SourceId × Nat × Text => Bytes) :
    AList fun _ : SourceId × Nat × Text => Bytes :=
  arrival.bytes.foldl (fun archived b => archived.insert (id, revision, b.1) b.2) archived

def Event.apply (env : Env) (e : Event) (w : World) : World :=
  match e with
  | .edit path (some data) => w.setNote path (.file data)
  | .edit path none => w.dropNote path
  | .review id frontmatter =>
    match recordReview env id frontmatter w with
    | .ok w' => w'
    | .error _ => w
  | .mirror id row => w.setRow id row
  | .ingest id arrival =>
    let m := arrival.manifest (w.manifests.lookup id)
    { w with
      manifests := w.manifests.insert id m
      archived := arrival.archive id m.currentRevision w.archived
      notes := w.notes.insert m.projectionPath (.file arrival.page)
      since := fun note => (id, m.currentRevision) :: w.since note }

/-- An event has its turn before a step: a device any time, another task of the store where the
pass waits, and an ingest of a source only while the pass does not hold the source's lock. -/
def Event.enabled (site : Option (NoteId × Site)) (e : Event) : Bool :=
  match site, e with
  | none, _ => true
  | some _, .edit _ _ => true
  | some (_, site), .ingest id _ => site.awaits && site.holds != some id
  | some (_, site), _ => site.awaits

end Coppermind.Filing
