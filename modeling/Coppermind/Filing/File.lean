import Coppermind.Filing.Plan

/-!
# The filing pass

`file_note`, one step for each thing it reads or writes: the pages of the note's sources are
copied, recorded in the manifest and taken away at their old place, then the note's links are
rewritten and the note moved, and the filing is published last.  A source page that is written
and a note that is moved are files created exclusively, so the pass may stop between the creation
of a file and its bytes.
-/

namespace Coppermind.Filing

open Coppermind.Lib Coppermind.Lib.Text Coppermind.Lib.Task Coppermind.Frontmatter
open Coppermind.Artifacts (NotePath)
open Coppermind.Notes (FileBytes NoteId strOf isTrue idList)
open Coppermind.Reconciler (Review)
open Coppermind.Sources (SourceId pathText ordered)

section Reading

variable (env : Env) (id : NoteId)

/-- A path that `_scan_identities` does not pass over. -/
def isScanned (path : NotePath) : Bool :=
  let relative := PyStr.ofText (pathText path)
  Reconciler.isMarkdown relative && !Reconciler.isIgnored relative &&
    (Reconciler.pathExclusion env.reconcile relative).isNone

/-- The identity a file carries is the note's, `NoteHistory.identity`. -/
def carriesId (entry : Entry) : Bool :=
  match entry with
  | .file (.utf8 text) =>
    match Notes.parse env.lib.yaml text with
    | .ok (frontmatter, _) =>
      (frontmatter.get? env.schema.roles.idKey).any fun v =>
        Schema.str? v == some id && (sourceId? id).isSome
    | .error _ => false
  | _ => false

/-- The files of the tree that carry a note's identity, `_scan_identities`. -/
def followed (w : World) : List NotePath :=
  (w.notes.entries.filter fun e => isScanned env e.1 && carriesId env id e.2).map (·.1)

/-- The state of a row that no read follows. -/
def isGone (row : NoteRow) : Bool := row.state == .missing || row.state == .deleted

/-- `_repair_location`: the row takes the observed path, unless another live row has it. -/
def repairLocation (previous observed : NotePath) (w : World) : World :=
  match w.rows.lookup id with
  | some row =>
    if row.path = previous ∧ row.state = .ok ∧
        (w.rows.entries.all fun r => r.1 == id || r.2.path != observed || isGone r.2) = true then
      w.setRow id { row with path := observed }
    else w
  | none => w

/-- The note's identity followed to the one file that carries it. -/
def follow (look repair : Site) (previous : NotePath) : Op NotePath := do
  match ← Task.look look .notesFilesystemUnavailable (followed env id) with
  | [path] =>
    act repair .metadataUnavailable (repairLocation id previous path)
    return path
  | _ => raised .notFound

/-- `_locate`. -/
def locate (r : Reading) : Op NotePath := do
  match ← look (.row r) .metadataUnavailable (·.rows.lookup id) with
  | none => raised .notFound
  | some row =>
    raiseIf (isGone row) .notFound
    if ← look (.lookAt r) .notesFilesystemUnavailable fun w => (w.file? row.path).isSome then
      return row.path
    else follow env id (.follow r) (.repair r) row.path

/-- `_read`. -/
def readFile (site : Site) (path : NotePath) : Op FileBytes :=
  lookOr site .notesFilesystemUnavailable fun w =>
    match w.file? path with
    | some data => .ok data
    | none => .error .notFound

/-- The document of the bytes read at a path, or of those its identity is followed to. -/
def documentAt (r : Reading) (path : NotePath) (data : FileBytes) : Op Document :=
  match parseNote env id data with
  | .ok (frontmatter, body) => return documentOf env path data frontmatter body
  | .error .notFound => do
    let path ← follow env id (.followAgain r) (.repairAgain r) path
    let data ← readFile (.readAgain r) path
    let (frontmatter, body) ← ofExcept (parseNote env id data)
    return documentOf env path data frontmatter body
  | .error e => raised e

/-- `get_note`. -/
def getNote (r : Reading) : Op Document := do
  let path ← locate env id r
  let data ← readFile (.read r) path
  let document ← documentAt env id r path data
  look (.filingState r) .metadataUnavailable fun _ => ()
  return document

/-- `_bytes_at`: the bytes and the frontmatter of the note, at the caller's version. -/
def bytesAt (site : Site) (path : NotePath) (ifMatch : PyStr) : Op (FileBytes × Entries) := do
  let data ← readFile site path
  let (frontmatter, _) ← ofExcept (parseNote env id data)
  raiseIf (env.lib.hash data != ifMatch) (.versionConflict (env.lib.hash data))
  return (data, frontmatter)

end Reading

section Note

variable (env : Env) (id : NoteId)

/-- The row a write of the note leaves. -/
def mirrored (frontmatter : Entries) (hash : PyStr) (row : NoteRow) : NoteRow :=
  let reviewed := isReviewed env frontmatter
  { row with
    contentHash := hash, reviewed, filed := row.filed && reviewed
    sourceIds := idList (frontmatter.get? env.schema.roles.sourcesKey), state := .ok }

/-- An update of the note's row. -/
def updateRow (f : NoteRow → NoteRow) (w : World) : World :=
  match w.rows.lookup id with
  | some row => w.setRow id (f row)
  | none => w

/-- `record_review`, where a replace changes the mark. -/
def recordReplaced (current written : Entries) : Op Unit :=
  if ((current.get? env.schema.roles.reviewedKey).getD .null).pyEq
      ((written.get? env.schema.roles.reviewedKey).getD .null) then
    return
  else
    step .replaceReview
      (fun w =>
        match recordReview env id written w with
        | .ok w' => w'
        | .error _ => w)
      (fun w =>
        match recordReview env id written w with
        | .ok _ => done ()
        | .error e => raised e)
      (raised .osError)

/-- `replace_note`. -/
def replaceNote (frontmatter : Entries) (body : Text) (ifMatch : PyStr) : Op Document := do
  let sent ← ofExcept (replacementFrontmatter env id frontmatter)
  let path ← locate env id .replace
  let (_, current) ← bytesAt env id (.bytes .replace) path ifMatch
  look .artifactLinks .metadataUnavailable fun _ => ()
  let (written, text) ← ofExcept (replacementText env sent current body)
  look .update .metadataUnavailable fun _ => ()
  -- The new bytes are staged; what stands between the last compare and the rename is the compare.
  let _ ← bytesAt env id .compare path ifMatch
  act .swap .notesFilesystemUnavailable (·.setNote path (.file (.utf8 text)))
  recordReplaced env id current written
  let hash := env.lib.hash (.utf8 text)
  act .replaceCommit .metadataUnavailable (updateRow id (mirrored env written hash))
  return documentOf env path (.utf8 text) written (terminated body)

/-- `path.unlink()`. -/
def unlinkFile (site : Site) (e : Raised) (path : NotePath) : Op Unit :=
  step site (·.dropNote path)
    (fun w => if (w.notes.lookup path).isSome then done () else raised e) (raised e)

/-- `_move_file` of the note. -/
def moveFile (path target : NotePath) : Op Unit :=
  step .link
    (fun w =>
      match w.notes.lookup path, w.notes.lookup target with
      | some e, none => w.setNote target e
      | _, _ => w)
    (fun w =>
      if (w.notes.lookup target).isSome then raised (.pathCollision target)
      else if (w.notes.lookup path).isNone then raised .notesFilesystemUnavailable
      else
        catchRaised (unlinkFile .unlinkNote .notesFilesystemUnavailable path) fun e => do
          act .undoLink e fun w => if (w.notes.lookup path).isSome then w.dropNote target else w
          raised e)
    (raised .notesFilesystemUnavailable)

/-- The stem of a file name, as the collision check of a move compares it. -/
def collides (w : World) (folder : Text) (name : Text) : Bool :=
  match Notes.Folders.FolderTree.stemOf name with
  | some stem =>
    w.notes.entries.any fun e =>
      e.1.folder == folder &&
        (match e.2 with
          | .file _ => true
          | .directory => false) &&
        (Notes.Folders.FolderTree.stemOf e.1.name).any fun other =>
          env.unicode.casefold other == env.unicode.casefold stem
  | none => false

/-- `move_note`. -/
def moveNote (folder : Text) (ifMatch : PyStr) : Op Document := do
  match Notes.Folders.moveFolder env.unicode env.folders folder with
  | .error _ => raised (.validationFailed [])
  | .ok parts =>
    let folder := ['/'].intercalate (env.existingFolder parts)
    let path ← locate env id .move
    let (data, frontmatter) ← bytesAt env id (.bytes .move) path ifMatch
    let target : NotePath := ⟨folder, path.name⟩
    let (_, body) ← ofExcept (parseNote env id data)
    if target = path then
      look (.filingState .move) .metadataUnavailable fun _ => ()
      return documentOf env path data frontmatter body
    let taken ← look .stems .notesFilesystemUnavailable (collides env · folder path.name)
    raiseIf taken (.pathCollision target)
    let occupied ← look .occupied .metadataUnavailable fun w =>
      w.rows.entries.any fun r => r.2.path == target && !isGone r.2
    raiseIf occupied (.pathCollision target)
    let (data, frontmatter) ← bytesAt env id .bytesAgain path ifMatch
    let (_, body) ← ofExcept (parseNote env id data)
    look .flush .metadataUnavailable fun _ => ()
    moveFile path target
    act .moveCommit .metadataUnavailable (updateRow id fun row =>
      { mirrored env frontmatter (env.lib.hash data) row with path := target })
    return documentOf env target data frontmatter body

end Note

section Pages

variable (env : Env)

/-- The attachments of a revision, filed one after the other: the name and the filed path of each. -/
def fileAttachments (id : SourceId) (provider : Text) (revision : Sources.Revision) :
    List Sources.ArtifactEntry → Op (List (Text × Artifacts.Id × NotePath))
  | [] => return []
  | entry :: rest => do
    if isAttachment entry then
      raiseIf (isInvalidFilename entry.name) (.valueError "invalid artifact filename")
      let data ← lookOr (.attachment id entry.name) .osError fun w =>
        match w.archived.lookup (id, revision.revision, entry.name) with
        | some data => .ok data
        | none => .error .osError
      let run := fun w : World =>
        fileSourceArtifact env id entry.name provider entry.mimeType data revision.ingestedAt w.artifacts
      let filed ← step (.fileArtifact id entry.name) (fun w => { w with artifacts := finalState (run w) })
        (fun w =>
          match run w with
          | .ok created _ => done (created.id, created.path.getD ⟨[], "None".toList⟩)
          | .error e _ => raised (.artifact e))
        (raised (.artifact .osError))
      return (entry.name, filed) :: (← fileAttachments id provider revision rest)
    else fileAttachments id provider revision rest

/-- `_verify_revision_artifacts`. -/
def isVerified (w : World) (id : SourceId) (revision : Sources.Revision) : Bool :=
  revision.artifacts.all fun entry =>
    (w.archived.lookup (id, revision.revision, entry.name)).any fun data =>
      env.artifacts.sha256 data == entry.sha256

/-- `_copy`: an exclusive creation, or the very bytes are there already. -/
def copyPage (id : SourceId) (target : NotePath) (data : FileBytes) : Op Unit :=
  step (.createTarget id)
    (fun w =>
      match w.notes.lookup target with
      | none => w.setNote target (.file (.utf8 []))
      | some _ => w)
    (fun w =>
      match w.notes.lookup target with
      | none =>
        catchRaised (act (.fillTarget id) .osError (·.setNote target (.file data))) fun e => do
          act (.unlinkTarget id) e (·.dropNote target)
          raised e
      | some .directory => raised .osError
      | some (.file held) =>
        raiseIf (held != data) (.valueError "filing destination is occupied"))
    (raised .osError)

/-- The filed page: written over itself where it is in place, else copied there. -/
def writePage (item : Item) (original data : FileBytes) : Op Unit :=
  if item.origin = item.target then do
    -- A prior completed file is already reviewed; never replace unexpected bytes.
    let held ← lookOr (.targetRead item.id) .osError fun w =>
      match w.file? item.target with
      | some held => .ok held
      | none => .error .osError
    raiseIf (held != original) (.valueError "existing monthly projection changed")
    if original = data then return
    else act (.replaceTarget item.id) .osError (·.setNote item.target (.file data))
  else copyPage item.id item.target data

/-- The page at its old place goes. -/
def removeOld (item : Item) (original : FileBytes) : Op Unit :=
  if item.origin = item.target then return
  else do
    match ← look (.oldRead item.id) .osError (·.notes.lookup item.origin) with
    | none => return
    | some (.file held) =>
      raiseIf (held != original) (.valueError "source projection changed during filing")
      unlinkFile (.unlinkOld item.id) .osError item.origin
    | some .directory => raised .osError

/-- What the filing of one source leaves for the note: its attachments, and what was placed, each
with its revision. -/
structure Filed where
  attachments : List (SourceId × Text × NotePath)
  artifactIds : List Artifacts.Id
  placed : List (SourceId × Nat)

def Filed.empty : Filed := ⟨[], [], []⟩

/-- The turn of the loop of `file_note` for one source. -/
def placeSource (item : Item) (filed : Filed) : Op Filed := do
  let id := item.id
  let manifestAt := fun site => lookOr site .osError fun w =>
    match w.manifests.lookup id with
    | some m => .ok m
    | none => .error Raised.osError
  let _ ← manifestAt (.manifest id)
  -- The lock of the source's claim.
  let m ← manifestAt (.lock id)
  raiseIf (m.currentRevision != item.revision)
    (.valueError "source changed during filing; pending review is preserved")
  let revision ← ofExcept (manifestRevision m item.revision)
  let verified ← look (.verify id) .sourcesFilesystemUnavailable (isVerified env · id revision)
  raiseIf (!verified) .sourcesFilesystemUnavailable
  let original ← lookOr (.page id) .osError fun w =>
    match w.file? (if (w.notes.lookup item.origin).isNone then item.target else item.origin) with
    | some data => .ok data
    | none => .error .osError
  let (parsed, body) ← ofExcept (parsePage env original)
  raiseIf (!isProjection id item.revision parsed) (.valueError "source projection identity mismatch")
  let links ← fileAttachments env id m.provider revision revision.artifacts
  let text ← ofExcept (filedPage env parsed body (links.map fun l => l.2.2))
  writePage item original (.utf8 text)
  act (.saveManifest id) .osError
    (·.setManifest id
      { m with projectionPath := item.target, filedProjectionPath := some item.target })
  removeOld item original
  return {
    attachments := filed.attachments ++ links.map fun l => (id, l.1, l.2.2)
    artifactIds := (links.map fun l => l.2.1).foldl
      (fun ids artifact => if artifact ∈ ids then ids else ids ++ [artifact]) filed.artifactIds
    placed := filed.placed ++ (id, item.revision) :: links.map fun _ => (id, revision.revision) }

def placeSources : List Item → Filed → Op Filed
  | [], filed => return filed
  | item :: rest, filed => do
    let filed ← placeSource env item filed
    placeSources rest filed

end Pages

section Pass

variable (env : Env) (id : NoteId)

/-- `remember_note`. -/
def rememberNote (r : Reading) (plan : Plan) (note : Document) : Op Plan := do
  let data ← lookOr (.rememberRead r) .osError fun w =>
    match w.file? note.path with
    | some data => .ok data
    | none => .error .osError
  raiseIf (env.lib.hash data != note.contentHash)
    (.valueError "note changed before filing snapshot")
  let plan := plan.remember ⟨note.path, note.contentHash, data⟩
  act (.rememberSave r) .osError (·.setJournal id plan)
  return plan

/-- The rows a publication writes. -/
def publishedRows (approved : Review) (note : Document) : List (PyStr × Option Nat) :=
  (sortedSources note.sources).map fun source => (source, World.approvedFor (some approved) source)

/-- The commit of a publication; none where the note's row is no more what was read. -/
def published (placed : List (SourceId × Nat)) (approved : Review) (note : Document) (w : World) :
    Option World :=
  match w.rows.lookup id with
  | some row =>
    if row.contentHash = note.contentHash ∧ row.reviewed = true ∧ row.path = note.path then
      let ids := sortedSources note.sources
      let rows := publishedRows approved note
      some { w with
        rows := w.rows.insert id { row with filed := true, sourceIds := ids, filedSourceIds := ids }
        noteSources :=
          rows.foldl (fun links r => links.insert (id, r.1) r.2)
            ((w.noteSources.entries.filter fun e => e.1.1 != id).map fun e =>
              (⟨e.1, e.2⟩ : Sigma fun _ : NoteId × PyStr => Option Nat)).toAList
        published := w.published ++
          [{ noteId := id, placed, rows, file := w.notes.lookup note.path
             review := w.reviews.lookup id, since := w.since id }] }
    else none
  | none => none

/-- `_publish`. -/
def publish (placed : List (SourceId × Nat)) (note : Document) : Op Unit := do
  let approved ← lookOr .approved .osError fun w =>
    match w.reviews.lookup id with
    | some review => .ok review
    | none => .error .osError
  step .publish (fun w => (published id placed approved note w).getD w)
    (fun w =>
      match published id placed approved note w with
      | some _ => done ()
      | none => raised (.valueError "note changed before publication"))
    (raised .metadataUnavailable)

/-- The record of the note's review; where there is none, what it implies is saved. -/
def readReview (plan : Option Plan) (manifests : List (SourceId × Manifest)) : Op Review := do
  match ← look .review .osError (·.reviews.lookup id) with
  | some review => return review
  | none =>
    let review := impliedReview plan manifests
    act .saveReview .osError (·.setReview id review)
    return review

/-- The note with its links and embeds rewritten and its artifacts cited, where that changes it. -/
def rewriteNote (plan : Plan) (filed : Filed) (note : Document) : Op Document :=
  let body := env.rewriteEmbeds (relinked plan.items note.body) filed.attachments
  let added := (filed.artifactIds.map PyStr.ofText).filter (· ∉ citedArtifacts env note.frontmatter)
  if body ≠ note.body ∨ added ≠ [] then
    replaceNote env id (withArtifacts env note.frontmatter added) body note.contentHash
  else return note

/-- The note under the folder of its month. -/
def moveUnder (folder : Text) (plan : Plan) (note : Document) : Op (Plan × Document) :=
  if isUnder folder note.path then return (plan, note)
  else do
    let plan := { plan with targetFolder := some folder }
    act .saveTarget .osError (·.setJournal id plan)
    let note ← moveNote env id folder note.contentHash
    return (plan, note)

/-- The last part of `file_note`, once the sources are placed: the note rewritten, moved and
published. -/
def fileRead (month folder : Text) (plan : Plan) (filed : Filed) : Op Bool := do
  let note ← getNote env id .again
  raiseIf (!isReviewed env note.frontmatter ||
    (dayOf env note.frontmatter).map (monthOf env.lib.py.padsYears) != some month)
    (.valueError "note review or date changed during filing")
  raiseIf (!sameSources note.sources plan.items)
    (.valueError "note source associations changed during filing")
  let note ← rewriteNote env id plan filed note
  let plan ← rememberNote env id .again plan note
  let (plan, note) ← moveUnder env id folder plan note
  act .saveComplete .osError (·.setJournal id (plan.completed note))
  publish id filed.placed note
  look .follows .metadataUnavailable fun _ => ()
  return true

/-- `lifecycle.follow` and `lifecycle.finalize`, which may not confirm the note yet. -/
def confirm : Op Unit :=
  if env.lifecycleEnabled then
    look .lifecycle (.valueError "waiting for the reviewed file to remain stable") fun _ => ()
  else return

/-- What a pass knows of a note before it files it. -/
structure Prepared where
  note : Document
  plan : Option Plan
  month : Text
  folder : Text
  ids : List SourceId
  manifests : List (SourceId × Manifest)
  review : Review

/-- The first part of `file_note`, for a reviewed note. -/
def prepare (note : Document) : Op Prepared := do
  let plan ← look .journal .osError (·.journals.lookup id)
  confirm env
  let day ← ofExcept (filingDay env note.frontmatter)
  let ids ← ofExcept (sourceIds note.sources)
  let manifests ← lookOr .manifests .osError (manifestsOf · ids)
  let review ← readReview id plan manifests
  return ⟨note, plan, monthOf env.lib.py.padsYears day, renderedNoteFolder env day, ids, manifests, review⟩

/-- The part of `file_note` that files the note, from a plan rebuilt from the manifests. -/
def fileSources (p : Prepared) : Op Bool := do
  let manifests ← lookOr .manifestsAgain .osError (manifestsOf · p.ids)
  let plan ← rememberNote env id .first (rebuiltPlan env p.plan p.month p.folder p.note manifests) p.note
  act .unfile .metadataUnavailable (updateRow id fun row => { row with filed := false })
  act .savePlan .osError (·.setJournal id plan)
  let filed ← placeSources env plan.items .empty
  fileRead env id p.month p.folder plan filed

/-- The publication of a note that stands where it was filed. -/
def publishAgain (p : Prepared) : Op Bool := do
  publish id [] p.note
  match p.plan with
  | some plan =>
    if plan.settled = plan then return false
    else do
      act .settle .osError (·.setJournal id plan.settled)
      return false
  | none => return false

/-- A pending source revision does not revoke the human note's review, and is not approved. -/
def refuse (p : Prepared) : Op Bool :=
  if isSameFiling p.plan p.folder p.note && p.review.reviewed then do
    publish id [] p.note
    raised .needsReview
  else raised .needsReview

/-- `file_note`. -/
def fileNote : Op Bool := do
  let note ← getNote env id .first
  if !isReviewed env note.frontmatter then return false
  else do
    let p ← prepare env id note
    if isUnapproved p.review p.manifests then refuse id p
    else if isSameFiling p.plan p.folder p.note && isInPlace env p.month p.plan p.manifests then
      publishAgain id p
    else fileSources env id p

end Pass

end Coppermind.Filing
