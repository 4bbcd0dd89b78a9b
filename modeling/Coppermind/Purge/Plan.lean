import Coppermind.Purge.Store
import Mathlib.Data.List.ReduceOption

/-!
# The list of a purge

`candidates` is what a preview lists: deleted notes past their retention, sources that nothing
names any more, removed artifacts, what abandoned purges left behind, and dossiers.  `verifyFiles`
and `verifyResume` say whether a receipt may still be carried out.
-/

namespace Coppermind.Purge

open Coppermind.Lib Coppermind.Lib.Text Coppermind.Frontmatter Coppermind.Schema
open Coppermind.Notes (Instant FileBytes)

section Files

variable (env : Env) (d : Disk)

/-- What stands under a folder and is no folder. -/
def filesUnder (area : Area) (path : Parts) : List Parts :=
  (walk d area path).filter fun p => !isDir d (area.at p)

def foldersUnder (area : Area) (path : Parts) : List Parts :=
  (walk d area path).filter fun p => isDir d (area.at p)

/-- `_file`. -/
def listed (area : Area) (path : Parts) : Except Raised Listed := do
  let place ← resolveOr d area path
  match file? d place with
  | some data => .ok ⟨area, path, env.digest data⟩
  | none => .error .valueError

inductive Bundle where
  | empty
  | ok (manifest : Manifest)
  | damaged

def manifestName : PyStr := PyStr.lit "manifest.json"

/-- `_bundle`. -/
def bundle (id : PyStr) : Bundle :=
  if filesUnder d .sources [id] = [] then .empty
  else
    match (file? d (Area.sources.at [id, manifestName])).bind env.manifest with
    | some manifest => .ok manifest
    | none => .damaged

def recoveryFolder : PyStr := PyStr.lit "note-recovery"

/-- The recovery receipts of a note: `{id}-*.json`. -/
def recoveryFiles (id : PyStr) : List Parts :=
  ((names d .state [recoveryFolder]).filter fun name =>
    (id ++ PyStr.lit "-").isPrefixOf name && (PyStr.lit ".json").isSuffixOf name).map
      fun name => [recoveryFolder, name]

/-- `note_history.receipts`, in the order they are read. -/
def savedReceipts : Except Raised (List Saved) :=
  ((names d .state [recoveryFolder]).filter fun name => (PyStr.lit ".json").isSuffixOf name).mapM
    fun name =>
      match (file? d (Area.state.at [recoveryFolder, name])).bind env.recovery with
      | some saved =>
        if isValidId saved.noteId then .ok saved else .error .notesFilesystemUnavailable
      | none => .error .notesFilesystemUnavailable

/-- The newest recovery receipt of a note. -/
def savedOf (saved : List Saved) (id : PyStr) : Option Saved :=
  (saved.filter (·.noteId = id)).foldl
    (fun best s => if best.all (·.recordedAt < s.recordedAt) then some s else best) none

/-- The files a listed file stands beside: what must not stand in its bundle unlisted. -/
def beside (item : Item) : List (Area × Parts) :=
  match item.kind with
  | .source => (filesUnder d .sources [item.id]).map (.sources, ·)
  | .artifact => (filesUnder d .artifacts [item.id]).map (.artifacts, ·)
  | .note => (recoveryFiles d item.id).map (.state, ·)
  | .entity => []

/-- One file of `_verify_files`. -/
def verifyFile (f : Listed) : Except Raised Unit := do
  let place ← resolveOr d f.area f.path
  if d.has place then
    match file? d place with
    | none => .error .valueError
    | some data => if env.digest data ≠ f.hash then .error .purgeConflict else .ok ()
  else .ok ()

/-- `_verify_files`. -/
def verifyFiles (item : Item) : Except Raised Unit := do
  item.files.forM (verifyFile env d)
  if (beside d item).all (· ∈ item.files.map fun f => (f.area, f.path)) then .ok ()
  else .error .purgeConflict

end Files

section Rows

variable (env : Env) (w : World) (refs : References)

namespace World

def note? (id : PyStr) : Option NoteRow := w.notes.find? (·.id = id)

def source? (id : PyStr) : Option SourceRow := w.sources.find? (·.id = id)

/-- A note is live, by its row. -/
def live (id : PyStr) : Bool := (w.note? id).any NoteRow.live

/-- A live note is linked to the source. -/
def linked (id : PyStr) : Bool := w.links.any fun l => l.sourceId = id && w.live l.noteId

/-- The note that a source opened with, by the links. -/
def opening? (id : PyStr) : Option PyStr := (w.links.find? (·.sourceId = id)).map (·.noteId)

def entity? (id : PyStr) : Option Dossiers.Entity :=
  w.ledger.entities.find? fun e => PyStr.ofText e.id = id

end World

/-- Something still names the source. -/
def isProtected (id : PyStr) : Bool :=
  id ∈ refs.cited || w.linked id || w.notes.any fun n => n.live && id ∈ n.sourceIds

/-- When a note was deleted, where its row and its newest recovery receipt agree that it is. -/
def deletedAt? (saved : List Saved) (note : NoteRow) : Option Instant :=
  if note.live ∨ note.id ∈ refs.ids then none
  else
    match savedOf saved note.id with
    | none => some note.updatedAt
    | some receipt =>
      if receipt.contentHash ≠ note.contentHash ∨ receipt.path ≠ note.path then none
      else some (max note.updatedAt receipt.recordedAt)

def orUnspecified (origin : PyStr) : PyStr := if origin = [] then PyStr.lit "Unspecified" else origin

def orLocal (values : List PyStr) : List PyStr :=
  if values = [] then [PyStr.lit "Local notes"] else values

/-- The item of a deleted note. -/
def noteItem (saved : List Saved) (note : NoteRow) (deletedAt : Instant) : Except Raised Item := do
  let associated := note.sourceIds.filterMap w.source?
  let extra := [[recoveryFolder, PyStr.lit "observed", note.id ++ PyStr.lit ".json"],
    [PyStr.lit "filing", note.id ++ PyStr.lit ".json"]]
  let paths := sortedPaths (recoveryFiles w.disk note.id) ++
    extra.filter fun path => w.disk.existsAt (Area.state.at path)
  let files ← paths.mapM (listed env w.disk .state)
  return {
    candidate := {
      kind := .note
      id := note.id
      title := (note.title.filter (· ≠ [])).getD (PyStr.stem note.path.name)
      path := note.path
      origins := orLocal (sortedSet (associated.map fun s => orUnspecified s.origin))
      providers := orLocal (sortedSet (associated.map (·.provider)))
      deletedAt := some deletedAt
      leftover := (savedOf saved note.id).isNone }
    row := some (env.noteFingerprint note)
    files := files
    directories := [] }

/-- The note of a row, where it is deleted since before `cutoff`. -/
def planNote (cutoff : Instant) (saved : List Saved) (note : NoteRow) :
    Except Raised (Option Item) :=
  match deletedAt? refs saved note with
  | none => .ok none
  | some deletedAt =>
    if cutoff < deletedAt then .ok none else some <$> noteItem env w saved note deletedAt

/-- Purges removed the note. -/
def purgedNote (complete abandoned : List Record) (id : PyStr) : Bool :=
  complete.any (fun r => id ∈ r.idsOf .note) ||
    abandoned.any fun r => id ∈ r.idsOf .note && id ∈ r.completed

/-- The note that a source opened with, where that note is proved gone. -/
def provedOpening (complete abandoned : List Record) (source : SourceRow) :
    Bundle → Except Raised (Option PyStr)
  | .damaged => .ok none
  | .ok manifest =>
    match manifest.noteId.filter isValidId with
    | none => .ok none
    | some opening =>
      if opening ∈ refs.ids then .ok none
      else if w.live opening ∨
          ((w.note? opening).isNone ∧ !purgedNote complete abandoned opening) then .ok none
      else if manifest.sourceId ≠ some source.id then .error .valueError
      else .ok (some opening)
  | .empty =>
    match w.opening? source.id with
    | none => .ok none
    | some opening =>
      if (w.note? opening).isNone ∨ w.live opening ∨ opening ∈ refs.ids then .ok none
      else .ok (some opening)

/-- The claim of a source's external id, where it stands. -/
def claimFiles (source : SourceRow) : Except Raised (List Listed) := do
  let path := [env.claimName source.provider source.externalSourceId]
  if w.disk.existsAt (Area.sources.at path) then
    let data ← readBytes w.disk (Area.sources.at path)
    match env.claim data with
    | none => .error .valueError
    | some id =>
      if id ≠ some source.id then .error .valueError
      else
        let file ← listed env w.disk .sources path
        return [file]
  else return []

/-- A generated page of a source, where it stands. -/
def projectionFile (id : PyStr) (projection : PyStr) : Except Raised (List Listed) := do
  match partsOf projection with
  | none => .error .valueError
  | some path =>
    let place ← resolveOr w.disk .notes path
    if w.disk.has place then
      let fields ← fieldsAt env w.disk path
      if managed fields ∧ ((fields.get? "source_id".toList).bind str?) = some id then
        let file ← listed env w.disk .notes path
        return [file]
      else .error .valueError
    else return []

/-- `projection_path` of the manifest, where there is one. -/
def recordedPath : Bundle → List PyStr
  | .ok manifest => (manifest.projectionPath.filter (· ≠ [])).toList
  | _ => []

/-- The item of a source that opened with a note now gone. -/
def sourceItem (source : SourceRow) (state : Bundle) (opening : PyStr) : Except Raised Item := do
  let bundleFiles ← (filesUnder w.disk .sources [source.id]).mapM (listed env w.disk .sources)
  let claims ← claimFiles env w source
  let projections := sortedSet (refs.pagesOf source.id ++ recordedPath state)
  let pages ← projections.mapM (projectionFile env w source.id)
  return {
    candidate := {
      kind := .source
      id := source.id
      title := match projections.head? with
        | some path => PyStr.stem path.name
        | none => source.externalSourceId
      path := projections.headD []
      origins := [orUnspecified source.origin]
      providers := [source.provider]
      leftover := (filesUnder w.disk .sources [source.id]).isEmpty || claims.isEmpty }
    row := some (env.sourceFingerprint source)
    opening := some opening
    files := bundleFiles ++ claims ++ pages.flatten
    directories := foldersUnder w.disk .sources [source.id] ++ [[source.id]] }

/-- `resolve` of a folder and of what stands under it. -/
def resolveTree (area : Area) (path : Parts) : Except Raised Unit := do
  let _ ← resolveOr w.disk area path
  if (walk w.disk area path).all fun p => (resolve w.disk area p).isSome then .ok ()
  else .error .valueError

/-- A source, where nothing names it and the note it opened with is gone. -/
def planSource (complete abandoned : List Record) (source : SourceRow) :
    Except Raised (Option Item) := do
  if isProtected w refs source.id then return none
  if !isValidId source.id then throw .valueError
  resolveTree w .sources [source.id]
  let state := bundle env w.disk source.id
  match ← provedOpening w refs complete abandoned source state with
  | none => return none
  | some opening => some <$> sourceItem env w refs source state opening

/-- `OWNER_REMOVAL_REASONS`. -/
def ownerRemovalReasons : List PyStr :=
  ["removed in Admin", "removed through the API", "deleted in Obsidian"].map PyStr.lit

/-- The names of the archives that have a manifest. -/
def archives : List PyStr :=
  (names w.disk .artifacts []).filter fun name =>
    w.disk.has (Area.artifacts.at [name, manifestName])

/-- The manifest of an archive that its owner removed and no row holds. -/
def removedArchive? (id : PyStr) : Option (Archive × PyStr) :=
  if !isValidId id ∨ id ∈ w.artifacts then none
  else
    match (file? w.disk (Area.artifacts.at [id, manifestName])).bind env.archive with
    | none => none
    | some archive =>
      if archive.artifactId ≠ some id ∨ !archive.isArtifact then none
      else (archive.removedReason.filter (· ∈ ownerRemovalReasons)).map (archive, ·)

/-- The first of the texts that is there and not empty. -/
def firstText (values : List (Option PyStr)) (default : PyStr) : PyStr :=
  ((values.filterMap id).find? (· ≠ [])).getD default

def archiveItem (id : PyStr) (archive : Archive) (reason : PyStr) : Except Raised Item := do
  resolveTree w .artifacts [id]
  let files ← (filesUnder w.disk .artifacts [id]).mapM (listed env w.disk .artifacts)
  return {
    candidate := {
      kind := .artifact
      id := id
      title := firstText [archive.title, archive.filename] id
      path := []
      origins := [firstText [archive.origin] (PyStr.lit "Unspecified")]
      providers := [PyStr.lit "Artifacts"]
      deletedAt := some archive.removedAt
      reason := some reason }
    row := none
    files := files
    directories := foldersUnder w.disk .artifacts [id] ++ [[id]] }

/-- An archive in `_removed_archives`. -/
def planArchive (cutoff : Instant) (id : PyStr) : Except Raised (Option Item) :=
  match removedArchive? env w id with
  | none => .ok none
  | some (archive, reason) =>
    if cutoff < archive.removedAt then .ok none else some <$> archiveItem env w id archive reason

/-- Nothing uses what an abandoned purge still holds. -/
def stillUnused (old : Item) : Bool :=
  match old.kind with
  | .note => (w.note? old.id).isNone && !(old.id ∈ refs.ids)
  | .artifact => !(old.id ∈ w.artifacts)
  | .entity => (w.entity? old.id).isNone
  | .source =>
    (w.source? old.id).isNone && !isProtected w refs old.id &&
      old.opening.all fun opening => !(opening ∈ refs.ids) && !w.live opening

/-- The value, where something stands at the path. -/
def standing {α : Type} (area : Area) (path : Parts) (value : α) : Except Raised (Option α) := do
  let place ← resolveOr w.disk area path
  return if w.disk.has place then some value else none

/-- `_residual`. -/
def residual (old : Item) : Except Raised (Option Item) := do
  let files ← old.files.mapM fun f => standing w f.area f.path f
  let directories ← old.directories.mapM fun path => standing w old.directoryRoot path path
  if files.reduceOption = [] ∧ directories.reduceOption = [] then return none
  let item := { old with
    candidate := { old.candidate with leftover := true }
    row := none
    files := files.reduceOption
    directories := directories.reduceOption }
  match verifyFiles env w.disk item with
  | .ok () => return some item
  | .error .purgeConflict => return none
  | .error e => throw e

/-- What abandoned purges still hold, each with their receipt. -/
def heldItems (abandoned : List Record) : List Item :=
  abandoned.flatMap fun r => r.items.filter (·.id ∈ r.remaining)

/-- The loop over the abandoned receipts; an id is listed once. -/
def planLeftovers : List Item → List Item → Except Raised (List Item)
  | items, [] => .ok items
  | items, old :: rest => do
    if old.id ∈ items.map Item.id ∨ !stillUnused w refs old then planLeftovers items rest
    else
      match ← residual env w old with
      | some item => planLeftovers (items ++ [item]) rest
      | none => planLeftovers items rest

/-- `_plan`. -/
def plan (cutoff : Instant) (saved : List Saved) (complete abandoned : List Record) :
    Except Raised (List Item × Kept) := do
  let notes ← w.notes.mapM (planNote env w refs cutoff saved)
  let sources ← w.sources.mapM (planSource env w refs complete abandoned)
  let removed ← (archives w).mapM (planArchive env w cutoff)
  let items := notes.reduceOption ++ sources.reduceOption ++ removed.reduceOption
  let items ← planLeftovers env w refs items (heldItems abandoned)
  return (items,
    { notesWithinRetention := w.notes.countP fun n => (deletedAt? refs saved n).any (cutoff < ·)
      sourcesInUse := w.sources.countP fun s => isProtected w refs s.id
      artifactsWithinRetention := (archives w).countP fun id =>
        (removedArchive? env w id).any (cutoff < ·.1.removedAt) })

/-- Every fact of an automatic dossier comes from one of these notes. -/
def isOrphan (noteIds : List PyStr) (e : Dossiers.Entity) : Bool :=
  e.automatic && !e.personal && e.redirect.all (·.isEmpty) && !e.facts.isEmpty &&
    e.facts.all fun f =>
      f.origin ≠ .correction && f.evidence.noteId.any fun id => PyStr.ofText id ∈ noteIds

/-- The page of an orphan is as it was projected. -/
def untouchedPage (e : Dossiers.Entity) (place : List PyStr) : Except Raised Bool := do
  let text ← readText w.disk place
  match Dossiers.pageParts? text with
  | none => return false
  | some (head, block) =>
    match Dossiers.ownerWrote env.dossiers.lib head with
    | .error _ => return false
    | .ok wrote => return !wrote && (some block = e.generated || some block = e.pending)

/-- A page that nobody wrote on, or that is retired, may go. -/
def mayGo (retired : Bool) (e : Dossiers.Entity) (place : List PyStr) : Except Raised Bool :=
  if !retired ∧ w.disk.has place then untouchedPage env w e place else .ok true

def pageFiles (path : Parts) (place : List PyStr) : Except Raised (List Listed) :=
  if w.disk.has place then List.singleton <$> listed env w.disk .notes path else .ok []

/-- The item of a dossier. -/
def entityItem (e : Dossiers.Entity) (files : List Listed) : Item where
  candidate := {
    kind := .entity
    id := PyStr.ofText e.id
    title := PyStr.ofText e.name
    path := PyStr.ofText e.path
    origins := [PyStr.lit "Dossiers"]
    providers := [PyStr.lit "Local notes"]
    deletedAt := e.retiredAt }
  row := some (env.entityDigest e)
  files := files
  directories := []

/-- One dossier of `purge_items`. -/
def planEntity (cutoff : Instant) (noteIds : List PyStr) (e : Dossiers.Entity) :
    Except Raised (Option Item) :=
  let retired := e.retiredAt.any (· ≤ cutoff)
  if !retired ∧ !isOrphan noteIds e then .ok none
  else
    match partsOf (PyStr.ofText e.path) with
    | none => .error .valueError
    | some path => do
      let place ← resolveOr w.disk .notes path
      if ← mayGo env w retired e place then
        let files ← pageFiles env w path place
        return some (entityItem env e files)
      else return none

/-- `candidates`, but for the reading of what it starts from. -/
def candidatesFrom (cutoff : Instant) (saved : List Saved) (complete abandoned : List Record) :
    Except Raised (List Item × Kept) := do
  let (items, kept) ← plan env w refs cutoff saved complete abandoned
  let noteIds := (items.filter (·.kind = .note)).map Item.id
  let entities ← w.ledger.entities.mapM (planEntity env w cutoff noteIds)
  return (items ++ entities.reduceOption, kept)

end Rows

end Coppermind.Purge
