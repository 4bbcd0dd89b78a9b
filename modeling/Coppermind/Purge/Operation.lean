import Coppermind.Purge.Effects

/-!
# Preview, confirm and abandon

The operations of a purge.  Every operation holds the exclusive gate, so nothing else of the store
runs beside it.
-/

namespace Coppermind.Purge

open Coppermind.Lib Coppermind.Lib.Task Coppermind.Frontmatter
open Coppermind.Notes (Instant FileBytes)

section Receipts

variable (call : Call) (w : World)

/-- `_load`. -/
def load (folder : Folder) (token : PyStr) : Option Record :=
  if call.blind folder token then none else w.receipt? folder token

/-- `records`. -/
def records (folder : Folder) : List Record :=
  ((w.receipts folder).keys.insertionSort (· ≤ ·)).filterMap (load call w folder)

/-- 64 hexadecimal digits. -/
def isToken (token : PyStr) : Bool :=
  token.length == 64 && token.all (· ∈ PyStr.lit "0123456789abcdef")

/-- `_locate`. -/
def locate (token : PyStr) : Except Raised Folder :=
  if !isToken token then
    .error (.validationFailed "Invalid purge receipt. Run a new preview.")
  else
    match [Folder.root, .done, .abandoned].find? fun folder =>
        ((w.receipts folder).lookup token).isSome with
    | some folder => .ok folder
    | none => .error (.validationFailed "Purge receipt not found. Run a new preview.")

/-- `read`. -/
def readReceipt (token : PyStr) : Except Raised Record := do
  let folder ← locate w token
  match load call w folder token with
  | some record => .ok record
  | none =>
    .error (.validationFailed "This purge receipt is unreadable. Abandon it from Problems.")

/-- `save`. -/
def save (record : Record) : Job Unit := do
  perform effect (.write record) (.osError none)
  look (.sync []) (.osError none) fun _ => ()
  forEach (fun folder => perform effect (.discard folder record.token) (.osError none))
    ([Folder.root, .done, .abandoned].filter (· ≠ record.state.folder))

end Receipts

section Dossiers

variable (env : Env) (call : Call)

/-- `project`. -/
def project (seen : Dossiers.Seen) (id : Text) (m : Memory) : Job Memory := do
  let sight ← catchRaised
    (look (.observe id) (.osError none) fun w => sight env w.disk call.now seen m id)
    fun _ => pure (.kept (m.troubled id))
  match sight with
  | .kept m => pure m
  | .write m block page =>
    catchRaised
      (do
        perform effect (.catalog m.revised) (.osError none)
        perform effect (.page id page) (.osError none)
        pure (m.revised.written id block))
      fun _ => pure (m.revised.troubled id)

/-- `project` of one dossier after the other, and what is done to each in memory afterwards. -/
def projectAll (seen : Dossiers.Seen) (after : Text → Memory → Memory) :
    List Text → Memory → Job Memory
  | [], m => pure m
  | id :: ids, m => do
    let m ← project env call seen id m
    projectAll seen after ids (after id m)

/-- `entities.refresh`. -/
def refresh : Job Unit := do
  let pending ← look .records (.osError none) fun w =>
    (records call w .root).any (·.state.unfinished)
  if pending then pure ()
  else do
    let before ← look .ledger (.osError none) World.ledger
    let (m, seen) ← lookOr .refresh (.osError none) fun w => env.refreshed w call.drawn
    let m ← projectAll env call seen (fun _ m => m) m.ids m
    if m.ledger ≠ before then perform effect (.catalog m.revised) (.osError none) else pure ()
    perform effect .mirror .sqlalchemyError

/-- A record of the context service without the notes. -/
def rewriteBook (ids : List PyStr) (book : Book) : Job Unit := do
  let members ← lookOr (.readBook book) (.osError none) fun w => w.context.read env book
  perform effect (.writeBook book (without ids members)) (.osError none)

/-- One file of `association-corrections/`. -/
def checkCorrection (ids : List PyStr) (name : PyStr) : Job Unit := do
  let note ← lookOr (.readCorrection name) (.osError none) fun w =>
    correctionNote (w.context.corrections.lookup name).join
  if note.any (· ∈ ids) then perform effect (.dropCorrection name) (.osError none) else pure ()

/-- What `purge` takes out of the records of the context service. -/
def forgetNotes (ids : List PyStr) : Job Unit := do
  forEach (rewriteBook env ids) [.finalized, .associations, .calendarFollowups]
  forEach (fun id => perform effect (.dropCompletion id) (.osError none)) ids
  let names ← look .corrections (.osError none) fun w => w.context.corrections.keys
  forEach (checkCorrection ids) names
  let jobs ← lookOr .jobs (.osError none) fun w => w.context.readJobs
  forEach (fun job : EnrichmentJob => perform effect (.dropJob job.id) (.osError none))
    (jobs.filter (·.noteId ∈ ids))
  perform effect .emptyDossiers (.osError none)

/-- `entities.purge`. -/
def purgeEntities (record : Record) : Job Unit := do
  let token := (text? record.token).getD []
  let m ← look .ledger (.osError none) fun w => w.memory call.drawn
  if m.ledger.receipts.any (·.purge = some token) then pure ()
  else do
    let m := (m.scrub env ((record.idsOf .note).filterMap text?)
      ((record.idsOf .entity).filterMap text?) call.now).revised
    forgetNotes env (record.idsOf .note)
    perform effect (.catalog m) (.osError none)
    let m ← projectAll env call [] (fun id m => m.forget id) m.ids m
    perform effect (.catalog (m.noted token).revised) (.osError none)

end Dossiers

section Verification

variable (env : Env) (w : World) (refs : References)

/-- The row of an item, if it is there, is the one that was listed, and nothing uses the item. -/
def resumable (item : Item) : Bool :=
  match item.kind with
  | .entity => (w.entity? item.id).all fun e => some (env.entityDigest e) = item.row
  | .note =>
    !(item.id ∈ refs.ids) && !w.live item.id &&
      (w.note? item.id).all fun n => some (env.noteFingerprint n) = item.row
  | .artifact => !(item.id ∈ w.artifacts)
  | .source =>
    !isProtected w refs item.id &&
      (item.opening.all fun opening => !(opening ∈ refs.ids) && !w.live opening) &&
      (w.source? item.id).all fun s => some (env.sourceFingerprint s) = item.row

/-- One item of `_verify_resume`. -/
def verifyItem (item : Item) : Except Raised Unit :=
  if resumable env w refs item then verifyFiles env w.disk item else .error .purgeConflict

/-- The check inside the transaction. -/
def inUse (item : Item) : Bool :=
  match item.kind with
  | .note => item.id ∈ refs.ids
  | .artifact => item.id ∈ w.artifacts
  | .source => item.id ∈ refs.cited || item.opening.any (· ∈ refs.ids)
  | .entity => false

end Verification

section Operations

variable (env : Env) (call : Call)

/-- Microseconds in a day. -/
def day : Int := 86400000000

/-- `candidates`. -/
def candidates : Job (List Item × Kept) := do
  let days ← look .settings (.osError none) World.retentionDays
  let refs ← lookOr .references (.osError none) fun w => references env w.disk
  let saved ← lookOr .recovery (.osError none) fun w => savedReceipts env w.disk
  let complete ← look .records (.osError none) fun w => records call w .done
  let abandoned ← look .records (.osError none) fun w => records call w .abandoned
  look .rows .sqlalchemyError fun _ => ()
  lookOr .plan (.osError none) fun w =>
    candidatesFrom env w refs (call.now - days * day) saved complete abandoned

/-- `preview`. -/
def preview : Job Record := do
  let existing ← look .records (.osError none) fun w => records call w .root
  match existing.find? (·.state.unfinished) with
  | some record => pure record
  | none => do
    refresh env call
    let (items, kept) ← candidates env call
    let days ← look .settings (.osError none) World.retentionDays
    let record : Record :=
      { token := call.fresh, state := .preview, createdAt := call.now, retentionDays := days
        items := items, kept := some kept, completed := [] }
    save record
    forEach (fun old : Record => perform effect (.discard .root old.token) (.osError none))
      (existing.filter (·.state = .preview))
    pure record

/-- One file of `_unlink`. -/
def unlinkFile (f : Listed) : Job Unit := do
  let present ← lookOr (.compare f) (.osError none) fun w => do
    verifyFile env w.disk f
    return w.disk.has f.place
  if present then do
    perform effect (.unlink f) (.osError (some f.place))
    look (.sync f.place) (.osError none) fun _ => ()
  else pure ()

/-- One directory of `_unlink`: never recursively. -/
def removeDirectory (area : Area) (path : Parts) : Job Unit := do
  let present ← lookOr (.stat (area.at path)) (.osError none) fun w => do
    let place ← resolveOr w.disk area path
    return w.disk.has place
  if present then do
    .step (.rmdir (area.at path)) (effect (.rmdir (area.at path)))
      (fun w => if w.disk.removable (area.at path) then .done ()
        else .raised (.osError (some (area.at path))))
      (.raised (.osError (some (area.at path))))
    look (.sync (area.at path)) (.osError none) fun _ => ()
  else pure ()

/-- `_unlink`. -/
def unlinkItem (item : Item) : Job Unit := do
  forEach (unlinkFile env) item.files
  forEach (removeDirectory item.directoryRoot) (deepestFirst item.directories)

/-- The transaction of a confirmation. -/
def commitRows (record : Record) (resuming : Bool) : Job Unit := do
  look .begin .sqlalchemyError fun _ => ()
  let days ← look .settings (.osError none) World.retentionDays
  raiseIf (!resuming && record.retentionDays ≠ days) .purgeConflict
  let refs ← lookOr .references (.osError none) fun w => references env w.disk
  lookOr .check .sqlalchemyError fun w =>
    if record.items.any (inUse w refs) then .error .purgeConflict else .ok ()
  perform effect (.commit record.items) .sqlalchemyError
  look .acknowledge .sqlalchemyError fun _ => ()

/-- What follows the commit. -/
def removeFiles (record : Record) : Job Unit := do
  forEach (unlinkItem env) record.items
  purgeEntities env call record
  look .ledger (.osError none) fun _ => ()
  perform effect .mirror .sqlalchemyError

def unfinishedText : String :=
  "Purge did not finish. Check storage and database health, " ++
    "then retry this saved list. Git history is unchanged."

/-- The handler of a confirmation: it saves where the purge stands, and raises. -/
def giveUp {α : Type} (record : Record) (e : Raised) : Job α := do
  save { record with error := some unfinishedText }
  .raised e

/-- A confirmation from where its receipt is saved as `applying`. -/
def carryOut (record : Record) (resuming : Bool) : Job Record := do
  let record := { record with state := .applying, error := none }
  let finished := { record with state := .complete, completed := record.ids }
  save record
  catchRaised (commitRows env record resuming)
    (giveUp { record with state := if resuming then .failed else .preview })
  catchRaised (removeFiles env call record) (giveUp { record with state := .failed })
  catchRaised (save finished) (giveUp { finished with state := .failed })
  pure finished

/-- `confirm`. -/
def confirm (token : PyStr) : Job Record := do
  let record ← lookOr .find (.osError none) fun w => readReceipt call w token
  let others ← look .records (.osError none) fun w => records call w .root
  raiseIf (others.any fun r => r.token ≠ token && r.state.unfinished)
    (.validationFailed "Finish the interrupted purge before confirming another list.")
  match record.state with
  | .complete => pure record
  | .abandoned =>
    .raised (.validationFailed "This purge was abandoned. Run a new preview.")
  | .preview => do
    let days ← look .settings (.osError none) World.retentionDays
    raiseIf (record.retentionDays ≠ days) .purgeConflict
    let (items, _) ← candidates env call
    raiseIf (record.items ≠ items) .purgeConflict
    carryOut env call record false
  | _ => do
    let refs ← lookOr .references (.osError none) fun w => references env w.disk
    look .rows .sqlalchemyError fun _ => ()
    lookOr .verify (.osError none) fun w => record.items.forM (verifyItem env w refs)
    carryOut env call record true

/-- The row of an item is still there. -/
def rowHeld (w : World) (item : Item) : Bool :=
  match item.kind with
  | .note => (w.note? item.id).isSome
  | .source => (w.source? item.id).isSome
  | .artifact => item.id ∈ w.artifacts
  | .entity => (w.entity? item.id).isSome

/-- Some of an item is still there, by the rows and `_present`. -/
def held (w : World) (item : Item) : Bool := rowHeld w item || item.places.any w.disk.has

/-- `abandon`. -/
def abandon (token : PyStr) : Job Record := do
  let (folder, found) ← lookOr .find (.osError none) fun w => do
    let folder ← locate w token
    return (folder, load call w folder token)
  match found with
  | none => do
    perform effect (.quarantine folder token) (.osError none)
    look (.sync []) (.osError none) fun _ => ()
    let days ← look .settings (.osError none) World.retentionDays
    pure { token := token, state := .abandoned, createdAt := call.now, retentionDays := days
           items := [], kept := none, completed := [] }
  | some record => do
    raiseIf (!record.state.unfinished)
      (.validationFailed "Only an unfinished purge can be abandoned.")
    let remaining ← look .outcome .sqlalchemyError fun w => record.items.filter (held w)
    let record := { record with
      state := .abandoned
      completed := (record.items.filter (· ∉ remaining)).map Item.id
      remaining := remaining.map Item.id }
    save record
    pure record

def previewFailedText : String :=
  "Purge preview failed. Check unreadable files and storage health, then preview again."

/-- `preview_failure`. -/
def previewFailure : Job Unit :=
  catchRaised
    (do
      let days ← look .settings (.osError none) World.retentionDays
      save
        { token := call.failureToken, state := .preview, createdAt := call.now
          retentionDays := days, items := [], kept := none, completed := []
          error := some previewFailedText })
    fun _ => pure ()

/-- What `operation` raises for a failure of its request; none where it passes it on. -/
def reported? : Raised → Option Raised
  | .sqlalchemyError => some .metadataUnavailable
  | .osError (some place) =>
    if [Area.sources.root].isPrefixOf place then some .sourcesFilesystemUnavailable
    else some .notesFilesystemUnavailable
  | .osError none | .valueError | .frontmatter (.frontmatter _) =>
    some .notesFilesystemUnavailable
  | _ => none

/-- What a request asks for. -/
def answer : Job Record :=
  match call.request with
  | .preview => preview env call
  | .confirm token => confirm env call token
  | .abandon token => abandon call token

/-- `except` in `operation`. -/
def report (e : Raised) : Job Record :=
  match reported? e with
  | none => .raised e
  | some e' =>
    if call.request = .preview then do
      previewFailure call
      .raised e'
    else .raised e'

/-- `operation`. -/
def operation : Job Record := catchRaised (answer env call) (report call)

end Operations

end Coppermind.Purge
