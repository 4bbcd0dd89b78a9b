import Coppermind.Dossiers.Page
import Coppermind.Lib.Task

/-!
# The entity service

The operations on the catalog and the pages, one step for each file they read or write and for
each statement they wait for. The ledger in memory is part of the world while an operation runs,
and `load` replaces it; the service lock lets one operation run at a time. What lies outside (the
pages, which devices write too, the notes, the corrections of contacts) changes between any two
steps.
-/

namespace Coppermind.Dossiers

open Coppermind.Lib Coppermind.Lib.Task Coppermind.Frontmatter
open Coppermind.Notes (Instant FileBytes)

/-- What the service does not hold. -/
structure Outside where
  pages : Text → Option FileBytes
  /-- `notes`: the reviewed notes in the mirror. -/
  notes : List NoteRef
  /-- The frontmatter keys that hold attendees and contacts. -/
  fields : List Text
  /-- The records of the old email view, with their addresses. -/
  legacy : List (Text × Option Text)
  corrections : List (Text × ContactCorrection)
  /-- `contacts.addresses`. -/
  addresses : Text → List Text
  getNote : Text → Except Raised NoteDocument
  /-- A saved purge is unfinished. -/
  purgePending : Bool
  now : Instant

structure World where
  catalog : Option Ledger
  draft : Draft
  outside : Outside

/-- The steps, by the page they are about where there is one. -/
inductive Site where
  | purgePending | load | ids | look | decide | exists (id : Text) | readPage (id : Text)
  | observe (id : Text) | problem (id : Text) | contribute | migrate | plan (id : Text)
  | expect (id : Text) | revise | save | create (id : Text) | stage (id : Text)
  | compare (id : Text) | commit (id : Text) | settle (id : Text) | mirror | scrub | context
  | forget (id : Text) | receipt
deriving DecidableEq

/-- The pages a pass has read: none for one that was not there. -/
abbrev Seen := List (Text × Option FileBytes)

def Seen.get? (seen : Seen) (id : Text) : Option (Option FileBytes) :=
  (seen.find? (·.1 = id)).map (·.2)

abbrev Job (α : Type) := Task Site World Raised α

/-- A step that changes the ledger in memory, or raises. -/
def edit (site : Site) (e : Raised) (f : Draft → Outside → Except Raised Draft) : Job Unit :=
  .step site
    (fun w => match f w.draft w.outside with
      | .ok draft => { w with draft }
      | .error _ => w)
    (fun w => match f w.draft w.outside with
      | .ok _ => .done ()
      | .error e' => .raised e')
    (.raised e)

/-- A change of one dossier in memory. -/
def editEntity (site : Site) (id : Text) (f : Entity → Entity) : Job Unit :=
  edit site .valueError fun d _ => .ok { d with ledger := d.ledger.modify id f }

/-- `load`. -/
def load : Job Unit :=
  act .load .valueError fun w => { w with draft := { w.draft with ledger := w.catalog.getD {} } }

/-- `save`. -/
def save : Job Unit := do
  edit .revise .osError fun d _ =>
    .ok { d with ledger := { d.ledger with revision := d.ledger.revision + 1 } }
  act .save .osError fun w => { w with catalog := some w.draft.ledger }

/-- `self.purge_pending()`. -/
def purgePending : Job Bool := look .purgePending .osError (·.outside.purgePending)

/-- `if self.purge_pending(): raise`. -/
def requireNoPurge : Job Unit := do
  let pending ← purgePending
  raiseIf pending
    (.validationFailed ["Finish or abandon the interrupted retention purge first"])

/-- The identifiers of the dossiers, in the order of the ledger. -/
def entityIds : Job (List Text) := look .ids .valueError fun w => w.draft.ledger.entities.map (·.id)

/-- The mirror in PostgreSQL, which the model leaves out. -/
def mirror : Job Unit := act .mirror .metadataUnavailable id

section Pages

variable (env : Env)

/-- `observe`. -/
def observe (id : Text) : Job (Option FileBytes) := do
  let path ← lookOr (.exists id) .osError fun w =>
    match w.draft.ledger.find? id with
    | none => .error .valueError
    | some entity => .ok (entity.path, (w.outside.pages entity.path).isSome)
  if path.2 then
    let raw ← lookOr (.readPage id) .osError fun w =>
      match w.outside.pages path.1 with
      | some raw => .ok raw
      | none => .error .osError
    edit (.observe id) .valueError fun d o =>
      match d.ledger.find? id with
      | none => .error .valueError
      | some entity => observePage env entity raw o.now d
    pure (some raw)
  else
    edit (.observe id) .valueError fun d o =>
      match d.ledger.find? id with
      | none => .error .valueError
      | some entity => .ok (observeGone entity o.now d)
    pure none

/-- What a projection is about to do. -/
inductive Plan where
  | nothing
  | settled
  | write (path block wanted : Text)

/-- The block of a dossier and the page it belongs on. -/
def planOf (id : Text) (raw : Option FileBytes) (ledger : Ledger) : Except Raised Plan :=
  match ledger.find? id with
  | none => .error .valueError
  | some entity =>
    if entity.retiredAt.isSome ∧ raw.isNone then .ok .nothing
    else
      match pagePrefix env.lib entity raw with
      | .error _ => .error .valueError
      | .ok head =>
        let block := render entity ledger false
        if raw = some (.utf8 (head ++ block)) then .ok .settled
        else .ok (.write entity.path block (head ++ block))

def putPage (path : Text) (page : FileBytes) (w : World) : World :=
  { w with outside := { w.outside with pages := Function.update w.outside.pages path (some page) } }

/-- `create_exclusive_bytes`. -/
def createPage (id path wanted : Text) : Job Unit :=
  .step (.create id)
    (fun w => if (w.outside.pages path).isSome then w else putPage path (.utf8 wanted) w)
    (fun w => if (w.outside.pages path).isSome then .raised .osError else .done ())
    (.raised .osError)

/-- A staged page takes the place of the one that was read, if that is still there; false where
it is not. -/
def replacePage (id path wanted : Text) (raw : FileBytes) : Job Bool := do
  act (.stage id) .osError (fun w => w)
  let same ← lookOr (.compare id) .osError fun w =>
    match w.outside.pages path with
    | some found => .ok (found = raw : Bool)
    | none => .error .osError
  if same then
    act (.commit id) .osError (putPage path (.utf8 wanted))
    pure true
  else pure false

/-- The body of `project` behind the reading of the page. -/
def projectRead (id : Text) (raw : Option FileBytes) : Job Unit := do
  let plan ← lookOr (.plan id) .valueError fun w => planOf env id raw w.draft.ledger
  match plan with
  | .nothing => pure ()
  | .settled => editEntity (.settle id) id fun e => { e with problem := none }
  | .write path block wanted =>
    editEntity (.expect id) id fun e => { e with pending := some block }
    save
    let written ← match raw with
      | none => do
        createPage id path wanted
        pure true
      | some raw => replacePage id path wanted raw
    if written then
      editEntity (.settle id) id fun e =>
        { e with generated := some block, pending := none, problem := none }
    else pure ()

def problemText (text : String) (id : Text) : Job Unit :=
  editEntity (.problem id) id fun e => { e with problem := some text.toList }

/-- `project` without the pages of a pass. -/
def project (id : Text) : Job Unit :=
  catchRaised
    (do
      let raw ← observe env id
      projectRead env id raw)
    fun _ => problemText
      "Dossier page could not be projected; check its identity, delimiter and path" id

/-- `project` with the page the pass has read. -/
def projectSeen (seen : Seen) (id : Text) : Job Unit :=
  match seen.get? id with
  | none => project env id
  | some raw =>
    catchRaised (projectRead env id raw)
      fun _ => problemText
        "Dossier page could not be projected; check its identity, delimiter and path" id

def projectAll : List Text → Job Unit
  | [] => pure ()
  | id :: ids => do
    project env id
    projectAll ids

def projectAllSeen (seen : Seen) : List Text → Job Unit
  | [] => pure ()
  | id :: ids => do
    projectSeen env seen id
    projectAllSeen seen ids

/-- The device edits are read before anything else of a pass. -/
def observeAll : List Text → Seen → Job Seen
  | [], seen => pure seen
  | id :: ids, seen => do
    let read ← catchRaised
      (do
        let raw ← observe env id
        pure (some raw))
      fun _ => do
        problemText "Dossier page identity, delimiter or path needs repair" id
        pure none
    observeAll ids (match read with
      | some raw => seen ++ [(id, raw)]
      | none => seen)

end Pages

section Operations

variable (env : Env)

/-- `refresh_locked`. -/
def refreshLocked : Job Unit := do
  requireNoPurge
  let before ← look .look .valueError fun w => w.draft.ledger
  let ids ← entityIds
  let seen ← observeAll env ids []
  edit .contribute .metadataUnavailable fun d o => contribute env o.fields o.notes o.now d
  edit .migrate .osError fun d o =>
    .ok { d with ledger := migrate env o.legacy o.corrections o.addresses o.now d.ledger }
  let ids ← entityIds
  projectAllSeen env seen ids
  let after ← look .look .valueError fun w => w.draft.ledger
  if after = before then pure () else save
  mirror

/-- `refresh`. -/
def refresh : Job Unit := do
  let pending ← purgePending
  if pending then pure ()
  else do
    load
    refreshLocked env

/-- `create`. -/
def create (request : EntityInput) : Job Unit := do
  requireNoPurge
  load
  edit .decide .valueError fun d o =>
    match make env d request false with
    | .error e => .error e
    | .ok (draft, id) =>
      .ok { draft with ledger := draft.ledger.receipt id "created".toList o.now {} }
  save
  let ids ← entityIds
  projectAll env (ids.drop (ids.length - 1))
  save
  mirror

/-- What `change` makes of the ledger, and the dossiers it then projects; none for a preview. -/
def decideChange (id : Text) (change : EntityChange) (d : Draft) (o : Outside) :
    Except Raised (Option (Draft × List Text)) :=
  match d.ledger.find? id with
  | none => .error (.notFound id)
  | some entity =>
    if entity.version ≠ change.version then .error (.versionConflict entity.version)
    else if (entity.retiredAt.isSome ∨ entity.redirect.isSome) ∧ change.action ≠ .restore then
      .error (.validationFailed ["restore this dossier before changing it"])
    else if change.action.isIdentity then
      match identity env d entity change o.now with
      | .error e => .error e
      | .ok none => .ok none
      | .ok (some draft) => .ok (some (draft, draft.ledger.entities.map (·.id)))
    else
      match changeOne env d entity change o.getNote (o.pages entity.path).isSome o.now with
      | .error e => .error e
      | .ok draft =>
        let ledger := draft.ledger.receipt id change.action.name o.now { factId := change.factId }
        .ok (some ({ draft with ledger }, [id]))

/-- `change`. -/
def change (id : Text) (request : EntityChange) : Job Unit := do
  load
  refreshLocked env
  let ids ← .step .decide
    (fun w => match decideChange env id request w.draft w.outside with
      | .ok (some (draft, _)) => { w with draft }
      | _ => w)
    (fun w => match decideChange env id request w.draft w.outside with
      | .ok (some (_, ids)) => .done (some ids)
      | .ok none => .done none
      | .error e => .raised e)
    (.raised .metadataUnavailable)
  match ids with
  | none => pure ()
  | some ids => do
    save
    projectAll env ids
    save
    mirror

/-- A fact of the note follows it to its new bytes. -/
def followFact (noteId path hash before body : Text) (fact : Fact) : Fact :=
  if fact.evidence.noteId = some noteId ∧ fact.evidence.noteHash = before ∧
      (fact.evidence.quote = [] ∨ fact.evidence.quote <:+: body) then
    { fact with evidence := { fact.evidence with noteHash := hash, path := path } }
  else fact

def followEntity (noteId path hash before body : Text) (entity : Entity) : Entity :=
  { entity with
    facts := entity.facts.map (followFact noteId path hash before body)
    version := entity.version + (entity.facts.filter fun fact =>
      fact.evidence.noteId = some noteId && fact.evidence.noteHash = before &&
        (fact.evidence.quote = [] || fact.evidence.quote <:+: body)).length }

/-- `follow`. -/
def follow (noteId path hash before body : Text) : Job Unit := do
  let pending ← purgePending
  if pending then pure ()
  else do
    load
    let old ← look .look .valueError fun w => w.draft.ledger
    edit .decide .valueError fun d _ =>
      .ok { d with ledger := { d.ledger with
        entities := d.ledger.entities.map (followEntity noteId path hash before body) } }
    let new ← look .look .valueError fun w => w.draft.ledger
    if new = old then pure () else save

/-- The pages of the dossiers a purge leaves; the projection of a retired one is forgotten. -/
def purgePages : List Text → Job Unit
  | [] => pure ()
  | id :: ids => do
    project env id
    editEntity (.forget id) id fun e =>
      if e.retiredAt.isSome then { e with generated := none, pending := none } else e
    purgePages ids

/-- `purge`. -/
def purge (noteIds entityIds : List Text) (token : Text) : Job Unit := do
  load
  let done ← look .look .valueError fun w =>
    w.draft.ledger.receipts.any fun r => r.purge = some token
  if done then pure ()
  else do
    edit .scrub .valueError fun d o =>
      .ok { d with ledger := purgeLedger env noteIds entityIds o.now d.ledger }
    act .context .osError id
    save
    let ids ← Dossiers.entityIds
    purgePages env ids
    edit .receipt .valueError fun d _ =>
      .ok { d with ledger := { d.ledger with
        receipts := d.ledger.receipts ++ [{ purge := some token }] } }
    save

/-- A call of the service. -/
inductive Call where
  | create (request : EntityInput)
  | change (id : Text) (request : EntityChange)
  | refresh
  | follow (noteId path hash before body : Text)
  | purge (noteIds entityIds : List Text) (token : Text)

/-- What a call runs. -/
def Call.job : Call → Job Unit
  | .create request => Dossiers.create env request
  | .change id request => Dossiers.change env id request
  | .refresh => Dossiers.refresh env
  | .follow noteId path hash before body => Dossiers.follow noteId path hash before body
  | .purge noteIds entityIds token => Dossiers.purge env noteIds entityIds token

/-- The empty store. -/
def World.initial (outside : Outside) : World := ⟨none, ⟨{}, 0⟩, outside⟩

/-- Everything outside may become anything. -/
def replaceOutside (outside : Outside) (w : World) : World := { w with outside }

end Operations

end Coppermind.Dossiers
