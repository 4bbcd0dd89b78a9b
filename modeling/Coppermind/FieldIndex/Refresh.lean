import Coppermind.Lib.Task
import Coppermind.Schema.Keys

/-!
# Rebuilding the field index

`FieldIndex.refresh`, one step for each file it reads or writes and for each statement it waits
for, and `request_rebuild`, which has its turn between them.  The transaction of a pass shows at
its commit; a pass that is cancelled, or whose process is killed, leaves what it had written.

`log` is the history: the requests as they are made, the readings of the passes, the rebuilds they
began and committed or recorded as failed, and what they acknowledged.
-/

namespace Coppermind.FieldIndex

open Coppermind.Lib Coppermind.Lib.Task Coppermind.Schema

/-- What a rebuild indexes of a key of the schema. -/
structure Definition where
  name : Text
  kind : KeyKind
  vocabulary : List Text
deriving DecidableEq

/-- `definitions`. -/
def definitions (keys : List KeyDefinition) : List Definition :=
  keys.map fun k => ⟨k.name, k.kind, k.vocabulary⟩

/-- `SchemaDocument`. -/
structure SchemaDocument where
  revision : Int
  keys : List KeyDefinition

inductive JobState where
  | queued | running | succeeded | failed
deriving DecidableEq

/-- `field-index-job.json`. -/
structure Receipt where
  jobId : Text
  state : JobState
  processed : Nat

abbrev GenerationId := Text

abbrev Token := Text

/-- A row of `field_index_generations`. -/
structure Generation where
  id : GenerationId
  schemaRevision : Int
  definitions : List Definition
  active : Bool

/-- One entry of the history; what a pass did after its reading names the place of the reading. -/
inductive Entry where
  | made (request : Token)
  | read (request : Option Token) (forced : Bool)
  /-- The receipt says that the rebuild is running. -/
  | building (readAt : Nat)
  | committed (generation : GenerationId) (readAt : Nat)
  /-- The receipt says that the rebuild failed. -/
  | failed (readAt : Nat)
  | acknowledged (request : Token) (readAt : Nat)
deriving DecidableEq

structure World where
  schema : SchemaDocument
  /-- The ids of the notes in the mirror, in order. -/
  notes : List Text
  /-- `field-index-request`. -/
  request : Option Token
  job : Option Receipt
  generations : List Generation
  /-- The record of the running pass, in its memory. -/
  record : Receipt
  log : List Entry

/-- The steps of a pass. -/
inductive Site where
  | opened | begin | active | writeReady | endReady | lock | writeRunning | schema | flush | rows
  | index | progress | definitions | deleteActive | commit | answered | writeSucceeded
  | acknowledge | writeFailed | acknowledgeFailed
deriving DecidableEq, Repr

inductive Raised where
  /-- An exception of the filesystem, the database or a timeout. -/
  | failed
  /-- `ValueError("schema changed during rebuild")`. -/
  | schemaChanged

abbrev Op := Task Site World Raised

namespace World

variable (w : World)

def setJob (receipt : Receipt) : World := { w with job := some receipt }

/-- `self.write(record)`, the record in a state. -/
def writeRecord (state : JobState) : World := w.setJob { w.record with state }

def addEntry (e : Entry) : World := { w with log := w.log ++ [e] }

end World

section Pass

-- `filter_digest`.
variable (digest : List Definition → Text)

/-- `target_id`. -/
def targetId (w : World) : Text := digest (definitions w.schema.keys)

/-- `receipt`, where the file was never written too. -/
def receipt (w : World) : Receipt := w.job.getD ⟨targetId digest w, .queued, 0⟩

/-- A pass, and the id it draws for its generation. -/
structure Pass where
  force : Bool
  generation : GenerationId

/-- What a pass has read when it goes to the database, and where the history then stood. -/
structure Opened where
  keys : List Definition
  previous : Receipt
  request : Option Token
  forced : Bool
  readAt : Nat

/-- `forced`. -/
def isForced (force : Bool) (w : World) : Bool :=
  force || w.request.isSome || w.job.any fun r => r.state = .queued || r.state = .running

def openedAt (force : Bool) (w : World) : Opened where
  keys := definitions w.schema.keys
  previous := receipt digest w
  request := w.request
  forced := isForced force w
  readAt := w.log.length

/-- The pass reads the schema, the receipt and the pending request, and starts its record. -/
def opening (force : Bool) : Op Opened :=
  step .opened
    (fun w =>
      { w with
        record := ⟨targetId digest w, .running, 0⟩
        log := w.log ++ [.read w.request (isForced force w)] })
    (fun w => done (openedAt digest force w)) (raised .failed)

/-- `acknowledge_request`: the comparison and the acknowledgment are one step. -/
def acknowledgeRequest (site : Site) (o : Opened) : Op Unit :=
  match o.request with
  | none => done ()
  | some t =>
    act site .failed fun w =>
      if w.request = some t then
        { w with request := none, log := w.log ++ [.acknowledged t o.readAt] }
      else w

/-- The ids in groups of a hundred. -/
def batches (size : Nat) (ids : List Text) : List (List Text) :=
  match ids with
  | [] => []
  | id :: rest => (id :: rest.take (size - 1)) :: batches size (rest.drop (size - 1))
termination_by ids.length

/-- The loop over the mirror, which the transaction keeps as it is: the ids after each group are
looked up behind it. -/
def indexBatches : List (List Text) → Op Unit
  | [] => return
  | ids :: rest => do
    act .index .failed fun w =>
      { w with record := { w.record with processed := w.record.processed + ids.length } }
    act .progress .failed (·.writeRecord .running)
    look .rows .failed fun _ => ()
    indexBatches rest

/-- `session.delete(active)`, where a generation was active. -/
def deleteActive : Option Generation → Op Unit
  | none => return
  | some _ => look .deleteActive .failed fun _ => ()

/-- The commit: the active generation goes, and the new one is active. -/
def commitGeneration (active : Option Generation) (generation : Generation) (readAt : Nat)
    (w : World) : World :=
  { w with
    generations := (w.generations.filter fun g => active.all (·.id != g.id)) ++ [generation]
    log := w.log ++ [.committed generation.id readAt] }

/-- The transaction of a pass that rebuilds, after the active generation was read. -/
def build (pass : Pass) (o : Opened) (active : Option Generation) : Op Unit := do
  look .lock .failed fun _ => ()
  act .writeRunning .failed fun w => (w.writeRecord .running).addEntry (.building o.readAt)
  let revision ← look .schema .failed (·.schema.revision)
  look .flush .failed fun _ => ()
  let ids ← look .rows .failed (·.notes)
  indexBatches (batches 100 ids)
  let now ← look .definitions .failed fun w => definitions w.schema.keys
  raiseIf (now != o.keys) .schemaChanged
  deleteActive active
  act .commit .failed (commitGeneration active ⟨pass.generation, revision, o.keys, true⟩ o.readAt)
  look .answered .failed fun _ => ()
  act .writeSucceeded .failed (·.writeRecord .succeeded)
  acknowledgeRequest .acknowledge o

/-- A pass that finds its generation current. -/
def ready (o : Opened) : Op Unit :=
  if o.previous.state ≠ .succeeded ∨ o.previous.jobId ≠ digest o.keys then do
    act .writeReady .failed (·.writeRecord .succeeded)
    look .endReady .failed fun _ => ()
  else look .endReady .failed fun _ => ()

/-- The `try` of a pass. -/
def rebuild (pass : Pass) (o : Opened) : Op Unit := do
  look .begin .failed fun _ => ()
  let active ← look .active .failed fun w => w.generations.find? (·.active)
  if active.any (·.definitions = o.keys) = true ∧ o.forced = false then ready digest o
  else build pass o active

/-- `refresh`. -/
def refresh (pass : Pass) : Op Unit := do
  let o ← opening digest pass.force
  if o.forced = false ∧ o.previous.jobId = digest o.keys ∧ o.previous.state = .failed then
    return
  else
    catchRaised (rebuild digest pass o) fun _ => do
      act .writeFailed .failed fun w => (w.writeRecord .failed).addEntry (.failed o.readAt)
      acknowledgeRequest .acknowledgeFailed o

end Pass

section Turns

variable (digest : List Definition → Text)

/-- What others do: `request_rebuild`, which also queues the job where no pass holds the lock,
a saved schema, and a change of the mirror. -/
inductive Event where
  | request (token : Token) (queue : Bool)
  | schema (document : SchemaDocument)
  | mirror (notes : List Text)

def Event.apply (e : Event) (w : World) : World :=
  match e with
  | .request token queue =>
    { w with
      request := some token
      job := if queue then some ⟨targetId digest w, .queued, 0⟩ else w.job
      log := w.log ++ [.made token] }
  | .schema document => { w with schema := document }
  | .mirror notes => { w with notes }

def Event.enabled (site : Option (Pass × Site)) : Event → Bool
  | .request _ queue => queue == site.isNone
  | _ => true

/-- A turn: a request, another event, or a step of the one pass that holds the lock. -/
def indexTurn : Scene Site World Raised Unit Pass → Turn Pass Event →
    Scene Site World Raised Unit Pass :=
  turn (Event.apply digest) Event.enabled (refresh digest)

/-- The token of a request is new. -/
def NewToken (scene : Scene Site World Raised Unit Pass) : Turn Pass Event → Prop
  | .event (.request token _) => .made token ∉ scene.world.log
  | _ => True

instance (scene : Scene Site World Raised Unit Pass) :
    (t : Turn Pass Event) → Decidable (NewToken scene t)
  | .event (.request token _) => inferInstanceAs (Decidable (.made token ∉ scene.world.log))
  | .event (.schema _) | .event (.mirror _) | .start _ | .resume | .fail | .kill =>
    .isTrue trivial

end Turns

end Coppermind.FieldIndex
