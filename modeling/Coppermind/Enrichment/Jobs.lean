import Coppermind.Lib.Text
import Coppermind.Lib.Assoc
import Coppermind.Lib.Run
import Mathlib.Data.List.Sort

/-!
# Enrichment jobs

A job is a file that every operation loads, changes and saves whole.  The worker holds the job it
runs over its awaits without the context lock; an approval holds the one it applies under the
lock.  At the end of a review `complete` dismisses the remaining jobs of the note under its own
lock.  What an await brings, the store's and the provider's answers, is part of the action.
-/

namespace Coppermind.Enrichment

open Coppermind.Lib

abbrev JobId := Text

abbrev NoteId := Text

inductive JobState where
  | queued
  | running
  | suggested
  | failed
  | stale
  | rejected
  | applying
  | applied
deriving DecidableEq, Repr

/-- The authorization that `approve` records, with all it says besides the index. -/
structure Approval (A : Type) where
  index : Nat
  rest : A
deriving DecidableEq, Repr

inductive Decision (A : Type) where
  | approved (approval : Approval A)
  | reject (index : Nat)
  | rejectRemaining
  /-- Review completed; remaining proposals dismissed. -/
  | dismissed
deriving DecidableEq, Repr

/-- The suggestion a decision is about. -/
def Decision.index {A : Type} : Decision A → Option Nat
  | .approved approval => some approval.index
  | .reject index => some index
  | .rejectRemaining | .dismissed => none

/-- `EnrichmentJob`, with what its states and decisions depend on. -/
structure Job (S A : Type) where
  id : JobId
  noteId : NoteId
  state : JobState := .queued
  attempts : Nat := 0
  attemptLimit : Option Nat := none
  error : Text := []
  result : Option (List S) := none
  decisions : List (Decision A) := []
  pendingApproval : Option (Approval A) := none
deriving DecidableEq, Repr

/-- The suggestions that are decided. -/
def indices {A : Type} (decisions : List (Decision A)) : List Nat :=
  decisions.filterMap Decision.index

/-- The enrichment assignment. -/
structure Assignment where
  enabled : Bool
  paused : Bool
  attempts : Nat

structure Config where
  enrichment : Assignment
  lifecycleEnabled : Bool

/-- Where the worker awaits in `run_job`, with the job it holds. -/
inductive Worker (S A : Type) where
  | idle
  /-- `check_calendars`; nothing is saved yet. -/
  | checking (job : Job S A)
  | gathering (job : Job S A)
  | requesting (job : Job S A)
  | confirming (job : Job S A) (result : List S)

/-- Where the operation that has the context lock awaits, with the job it holds. -/
inductive Holder (S A : Type) where
  /-- `approve` before it saves. -/
  | evaluating (job : Job S A) (index : Nat)
  /-- `finish_approval`. -/
  | finishing (job : Job S A)

/-- Where `retry_job` stands between its uses of the lock. -/
inductive Retry where
  | queueing (noteId : NoteId) (force : Bool)
  | resetting (id : JobId)

structure World (S A : Type) where
  config : Config
  jobs : AList fun _ : JobId => Job S A
  worker : Worker S A
  holder : Option (Holder S A)
  retries : Nat → Option Retry
  /-- The requests made for a job since its creation or its last retry. -/
  requests : JobId → Nat

def World.initial {S A : Type} (config : Config) : World S A where
  config := config
  jobs := ∅
  worker := .idle
  holder := none
  retries := fun _ => none
  requests := fun _ => 0

/-- What an await of the worker brings. -/
inductive Reply (S : Type) where
  /-- The exception leaves the tick. -/
  | raised
  /-- An exception that `run_job` turns into the job's state and error. -/
  | refused (stale : Bool) (error : Text)
  | ok
  | answered (result : List S)

/-- What the awaits of an approval bring. -/
inductive Verdict (A : Type) where
  /-- An exception that leaves the job as it is. -/
  | refused
  | stale
  | approved (rest : A)
  | written (changedDate : Bool)

inductive Action (S A : Type) where
  | configure (config : Config)
  /-- `queue_note`, under the lock and with the assignment it has read. -/
  | enqueue (noteId : NoteId) (force : Bool) (found : JobId) (assignment : Assignment)
  /-- The loop over the jobs at the end of `tick`. -/
  | sweep (assignment : Assignment)
  | work (reply : Reply S)
  | approve (id : JobId) (index : Nat)
  | resume (id : JobId)
  | proceed (verdict : Verdict A)
  | reject (id : JobId) (index : Option Nat)
  | retry (slot : Nat) (id : JobId)
  | requeue (slot : Nat) (found : JobId) (assignment : Assignment)
  | reset (slot : Nat)
  /-- The end of `complete`. -/
  | dismiss (noteId : NoteId)
  | kill

variable {S A : Type}

/-- `save_job`. -/
def World.save (w : World S A) (job : Job S A) : World S A :=
  { w with jobs := assign w.jobs job.id job }

/-- The errors that the job's own state gives. -/
def limitReached : Text :=
  "Attempt limit reached; an interrupted request may already have been billed".toList

def interrupted : Text :=
  "Attempt limit reached after interruption; request outcome is unknown".toList

def dateChanged : Text :=
  "Date changed; regenerate remaining suggestions".toList

section Worker

variable (w : World S A) (job : Job S A)

/-- `run_job` behind `check_calendars`, to its next await. -/
def beginRun : World S A :=
  let assignment := w.config.enrichment
  if assignment.enabled = false ∨ assignment.paused = true then { w with worker := .idle }
  else
    let limit := job.attemptLimit.getD assignment.attempts
    let job := { job with attemptLimit := some limit }
    if limit ≤ job.attempts then
      { w.save { job with
          state := .failed
          error := limitReached } with worker := .idle }
    else
      let job := { job with state := .running, attempts := job.attempts + 1 }
      { w.save job with worker := .gathering job }

/-- `run_job`, to its first await. -/
def runJob : World S A :=
  if w.config.lifecycleEnabled then { w with worker := .checking job } else beginRun w job

/-- The end of `run_job` where an exception was raised. -/
def failRun (stale : Bool) (error : Text) : World S A :=
  { w.save { job with state := if stale then .stale else .failed, error := error } with
    worker := .idle }

/-- The worker goes on behind its await. -/
def work (reply : Reply S) : World S A :=
  match w.worker, reply with
  | .checking _, .raised => { w with worker := .idle }
  | .checking job, .ok => beginRun w job
  | .gathering job, .ok =>
    { w with
      worker := .requesting job
      requests := Function.update w.requests job.id (w.requests job.id + 1) }
  | .requesting job, .answered result => { w with worker := .confirming job result }
  | .confirming job result, .ok =>
    { w.save { job with result := some result, state := .suggested, error := [] } with
      worker := .idle }
  | .gathering job, .refused stale error | .requesting job, .refused stale error
  | .confirming job _, .refused stale error => failRun w job stale error
  | _, _ => w

/-- What `tick` saves of a job before it may run it. -/
def recover (attempts : Nat) (job : Job S A) : Job S A :=
  let limit := job.attemptLimit.getD attempts
  let job := { job with attemptLimit := some limit }
  if job.state = .running then
    if limit ≤ job.attempts then
      { job with
        state := .failed
        error := interrupted }
    else { job with state := .queued }
  else job

/-- A failed job with attempts left is queued, in memory. -/
def requeue (job : Job S A) : Job S A :=
  if job.state = .failed ∧ (job.attemptLimit.any fun limit => job.attempts < limit) = true then
    { job with state := .queued }
  else job

/-- The loop over the jobs, up to the first that runs. -/
def sweep (attempts : Nat) : List JobId → World S A → World S A
  | [], w => w
  | id :: rest, w =>
    match view w.jobs id with
    | none => sweep attempts rest w
    | some job =>
      let job := recover attempts job
      let w := w.save job
      if (requeue job).state = .queued then runJob w (requeue job) else sweep attempts rest w

end Worker

section Review

variable (w : World S A)

/-- `queue_note`: an earlier job with the same evidence, or a new one; `new_id` makes a forced
one new. -/
def queueNote (noteId : NoteId) (force : Bool) (found : JobId) (assignment : Assignment) :
    Option (World S A) :=
  if assignment.enabled = false then none
  else
    match view w.jobs found with
    | some previous => if force = true ∨ previous.noteId ≠ noteId then none else some w
    | none =>
      some (w.save { id := found, noteId := noteId, attemptLimit := some assignment.attempts })

/-- `approve`, to its first await. -/
def approve (id : JobId) (index : Nat) : World S A :=
  match view w.jobs id with
  | none => w
  | some job =>
    match job.state, job.result with
    | .suggested, some suggestions =>
      if suggestions.length ≤ index then w
      else if index ∈ indices job.decisions then w
      else { w with holder := some (.evaluating job index) }
    | _, _ => w

/-- `resume_approval`, to its first await. -/
def resume (id : JobId) : World S A :=
  match view w.jobs id with
  | none => w
  | some job =>
    if job.state ≠ .applying ∨ job.pendingApproval.isNone then w
    else { w with holder := some (.finishing job) }

/-- What `finish_approval` saves. -/
def finished (job : Job S A) (approval : Approval A) (changedDate : Bool) : Job S A :=
  let decisions := job.decisions ++ [.approved approval]
  let remaining := job.result.any fun suggestions => suggestions.length ≠ decisions.length
  { job with
    decisions := decisions
    pendingApproval := none
    state := if remaining = true ∧ changedDate = true then .stale
      else if remaining then .suggested else .applied
    error := if remaining = true ∧ changedDate = true then dateChanged else [] }

/-- The operation with the lock goes on behind its await. -/
def proceed (verdict : Verdict A) : World S A :=
  match w.holder, verdict with
  | some (.evaluating _ _), .refused | some (.finishing _), .refused => { w with holder := none }
  | some (.evaluating job _), .stale => { w.save { job with state := .stale } with holder := none }
  | some (.evaluating job index), .approved rest =>
    let job := { job with pendingApproval := some ⟨index, rest⟩, state := .applying }
    { w.save job with holder := some (.finishing job) }
  | some (.finishing job), .written changedDate =>
    match job.pendingApproval with
    | none => { w with holder := none }
    | some approval => { w.save (finished job approval changedDate) with holder := none }
  | _, _ => w

/-- `reject`. -/
def reject (id : JobId) (index : Option Nat) : World S A :=
  match view w.jobs id with
  | none => w
  | some job =>
    if job.state ≠ .suggested then w
    else
      match index with
      | none =>
        w.save { job with state := .rejected, decisions := job.decisions ++ [.rejectRemaining] }
      | some index =>
        match job.result with
        | none => w
        | some suggestions =>
          if suggestions.length ≤ index ∨ index ∈ indices job.decisions then w
          else
            let decisions := job.decisions ++ [.reject index]
            let approved := decisions.any fun
              | .approved _ => true
              | _ => false
            w.save { job with
              decisions := decisions
              state := if decisions.length = suggestions.length then
                if approved then .applied else .rejected else job.state }

/-- `retry_job` before it queues the note. -/
def retry (slot : Nat) (id : JobId) : World S A :=
  match view w.jobs id with
  | none => w
  | some job =>
    if job.state = .failed ∨ job.state = .stale then
      { w with
        retries :=
          Function.update w.retries slot (some (.queueing job.noteId (job.state = .stale))) }
    else w

/-- `retry_job` behind the queueing. -/
def reset (id : JobId) : World S A :=
  match view w.jobs id with
  | none => w
  | some latest =>
    if latest.state = .failed then
      { w.save { latest with state := .queued, attempts := 0, error := [] } with
        requests := Function.update w.requests id 0 }
    else w

/-- A job that `complete` dismisses. -/
def dismissed (job : Job S A) : Job S A :=
  { job with state := .rejected, decisions := job.decisions ++ [.dismissed] }

/-- The loop over the note's jobs at the end of `complete`. -/
def dismiss (noteId : NoteId) : List JobId → World S A → World S A
  | [], w => w
  | id :: rest, w =>
    match view w.jobs id with
    | none => dismiss noteId rest w
    | some job =>
      if job.noteId = noteId ∧
          (job.state = .suggested ∨ job.state = .queued ∨ job.state = .stale) then
        dismiss noteId rest (w.save (dismissed job))
      else dismiss noteId rest w

end Review

/-- One step; an action that is not enabled does nothing. -/
def next (w : World S A) : Action S A → World S A
  | .configure config => { w with config := config }
  | .enqueue noteId force found assignment =>
    if w.holder.isSome then w else (queueNote w noteId force found assignment).getD w
  | .sweep assignment =>
    match w.worker with
    | .idle =>
      if assignment.enabled = false ∨ assignment.paused = true then w
      else sweep assignment.attempts (w.jobs.keys.insertionSort (· ≤ ·)) w
    | _ => w
  | .work reply => work w reply
  | .approve id index => if w.holder.isSome then w else approve w id index
  | .resume id => if w.holder.isSome then w else resume w id
  | .proceed verdict => proceed w verdict
  | .reject id index => if w.holder.isSome then w else reject w id index
  | .retry slot id =>
    match w.holder, w.retries slot with
    | none, none => retry w slot id
    | _, _ => w
  | .requeue slot found assignment =>
    match w.holder, w.retries slot with
    | none, some (.queueing noteId force) =>
      match queueNote w noteId force found assignment with
      | none => { w with retries := Function.update w.retries slot none }
      | some w => { w with retries := Function.update w.retries slot (some (.resetting found)) }
    | _, _ => w
  | .reset slot =>
    match w.holder, w.retries slot with
    | none, some (.resetting id) =>
      reset { w with retries := Function.update w.retries slot none } id
    | _, _ => w
  | .dismiss noteId => dismiss noteId (w.jobs.keys.insertionSort (· ≤ ·)) w
  | .kill => { w with worker := .idle, holder := none, retries := fun _ => none }

/-- The world after a run from a fresh start. -/
def run (config : Config) (actions : List (Action S A)) : World S A :=
  actions.foldl next (.initial config)

end Coppermind.Enrichment
