import Coppermind.Lib.Text
import Coppermind.Lib.Assoc
import Coppermind.Lib.Run

/-!
# Calendar follow-ups of reviewed notes

A reviewed note is finalized: its record keeps the hash of the note and of the calendar evidence
it was confirmed with.  `check_calendars` walks the records and opens a follow-up where the
evidence has moved on; it skips a note whose hash is the recorded one while the generation of the
calendar is the last pass's.  A pass awaits between the records, and finalizing, following a filed
note and resolving a follow-up await before they write, so a `World` holds the pass and the
operations that are under way.
-/

namespace Coppermind.Review

open Coppermind.Lib

abbrev NoteId := Text

abbrev Hash := Text

/-- A note as `get_note` reads it. -/
structure Note (C : Type) where
  content : C
  path : Text

inductive RecordState where
  | confirmed
  | withdrawn
  | unavailable
deriving DecidableEq, Repr

/-- One entry of `finalized`; `facts` are the date, the properties and the attendees. -/
structure Record (F : Type) where
  noteHash : Hash
  path : Text
  facts : F
  calendarHash : Hash
  state : RecordState
  confirmedCalendar : Option (Text × Nat × Hash) := none
  at_ : Nat
deriving DecidableEq

/-- One entry of `calendar-followups`, less its constant texts. -/
structure FollowUp where
  calendarHash : Hash
  at_ : Nat
deriving DecidableEq, Repr

/-- What the operations read from a note's content `C` and from the calendar `K`, with the
configuration and the corrections it is read under; none where the reading raises. -/
structure Env (C K F : Type) where
  contentHash : C → Hash
  /-- The `reviewed` key is `True`. -/
  reviewed : C → Bool
  /-- `validate_review` does not raise. -/
  validReview : C → Bool
  facts : K → C → Option F
  /-- `note_evidence_hash`. -/
  evidenceHash : K → C → Option Hash
  /-- The events of `calendar_candidates`. -/
  candidates : K → C → List Text
  /-- The generation that `check_calendars` compares. -/
  generation : K → Hash

/-- The dictionaries of the context store. -/
abbrev Dict (α : Type) := AList fun _ : NoteId => α

/-- A pass between the records. -/
structure Scan (F : Type) where
  generation : Hash
  changed : Bool
  baseline : Dict (Record F)
  records : Dict (Record F)
  updates : Dict FollowUp
  todo : List NoteId

/-- Where `check_calendars` awaits. -/
inductive Pass (C F : Type) where
  /-- The generation is computed, the records are not read. -/
  | opened (generation : Hash)
  | scanning (scan : Scan F)
  /-- The evidence of the note `id` is awaited. -/
  | reading (scan : Scan F) (id : NoteId) (record : Record F) (note : Note C)

/-- Where an operation awaits; its evidence is computed before it waits for the lock. -/
inductive Task (C F : Type) where
  | finalizing (id : NoteId) (note : Note C) (facts : F) (evidence : Option Hash)
  | following (id : NoteId) (note : Note C)
  | resolving (id : NoteId) (note : Note C) (calendarHash : Hash) (event : Text)
      (evidence : Option Hash)

structure World (C K F : Type) where
  notes : NoteId → Option (Note C)
  calendar : K
  clock : Nat
  /-- The `final_hash` of each complete review. -/
  completions : NoteId → Option Hash
  observed : NoteId → Option (Hash × Nat)
  finalized : Dict (Record F)
  followups : Dict FollowUp
  calendarGeneration : Option Hash
  pass : Option (Pass C F)
  tasks : Nat → Option (Task C F)

def World.initial {C K F : Type} (calendar : K) : World C K F where
  notes := fun _ => none
  calendar := calendar
  clock := 0
  completions := fun _ => none
  observed := fun _ => none
  finalized := ∅
  followups := ∅
  calendarGeneration := none
  pass := none
  tasks := fun _ => none

inductive Action (C K : Type) where
  /-- A device edits, moves or removes a note. -/
  | edit (id : NoteId) (note : Option (Note C))
  | calendar (k : K)
  | tick (seconds : Nat)
  /-- A review completes, and its receipt keeps the hash of the note. -/
  | complete (id : NoteId)
  | finalize (task : Nat) (id : NoteId)
  | follow (task : Nat) (id : NoteId)
  | resolve (task : Nat) (id : NoteId) (ifMatch calendarHash : Hash) (event : Text)
  /-- An operation goes on behind its await. -/
  | go (task : Nat)
  /-- `check_calendars` begins, or goes on behind its await. -/
  | pass

variable {C K F : Type} [DecidableEq F]

section Operations

variable (env : Env C K F) (w : World C K F)

def World.setTask (w : World C K F) (task : Nat) (t : Option (Task C F)) : World C K F :=
  { w with tasks := Function.update w.tasks task t }

/-- The wait for the reviewed file to remain stable, none once it is over. -/
def stabilityWait (id : NoteId) (hash : Hash) : Option (World C K F) :=
  if w.completions id = some hash then none
  else
    match w.observed id with
    | none => some { w with observed := Function.update w.observed id (some (hash, w.clock)) }
    | some (seen, since) =>
      if seen ≠ hash then
        some { w with observed := Function.update w.observed id (some (hash, w.clock)) }
      else if w.clock - since < 30 then some w
      else none

/-- `finalize`, from the note it is given to its first await. -/
def finalize (task : Nat) (id : NoteId) (note : Note C) : World C K F :=
  if env.validReview note.content = false then w
  else
    match stabilityWait w id (env.contentHash note.content) with
    | some waiting => waiting
    | none =>
      match env.facts w.calendar note.content with
      | none => w
      | some facts => w.setTask task (some (.finalizing id note facts none))

/-- The write of `finalize`, under the lock. -/
def confirm (id : NoteId) (note : Note C) (facts : F) (evidence : Hash) : World C K F :=
  let hash := env.contentHash note.content
  let record : Record F := ⟨hash, note.path, facts, evidence, .confirmed, none, w.clock⟩
  match view w.finalized id with
  | none => { w with finalized := assign w.finalized id record }
  | some previous =>
    if previous.noteHash = hash ∧ previous.state = .confirmed ∧ previous.facts = facts then
      if previous.path ≠ note.path then
        { w with finalized := assign w.finalized id { previous with path := note.path } }
      else w
    else
      { w with
        finalized := assign w.finalized id { record with calendarHash := previous.calendarHash } }

/-- The write of `follow`, under the lock. -/
def carry (id : NoteId) (note : Note C) : World C K F :=
  let hash := env.contentHash note.content
  match view w.finalized id with
  | none => w
  | some record =>
    if record.state = .confirmed ∧ (record.noteHash ≠ hash ∨ record.path ≠ note.path) then
      { w with
        finalized := assign w.finalized id { record with noteHash := hash, path := note.path } }
    else w

/-- The write of `resolve_calendar`, under the lock. -/
def settle (id : NoteId) (note : Note C) (event : Text) (current : Hash) : World C K F :=
  match view w.finalized id with
  | none => w
  | some record =>
    let confirmed := if event = [] then record.confirmedCalendar
      else some (event, w.clock, env.contentHash note.content)
    { w with
      finalized := assign w.finalized id
        { record with calendarHash := current, confirmedCalendar := confirmed }
      followups := w.followups.erase id }

/-- An operation goes on behind its await. -/
def go (task : Nat) : World C K F :=
  match w.tasks task with
  | none => w
  | some (.finalizing id note facts none) =>
    match env.evidenceHash w.calendar note.content with
    | none => w.setTask task none
    | some evidence => w.setTask task (some (.finalizing id note facts (some evidence)))
  | some (.finalizing id note facts (some evidence)) =>
    confirm env (w.setTask task none) id note facts evidence
  | some (.following id note) => carry env (w.setTask task none) id note
  | some (.resolving id note calendarHash event none) =>
    match env.evidenceHash w.calendar note.content with
    | none => w.setTask task none
    | some current =>
      if current = calendarHash ∧ (event = [] ∨ event ∈ env.candidates w.calendar note.content) then
        w.setTask task (some (.resolving id note calendarHash event (some current)))
      else w.setTask task none
  | some (.resolving id note _ event (some current)) =>
    settle env (w.setTask task none) id note event current

end Operations

section Pass

variable (env : Env C K F) (w : World C K F)

/-- What one record does to the records and the follow-ups, unless it has changed meanwhile. -/
def publishRecord (scan : Scan F) (stores : Dict (Record F) × Dict FollowUp)
    (entry : Sigma fun _ : NoteId => Record F) : Dict (Record F) × Dict FollowUp :=
  let (records, updates) := stores
  if view records entry.1 ≠ view scan.baseline entry.1 then stores
  else
    (assign records entry.1 entry.2,
      match view scan.updates entry.1 with
      | some update => assign updates entry.1 update
      | none =>
        if scan.changed ∨ entry.2.state ≠ .confirmed then updates.erase entry.1 else updates)

/-- The end of `check_calendars`, under the lock. -/
def publish (scan : Scan F) : World C K F :=
  let (records, updates) := scan.records.entries.foldl (publishRecord scan) (w.finalized, w.followups)
  { w with
    finalized := records
    followups := updates
    calendarGeneration := some scan.generation
    pass := none }

/-- The record of a note comes to be withdrawn or unavailable. -/
def Scan.revoke (scan : Scan F) (id : NoteId) (record : Record F) (state : RecordState) : Scan F :=
  { scan with records := assign scan.records id { record with state := state } }

/-- `check_calendars` goes on to its next await. -/
def passStep : World C K F :=
  match w.pass with
  | none => { w with pass := some (.opened (env.generation w.calendar)) }
  | some (.opened generation) =>
    { w with
      pass := some (.scanning {
        generation := generation
        changed := w.calendarGeneration ≠ some generation
        baseline := w.finalized
        records := w.finalized
        updates := ∅
        todo := w.finalized.keys }) }
  | some (.scanning scan) =>
    match scan.todo with
    | [] => publish w scan
    | id :: rest =>
      let scan := { scan with todo := rest }
      match view scan.records id with
      | none => { w with pass := some (.scanning scan) }
      | some record =>
        if record.state ≠ .confirmed then { w with pass := some (.scanning scan) }
        else
          match w.notes id with
          | none => { w with pass := some (.scanning (scan.revoke id record .unavailable)) }
          | some note =>
            if env.reviewed note.content = false then
              { w with pass := some (.scanning (scan.revoke id record .withdrawn)) }
            else if scan.changed = false ∧ env.contentHash note.content = record.noteHash then
              { w with pass := some (.scanning scan) }
            else { w with pass := some (.reading scan id record note) }
  | some (.reading scan id record note) =>
    match env.evidenceHash w.calendar note.content with
    | none => { w with pass := some (.scanning (scan.revoke id record .unavailable)) }
    | some current =>
      let updates :=
        if current ≠ record.calendarHash then assign scan.updates id ⟨current, w.clock⟩
        else scan.updates
      { w with pass := some (.scanning { scan with updates := updates }) }

end Pass

/-- One step; an action that is not enabled does nothing. -/
def next (env : Env C K F) (w : World C K F) : Action C K → World C K F
  | .edit id note => { w with notes := Function.update w.notes id note }
  | .calendar k => { w with calendar := k }
  | .tick seconds => { w with clock := w.clock + seconds }
  | .complete id =>
    match w.notes id with
    | none => w
    | some note =>
      { w with
        completions := Function.update w.completions id (some (env.contentHash note.content)) }
  | .finalize task id =>
    match w.tasks task, w.notes id with
    | none, some note => finalize env w task id note
    | _, _ => w
  | .follow task id =>
    match w.tasks task, w.notes id with
    | none, some note => w.setTask task (some (.following id note))
    | _, _ => w
  | .resolve task id ifMatch calendarHash event =>
    match w.tasks task, w.notes id with
    | none, some note =>
      if env.contentHash note.content = ifMatch then
        w.setTask task (some (.resolving id note calendarHash event none))
      else w
    | _, _ => w
  | .go task => go env w task
  | .pass => passStep env w

/-- The world after a run from a fresh start. -/
def run (env : Env C K F) (calendar : K) (actions : List (Action C K)) : World C K F :=
  actions.foldl (next env) (.initial calendar)

end Coppermind.Review
