import Coppermind.Lib.Assoc
import Coppermind.Lib.History
import Coppermind.Lib.Run
import Coppermind.Notes.Row

/-!
# Control state files and their writers

One file under `/data/state`, written by any number of writers: through `StateStore.write` with
the revision they read, and through `_change_reconciler_notices` with its retries.  A read of the
file and the check and the replacement under the lock of the directory are steps of their own, in
any order between the writers, and a writer may stop before any step.

`log` is the history of the system: each write that replaced the file, what its writer had read,
what it replaced and what it left.
-/

namespace Coppermind.Control

open Coppermind.Lib Coppermind.Frontmatter Coppermind.Schema
open Coppermind.Notes (FileBytes strOf strValue strValue_cases strOf_strValue)

/-- A `str` of Unicode code points. -/
abbrev Str := { s : PyStr // ∀ c ∈ s, c < 0x110000 }

def Str.ofPyStr (s : PyStr) : Str :=
  ⟨s.filter (· < 0x110000), fun _ hc => of_decide_eq_true (List.mem_filter.1 hc).2⟩

inductive Raised where
  | valueError
  | typeError
  | overflowError
  | revisionConflict (current : Int)
deriving DecidableEq

section Integers

/-- The digits of an integer literal, one underscore allowed between two of them. -/
def digitsValue (value : Nat) : Text → Option Nat
  | [] => some value
  | '_' :: c :: rest => do digitsValue (value * 10 + (← digit? c)) rest
  | c :: rest => do digitsValue (value * 10 + (← digit? c)) rest

/-- `int` of a text, none where it raises. -/
def intOfText (t : Text) : Option Int :=
  let unsigned : Text → Option Nat
    | c :: rest => do digitsValue (← digit? c) rest
    | [] => none
  match t.strip with
  | '-' :: rest => (unsigned rest).map fun n => -(n : Int)
  | '+' :: rest => (unsigned rest).map fun n => (n : Int)
  | rest => (unsigned rest).map fun n => (n : Int)

/-- A rational rounded towards zero. -/
def truncate (q : Rat) : Int := q.num.tdiv q.den

/-- `int(value)`. -/
def intOf : Value → Except Raised Int
  | .bool b => .ok (if b then 1 else 0)
  | .int i => .ok i
  | .float (.finite q) => .ok (truncate q)
  | .float (.inf _) => .error .overflowError
  | .float .nan => .error .valueError
  | .str s =>
    match intOfText s with
    | some i => .ok i
    | none => .error .valueError
  | .surrogateStr _ => .error .valueError
  | _ => .error .typeError

end Integers

def schemaVersionKey : Text := "schema_version".toList

def revisionKey : Text := "revision".toList

def noticesKey : Text := "notices".toList

/-- `StateFile`. -/
structure StateFile where
  revision : Int
  body : Entries

/-- `_load`, none where it raises `ValueError`, and `_dump`, none where it raises. -/
structure Codec where
  load : FileBytes → Option Entries
  dump : Entries → Option Text

section Reading

variable (codec : Codec)

/-- What `read` makes of the bytes of a file. -/
def parse (data : FileBytes) : Except Raised StateFile :=
  match codec.load data with
  | none => .error .valueError
  | some loaded =>
    match intOf ((loaded.get? revisionKey).getD (.int 1)) with
    | .ok revision => .ok ⟨revision, loaded⟩
    | .error .overflowError => .error .overflowError
    | .error _ => .error .valueError

/-- `read`; none where it raises `FileNotFoundError`. -/
def read (file : Option FileBytes) : Except Raised (Option StateFile) :=
  match file with
  | none => .ok none
  | some data => (parse codec data).map some

/-- The record `_write_locked` writes. -/
def recordOf (body : Entries) (next : Int) : Except Raised Entries :=
  match intOf ((body.get? schemaVersionKey).getD (.int 1)) with
  | .error e => .error e
  | .ok version =>
    .ok ((.str schemaVersionKey, .int version) :: (.str revisionKey, .int next) ::
      body.filter fun e => !(e.1.isText schemaVersionKey || e.1.isText revisionKey))

/-- `_write_locked`, up to the replacement of the file: the text it will leave. -/
def prepare (file : Option FileBytes) (body : Entries) (ifRevision : Option Int) :
    Except Raised Text :=
  match read codec file with
  | .error e => .error e
  | .ok current =>
    match current, ifRevision with
    | none, some _ => .error (.revisionConflict 0)
    | some state, none => .error (.revisionConflict state.revision)
    | none, none => finish 1
    | some state, some revision =>
      if revision = state.revision then finish (state.revision + 1)
      else .error (.revisionConflict state.revision)
where
  finish (next : Int) : Except Raised Text :=
    match recordOf body next with
    | .error e => .error e
    | .ok record =>
      match codec.dump record with
      | some text => .ok text
      | none => .error .typeError

end Reading

section Notices

/-- `RECONCILER_NOTICE_KEYS`. -/
def noticeKeys : List PyStr :=
  ["note_id", "title", "from_path", "path", "reason", "at"].map PyStr.lit

/-- One notice: the fields every reader relies on, and maybe more. -/
structure Notice where
  fields : AList fun _ : Str => Str
  complete : ∀ k ∈ noticeKeys, Str.ofPyStr k ∈ fields

abbrev Notices := AList fun _ : Str => Notice

theorem Str.ofPyStr_val (s : Str) : Str.ofPyStr s.1 = s := by
  apply Subtype.ext
  exact List.filter_eq_self.2 fun c hc => decide_eq_true (s.2 c hc)

theorem strOf_of_str? {py : Python} {v : Value} {s : PyStr} (h : str? v = some s) :
    strOf py v = s := by
  cases v <;> simp only [str?, Option.some.injEq, reduceCtorEq] at h
  case str t => exact h
  case surrogateStr t => exact h

variable (py : Python)

/-- The fields of one entry of the notices, as texts. -/
def fieldsOf (entries : Entries) : List (Str × Str) :=
  entries.map fun e => (Str.ofPyStr (strOf py e.1), Str.ofPyStr (strOf py e.2))

theorem mem_fieldsOf {entries : Entries} {k : PyStr}
    (h : entries.any (fun e => str? e.1 == some k) = true) :
    Str.ofPyStr k ∈ ofPairs (fieldsOf py entries) := by
  obtain ⟨e, he, hk⟩ := List.any_eq_true.1 h
  rw [mem_ofPairs, fieldsOf, List.map_map]
  exact List.mem_map.2 ⟨e, he, congrArg Str.ofPyStr (strOf_of_str? (beq_iff_eq.1 hk))⟩

/-- One entry of the comprehension in `_valid_notices`. -/
def noticeOf (entry : Value × Value) : Option (Str × Notice) :=
  match entry.2 with
  | .map entries =>
    if h : ∀ k ∈ noticeKeys, entries.any (fun e => str? e.1 == some k) = true then
      some (Str.ofPyStr (strOf py entry.1),
        ⟨ofPairs (fieldsOf py entries), fun k hk => mem_fieldsOf py (h k hk)⟩)
    else none
  | _ => none

/-- `_valid_notices`. -/
def validNotices (body : Entries) : Notices :=
  match body.get? noticesKey with
  | some (.map raw) => ofPairs (raw.filterMap (noticeOf py))
  | _ => ∅

/-- The value a notice is written as. -/
def Notice.value (notice : Notice) : Value :=
  .map (notice.fields.entries.map fun e => (strValue e.1.1, strValue e.2.1))

/-- `{"notices": notices}`. -/
def noticesBody (notices : Notices) : Entries :=
  [(.str noticesKey, .map (notices.entries.map fun e => (strValue e.1.1, e.2.value)))]

/-- The notices a file holds. -/
def noticesIn (codec : Codec) (file : Option FileBytes) : Notices :=
  match file with
  | none => ∅
  | some data =>
    match codec.load data with
    | some body => validNotices py body
    | none => ∅

/-- A change of the notices; none where it leaves nothing to write. -/
abbrev Change := Notices → Option Notices

/-- What `record_reconciler_notice` changes. -/
def recordReconcilerNotice (noteId : Str) (notice : Notice) : Change := fun notices =>
  some (assign notices noteId notice)

/-- What `clear_reconciler_notice` changes. -/
def clearReconcilerNotice (noteId : Str) : Change := fun notices =>
  if noteId ∈ notices then some (notices.erase noteId) else none

end Notices

section Writers

/-- What a writer is asked: to write the body it makes of what it read, or to change the
notices. -/
inductive Job where
  | write (edit : Option StateFile → Option Entries)
  | notices (change : Change)

/-- `_NOTICE_WRITE_ATTEMPTS`. -/
def noticeWriteAttempts : Nat := 5

/-- How an attempt to write ended. -/
inductive Outcome where
  | written
  | nothing
  | raised (e : Raised)
  | stopped
deriving DecidableEq

/-- Where a writer stands: before its read, before the lock, inside it before the check and
before the replacement, before it lets go, and at its end. -/
inductive Pc where
  | reading (attempt : Nat)
  | locking (attempt : Nat) (seen : Option FileBytes) (ifRevision : Option Int) (body : Entries)
  | checking (attempt : Nat) (seen : Option FileBytes) (ifRevision : Option Int) (body : Entries)
  | replacing (seen : Option FileBytes) (text : Text)
  | unlocking (attempt : Nat) (outcome : Outcome)
  | finished (outcome : Outcome)

/-- A write that replaced the file. -/
structure Write (W : Type) where
  writer : W
  /-- What its writer had read. -/
  seen : Option FileBytes
  replaced : Option FileBytes
  left : Option FileBytes

structure System (W : Type) where
  file : Option FileBytes
  locked : Option W
  pc : W → Pc
  log : List (Write W)

/-- A writer takes its next step, or stops for good. -/
inductive Action (W : Type) where
  | go (w : W)
  | stop (w : W)

variable {W : Type} [DecidableEq W] (codec : Codec) (py : Python) (jobs : W → Job)

def System.initial (file : Option FileBytes) : System W := ⟨file, none, fun _ => .reading 0, []⟩

def System.setPc (s : System W) (w : W) (pc : Pc) : System W :=
  { s with pc := Function.update s.pc w pc }

/-- The lock goes with the writer that holds it. -/
def System.release (s : System W) (w : W) : System W :=
  if s.locked = some w then { s with locked := none } else s

/-- The body a job writes, of the file its writer read. -/
def Job.body (job : Job) (state : Option StateFile) : Option Entries :=
  match job with
  | .write edit => edit state
  | .notices change =>
    (change ((state.map fun f => validNotices py f.body).getD ∅)).map noticesBody

/-- What follows on an attempt: a notice is written again where another writer landed. -/
def Job.after (job : Job) (attempt : Nat) (outcome : Outcome) : Pc :=
  match job, outcome with
  | .notices _, .raised (.revisionConflict current) =>
    if attempt + 1 < noticeWriteAttempts then .reading (attempt + 1)
    else .finished (.raised (.revisionConflict current))
  | _, outcome => .finished outcome

/-- A writer after its read. -/
def readStep (s : System W) (w : W) (attempt : Nat) : Pc :=
  match read codec s.file with
  | .error e => .finished (.raised e)
  | .ok state =>
    match (jobs w).body py state with
    | some body => .locking attempt s.file (state.map (·.revision)) body
    | none => .finished .nothing

/-- A writer after its check. -/
def checkStep (s : System W) (attempt : Nat) (seen : Option FileBytes) (ifRevision : Option Int)
    (body : Entries) : Pc :=
  match prepare codec s.file body ifRevision with
  | .ok text => .replacing seen text
  | .error e => .unlocking attempt (.raised e)

/-- The replacement of the file. -/
def System.replace (s : System W) (w : W) (seen : Option FileBytes) (text : Text) : System W :=
  { s with
    file := some (.utf8 text)
    log := s.log ++ [⟨w, seen, s.file, some (.utf8 text)⟩] }

def step (s : System W) : Action W → Option (System W)
  | .go w =>
    match s.pc w with
    | .reading attempt => some (s.setPc w (readStep codec py jobs s w attempt))
    | .locking attempt seen ifRevision body =>
      if s.locked = none then
        some ({ s with locked := some w }.setPc w (.checking attempt seen ifRevision body))
      else none
    | .checking attempt seen ifRevision body =>
      some (s.setPc w (checkStep codec s attempt seen ifRevision body))
    | .replacing seen text => some ((s.replace w seen text).setPc w (.unlocking 0 .written))
    | .unlocking attempt outcome =>
      some ((s.release w).setPc w ((jobs w).after attempt outcome))
    | .finished _ => none
  | .stop w =>
    match s.pc w with
    | .finished _ => none
    | _ => some ((s.release w).setPc w (.finished .stopped))

end Writers

end Coppermind.Control
