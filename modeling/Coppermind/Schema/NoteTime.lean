import Coppermind.Frontmatter.Value
import Coppermind.Lib.PyStr

/-!
# The day and the time of a note

`parseNoteTime` reads a frontmatter value as a local date, a local date and time, or a legacy
time of day.  The readers of ISO text belong to the language and are collected in `Python`,
with the other functions of its library that the store applies to arbitrary values.
-/

namespace Coppermind.Schema

open Coppermind.Lib Coppermind.Lib.Text Coppermind.Frontmatter

/-- A `time`; `tzinfo` is the offset in seconds of an aware one. -/
structure ClockTime where
  hour : Nat
  minute : Nat
  second : Nat
  microsecond : Nat
  tzinfo : Option Int
deriving DecidableEq

/-- What the language's library computes from a value. -/
structure Python where
  /-- `str` of a value that is no string. -/
  str : Value → PyStr
  repr : Value → PyStr
  /-- `isoformat` of a date or a datetime. -/
  isoformat : Value → PyStr
  casefold : PyStr → PyStr
  /-- The `fromisoformat` readers; none where they raise `ValueError`. -/
  dateFromIso : Text → Option Date
  datetimeFromIso : Text → Option DateTime
  timeFromIso : Text → Option ClockTime
  /-- Whether `hash` takes a value of a kind that is not looked into. -/
  hashes : Text → Bool := fun _ => true
  /-- Whether `strftime` writes the year of `%Y` in four digits, as not every platform does. -/
  padsYears : Bool := false

/-- `ParsedNoteTime`. -/
structure ParsedNoteTime where
  present : Bool
  valid : Bool
  dateValue : Option Date := none
  timeValue : Option ClockTime := none
  hasOffset : Bool := false
deriving DecidableEq

/-- `value.time().replace(microsecond=0)`, and the same of `timetz` without its offset. -/
def wholeSeconds (d : DateTime) : ClockTime := ⟨d.hour, d.minute, d.second, 0, none⟩

def charAt? (t : Text) (i : Nat) : Option Char := t[i]?

/-- `text[4:5] == "-" and text[7:8] == "-"`. -/
def dashed (t : Text) : Bool := charAt? t 4 == some '-' && charAt? t 7 == some '-'

/-- `parse_date_value` of a text that is already stripped. -/
def parseDateText (py : Python) (t : Text) : Option Date :=
  if t.length ≠ 10 then none else py.dateFromIso t

def endsInZ (t : Text) : Bool :=
  t.getLast? == some 'Z' || t.getLast? == some 'z'

/-- The clock part of `_LOCAL_DATETIME_PREFIX` and of `_LEGACY_TIME_PATTERN`: hours, minutes
and maybe seconds of two digits each. -/
def isClock (t : Text) : Bool :=
  match digits? 2 0 t with
  | some (_, ':' :: t) =>
    match digits? 2 0 t with
    | some (_, []) => true
    | some (_, ':' :: t) =>
      match digits? 2 0 t with
      | some (_, []) => true
      | _ => false
    | _ => false
  | _ => false

/-- `_LOCAL_DATETIME_PREFIX.fullmatch`. -/
def isLocalDatetime (t : Text) : Bool :=
  match digits? 4 0 t with
  | some (_, '-' :: t) =>
    match digits? 2 0 t with
    | some (_, '-' :: t) =>
      match digits? 2 0 t with
      | some (_, c :: t) => (c == 'T' || c == 't' || c == ' ') && isClock t
      | _ => false
    | _ => false
  | _ => false

/-- `parse_note_time` of a text. -/
def parseNoteTimeText (py : Python) (text : Text) : ParsedNoteTime :=
  let text := text.strip
  if text = [] then { present := false, valid := false }
  else if text.length = 10 ∧ dashed text then
    let day := parseDateText py text
    { present := true, valid := day.isSome, dateValue := day }
  else if 10 < text.length ∧ dashed text ∧
      (charAt? text 10 = some 'T' ∨ charAt? text 10 = some 't' ∨ charAt? text 10 = some ' ') then
    match py.datetimeFromIso text with
    | none => { present := true, valid := false }
    | some parsed =>
      if parsed.tzinfo.isSome || endsInZ text then
        { present := true, valid := false, dateValue := some parsed.date
          timeValue := some (wholeSeconds parsed), hasOffset := true }
      else if isLocalDatetime text then
        { present := true, valid := true, dateValue := some parsed.date
          timeValue := some (wholeSeconds parsed) }
      else { present := true, valid := false }
  else
    match py.timeFromIso text with
    | none => { present := true, valid := false }
    | some parsed =>
      let whole := { parsed with microsecond := 0, tzinfo := none }
      if parsed.tzinfo.isSome || endsInZ text then
        { present := true, valid := false, timeValue := some whole, hasOffset := true }
      else if isClock text then
        { present := true, valid := true, timeValue := some { parsed with microsecond := 0 } }
      else { present := true, valid := false }

/-- `parse_note_time`.  No reader of ISO text takes a surrogate. -/
def parseNoteTime (py : Python) : Option Value → ParsedNoteTime
  | none | some .null => { present := false, valid := false }
  | some (.datetime d) | some (.timestamp d) =>
    { present := true, valid := d.tzinfo.isNone, dateValue := some d.date
      timeValue := some (wholeSeconds d), hasOffset := d.tzinfo.isSome }
  | some (.date d) => { present := true, valid := true, dateValue := some d }
  | some (.str s) => parseNoteTimeText py s
  | some _ => { present := true, valid := false }

/-- `_is_date`. -/
def isDate (py : Python) (value : Value) : Bool :=
  let parsed := parseNoteTime py (some value)
  parsed.valid && parsed.dateValue.isSome

/-- `note_date`, `dateKey` the key that plays the date's role. -/
def noteDate (py : Python) (dateKey : Text) (frontmatter : Entries) : Option Date :=
  let explicit := parseNoteTime py (frontmatter.get? dateKey)
  if explicit.valid && explicit.dateValue.isSome then explicit.dateValue
  else
    let parsed := parseNoteTime py (frontmatter.get? "time".toList)
    if parsed.valid then parsed.dateValue else none

/-- `_as_date`. -/
def asDate (py : Python) (value : Option Value) : Option Date :=
  let parsed := parseNoteTime py value
  if parsed.valid then parsed.dateValue else none

end Coppermind.Schema
