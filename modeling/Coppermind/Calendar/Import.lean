import Mathlib.Data.List.Sort
import Mathlib.Data.Prod.Lex
import Mathlib.Order.WithBot
import Coppermind.Lib.Assoc
import Coppermind.Lib.Digits

/-!
# Calendar events and their merge

`calendar_import.py`: the identity, revision and semantic hash of an event version, and the merge
of versions into a dictionary under their identities.  Dates come to the model parsed: what
`datetime.fromisoformat` makes of a text is a parameter, and what the code asks of the result is
whether it has a time zone and what it reads as in UTC.
-/

namespace Coppermind.Calendar

open Coppermind.Lib

abbrev Bytes := List UInt8

inductive Raised where
  | calendarImportError (message : Text)
  | calendarTransientError (message : Text)
  | valueError
  | overflowError
  | keyError
  /-- An exception of the filesystem or the database. -/
  | failed
deriving DecidableEq

section Times

/-- A `datetime` in UTC. -/
@[ext] structure UtcTime where
  year : Nat
  month : Nat
  day : Nat
  hour : Nat
  minute : Nat
  second : Nat
  microsecond : Nat
  year_lt : year < 10 ^ 4
  month_lt : month < 10 ^ 2
  day_lt : day < 10 ^ 2
  hour_lt : hour < 10 ^ 2
  minute_lt : minute < 10 ^ 2
  second_lt : second < 10 ^ 2
  microsecond_lt : microsecond < 10 ^ 6

namespace UtcTime

/-- What a comparison of two of them compares. -/
def fields (t : UtcTime) : ℕ ×ₗ ℕ ×ₗ ℕ ×ₗ ℕ ×ₗ ℕ ×ₗ ℕ ×ₗ ℕ :=
  toLex (t.year, toLex (t.month, toLex (t.day, toLex (t.hour, toLex (t.minute,
    toLex (t.second, t.microsecond))))))

theorem fields_injective : Function.Injective fields := by
  intro a b h
  simp only [fields, EmbeddingLike.apply_eq_iff_eq, Prod.mk.injEq] at h
  obtain ⟨hyear, hmonth, hday, hhour, hminute, hsecond, hmicrosecond⟩ := h
  exact UtcTime.ext hyear hmonth hday hhour hminute hsecond hmicrosecond

instance : LinearOrder UtcTime := LinearOrder.lift' fields fields_injective

/-- The fraction and the offset of `isoformat`. -/
def isoTail (microsecond : Nat) : Text :=
  if microsecond = 0 then "+00:00".toList else '.' :: digits 6 microsecond ++ "+00:00".toList

/-- `isoformat`. -/
def isoformat (t : UtcTime) : Text :=
  digits 4 t.year ++ '-' :: (digits 2 t.month ++ '-' :: (digits 2 t.day ++ 'T' ::
    (digits 2 t.hour ++ ':' :: (digits 2 t.minute ++ ':' :: (digits 2 t.second ++
      isoTail t.microsecond)))))

theorem isoTail_lt_iff {m n : Nat} (hm : m < 10 ^ 6) (hn : n < 10 ^ 6) :
    isoTail m < isoTail n ↔ m < n := by
  by_cases hm0 : m = 0
  · by_cases hn0 : n = 0
    · rw [hm0, hn0]
      exact iff_of_false (lt_irrefl _) (lt_irrefl _)
    · rw [isoTail, if_pos hm0, isoTail, if_neg hn0, hm0]
      apply iff_of_true
      · exact List.Lex.rel (by decide)
      · omega
  · by_cases hn0 : n = 0
    · rw [isoTail, if_neg hm0, isoTail, if_pos hn0, hn0]
      apply iff_of_false
      · intro h
        have h' : '.' < '+' ∨ '.' = '+' ∧ _ := List.cons_lt_cons_iff.1 h
        obtain h' | h' := h'
        · exact absurd h' (by decide)
        · exact absurd h'.1 (by decide)
      · omega
    · rw [isoTail, if_neg hm0, isoTail, if_neg hn0, List.cons_append, List.cons_append,
        cons_lt_cons_self, digits_append_lt_iff hm hn]
      simp

/-- **The text of a time** orders as the time. -/
theorem isoformat_lt_iff (a b : UtcTime) : a.isoformat < b.isoformat ↔ a < b := by
  have hlt : a < b ↔ a.fields < b.fields := Iff.rfl
  rw [hlt, fields, fields]
  simp only [Prod.Lex.toLex_lt_toLex]
  rw [isoformat, isoformat, digits_append_lt_iff a.year_lt b.year_lt, cons_lt_cons_self,
    digits_append_lt_iff a.month_lt b.month_lt, cons_lt_cons_self,
    digits_append_lt_iff a.day_lt b.day_lt, cons_lt_cons_self,
    digits_append_lt_iff a.hour_lt b.hour_lt, cons_lt_cons_self,
    digits_append_lt_iff a.minute_lt b.minute_lt, cons_lt_cons_self,
    digits_append_lt_iff a.second_lt b.second_lt,
    isoTail_lt_iff a.microsecond_lt b.microsecond_lt]

end UtcTime

/-- `stamp`: the text of the time, where there is one. -/
def stamp : WithBot UtcTime → Text
  | none => []
  | some value => value.isoformat

end Times

/-- `CalendarPerson`. -/
structure CalendarPerson where
  address : Text
  name : Text
  role : Text
  participation : Text
deriving DecidableEq

/-- `EventProvenance`. -/
structure EventProvenance where
  sourceId : Text
  filename : Text
  entry : Text
  importedAt : Text
  legacyCalendar : Text
deriving DecidableEq

/-- `CalendarEvent`. -/
structure CalendarEvent where
  calendarId : Text
  uid : Text
  recurrenceId : Text
  sequence : Int
  modified : Text
  title : Text
  start : Text
  «end» : Text
  cancelled : Bool
  people : List CalendarPerson
  component : Text
  timezoneComponents : List Text
  provenance : List EventProvenance
  sourceEntries : List Text
  sourceEntry : Text
deriving DecidableEq

/-- What the code asks of a parsed `datetime`: whether it has a time zone, and
`astimezone(UTC)`. -/
structure DateTime where
  aware : Bool
  utc : Except Raised UtcTime

/-- The libraries an import calls. -/
structure Env where
  fromisoformat : Text → Except Raised DateTime
  /-- `Calendar.from_ical`, without `DTSTAMP`, then `to_ical(sorted=True)`. -/
  toIcal : Text → Except Raised Bytes
  /-- `str.encode`. -/
  encode : Text → Bytes
  /-- `hashlib.sha256(data).hexdigest()`. -/
  sha256 : Bytes → Text

variable (env : Env)

namespace CalendarEvent

/-- The recurrence an identity is made of. -/
def recurrence (event : CalendarEvent) : Except Raised Text :=
  if 'T' ∈ event.recurrenceId then do
    let timestamp ← env.fromisoformat event.recurrenceId
    if timestamp.aware then pure (← timestamp.utc).isoformat else pure event.recurrenceId
  else pure event.recurrenceId

def identity (event : CalendarEvent) : Except Raised Text := do
  let recurrence ← event.recurrence env
  pure (env.sha256 (env.encode (event.calendarId ++ Char.ofNat 0 :: event.uid ++
    Char.ofNat 0 :: recurrence)))

/-- When the version was last modified; an event that does not say so precedes every time. -/
def lastModified (event : CalendarEvent) : Except Raised (WithBot UtcTime) :=
  if event.modified = [] then pure ⊥
  else do
    let value ← env.fromisoformat event.modified
    pure ((← value.utc) : UtcTime)

def revision (event : CalendarEvent) : Except Raised (Int ×ₗ Text) := do
  pure (toLex (event.sequence, stamp (← event.lastModified env)))

def semanticHash (event : CalendarEvent) : Except Raised Text := do
  let component ← env.toIcal event.component
  pure (env.sha256 (component ++
    env.encode (event.timezoneComponents.insertionSort fun s t => s ≤ t).flatten))

end CalendarEvent

/-- `text or other`. -/
def orElse (t other : Text) : Text := if t = [] then other else t

def quoted (t : Text) : Text := '"' :: t ++ ['"']

/-- The message of an equal-version conflict. -/
def conflictMessage (event previous : CalendarEvent) : Text :=
  "Event ".toList ++ quoted (orElse event.title event.uid) ++ " (".toList ++
    orElse event.start "date unknown".toList ++ ", UID ".toList ++ event.uid ++
    ", entry ".toList ++ event.sourceEntry ++ ") conflicts with stored event ".toList ++
    quoted (orElse previous.title previous.uid) ++
    ". Incoming revision: SEQUENCE ".toList ++ (toString event.sequence).toList ++
    ", LAST-MODIFIED ".toList ++ orElse event.modified "not supplied".toList ++
    "; stored revision: SEQUENCE ".toList ++ (toString previous.sequence).toList ++
    ", LAST-MODIFIED ".toList ++ orElse previous.modified "not supplied".toList ++
    (". The revisions match but the contents differ. Correct the event in its source calendar " ++
      "and export it again, or dismiss this receipt.").toList

/-- `witnesses`, before they are sorted. -/
def addWitnesses (witnesses : List EventProvenance) : List EventProvenance → List EventProvenance
  | [] => witnesses
  | witness :: rest =>
    addWitnesses (if witness ∈ witnesses then witnesses else witnesses ++ [witness]) rest

/-- What witnesses are sorted by. -/
def witnessKey (p : EventProvenance) : Text ×ₗ Text ×ₗ Text :=
  toLex (p.importedAt, toLex (p.sourceId, p.entry))

def WitnessLe (p q : EventProvenance) : Prop := witnessKey p ≤ witnessKey q

instance : DecidableRel WitnessLe :=
  fun p q => inferInstanceAs (Decidable (witnessKey p ≤ witnessKey q))

def sortWitnesses (witnesses : List EventProvenance) : List EventProvenance :=
  witnesses.insertionSort WitnessLe

/-- Events under their identities, in the order of a Python dictionary. -/
abbrev Events := AList fun _ : Text => CalendarEvent

/-- The version a merge keeps, with the witnesses of both. -/
def mergedEvent (event previous : CalendarEvent) (newer : Bool) : CalendarEvent :=
  { (if newer then event else previous) with
    provenance := sortWitnesses (addWitnesses previous.provenance event.provenance) }

/-- Whether two versions conflict: the hashes are computed where the revisions are equal. -/
def conflicts (event previous : CalendarEvent) : Except Raised Bool := do
  if (← event.revision env) = (← previous.revision env) then
    pure ((← event.semanticHash env) != (← previous.semanticHash env))
  else pure false

/-- `merge_event_into`: a conflict is raised before any change. -/
def mergeEventInto (merged : Events) (event : CalendarEvent) : Except Raised Events := do
  let identity ← event.identity env
  match merged.lookup identity with
  | none => pure (assign merged identity event)
  | some previous =>
    if ← conflicts env event previous then
      throw (.calendarImportError (conflictMessage event previous))
    else
      let newer := decide ((← previous.revision env) < (← event.revision env))
      pure (assign merged identity (mergedEvent event previous newer))

/-- `merge_events`. -/
def mergeEvents (current : Events) (incoming : List CalendarEvent) : Except Raised Events :=
  incoming.foldlM (mergeEventInto env) current

end Coppermind.Calendar
