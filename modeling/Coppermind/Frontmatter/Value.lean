import Coppermind.Lib.Text
import Mathlib.Data.Rat.Defs
import Mathlib.Data.List.Basic

/-!
# The values a frontmatter block loads to

The round trip loader hands the store Python objects.  `Value` keeps the
distinctions the store's code asks about (`isinstance` tests, `None`, text) and
leaves everything else to `other`, which carries the text `str` gives it.
-/

namespace Coppermind.Frontmatter

open Coppermind.Lib

/-- A `float`. -/
inductive PyFloat where
  | finite (q : Rat)
  | inf (negative : Bool)
  | nan
  deriving DecidableEq

/-- A `datetime.date`. -/
structure Date where
  year : Nat
  month : Nat
  day : Nat
  deriving DecidableEq

/-- A `datetime.datetime`; `tzinfo` is the offset in seconds of an aware one. -/
structure DateTime where
  date : Date
  hour : Nat
  minute : Nat
  second : Nat
  microsecond : Nat
  tzinfo : Option Int
  deriving DecidableEq

inductive Value where
  | null
  | bool (b : Bool)
  | int (i : Int)
  | float (f : PyFloat)
  | str (s : Text)
  /-- A `str` holding a lone surrogate, which no `Char` is: its code points. -/
  | surrogateStr (points : List Nat)
  | date (d : Date)
  | datetime (d : DateTime)
  /-- ruamel's `TimeStamp`, the subclass of `datetime` that remembers its spelling. -/
  | timestamp (d : DateTime)
  | seq (flow : Bool) (items : List Value)
  | map (entries : List (Value × Value))
  /-- Anything else the loader makes: tagged scalars, binary, sets. -/
  | other (text : Text)
  deriving Inhabited

def isLeap (year : Nat) : Bool :=
  year % 4 == 0 && (year % 100 != 0 || year % 400 == 0)

def daysIn (year month : Nat) : Nat :=
  if month = 2 then (if isLeap year then 29 else 28)
  else if month ∈ [4, 6, 9, 11] then 30
  else 31

/-- `date(year, month, day)`, or none where Python raises `ValueError`. -/
def Date.make? (year month day : Nat) : Option Date :=
  if 1 ≤ year ∧ year ≤ 9999 ∧ 1 ≤ month ∧ month ≤ 12 ∧ 1 ≤ day ∧ day ≤ daysIn year month then
    some ⟨year, month, day⟩
  else none

/-- A naive `datetime`, or none where Python raises `ValueError`. -/
def DateTime.make? (year month day hour minute second : Nat) : Option DateTime := do
  let date ← Date.make? year month day
  if hour < 24 ∧ minute < 60 ∧ second < 60 then
    some ⟨date, hour, minute, second, 0, none⟩
  else none

/-- The zeros of the decimal digit runs of Unicode, which `\d` and `int` read. -/
def digitZeros : List Nat :=
  [0x30, 0x660, 0x6f0, 0x7c0, 0x966, 0x9e6, 0xa66, 0xae6, 0xb66, 0xbe6, 0xc66, 0xce6, 0xd66,
    0xde6, 0xe50, 0xed0, 0xf20, 0x1040, 0x1090, 0x17e0, 0x1810, 0x1946, 0x19d0, 0x1a80, 0x1a90,
    0x1b50, 0x1bb0, 0x1c40, 0x1c50, 0xa620, 0xa8d0, 0xa900, 0xa9d0, 0xa9f0, 0xaa50, 0xabf0,
    0xff10, 0x104a0, 0x10d30, 0x11066, 0x110f0, 0x11136, 0x111d0, 0x112f0, 0x11450, 0x114d0,
    0x11650, 0x116c0, 0x11730, 0x118e0, 0x11950, 0x11c50, 0x11d50, 0x11da0, 0x11f50, 0x16a60,
    0x16ac0, 0x16b50, 0x1d7ce, 0x1d7d8, 0x1d7e2, 0x1d7ec, 0x1d7f6, 0x1e140, 0x1e2f0, 0x1e4f0,
    0x1e950, 0x1fbf0]

def digit? (c : Char) : Option Nat :=
  (digitZeros.find? fun first => first ≤ c.toNat && c.toNat < first + 10).map (c.toNat - ·)

/-- Exactly `n` digits, read as a number, and what follows them. -/
def digits? : Nat → Nat → Text → Option (Nat × Text)
  | 0, value, t => some (value, t)
  | n + 1, value, c :: t => do digits? n (value * 10 + (← digit? c)) t
  | _ + 1, _, [] => none

def char? (c : Char) : Text → Option Text
  | d :: t => if d = c then some t else none
  | [] => none

/-- `_LOCAL_DATETIME.match`: the six numbers, the seconds 0 when absent. -/
def localDatetime? (t : Text) : Option (Nat × Nat × Nat × Nat × Nat × Nat) := do
  let (year, t) ← digits? 4 0 t
  let (month, t) ← digits? 2 0 (← char? '-' t)
  let (day, t) ← digits? 2 0 (← char? '-' t)
  let (hour, t) ← digits? 2 0 (← char? 'T' t)
  let (minute, t) ← digits? 2 0 (← char? ':' t)
  match t with
  | [] => some (year, month, day, hour, minute, 0)
  | _ :: _ =>
    let (second, t) ← digits? 2 0 (← char? ':' t)
    if t = [] then some (year, month, day, hour, minute, second) else none

def dateKeys : List Text :=
  [['d', 'a', 't', 'e'], ['t', 'i', 'm', 'e']]

/-- `_yaml_scalar`: a date and time under `date` or `time` is written unquoted. -/
def yamlScalar (key : Text) (value : Value) : Value :=
  if key ∉ dateKeys then value
  else
    match value with
    | .datetime d =>
      if d.tzinfo = none then .timestamp { d with microsecond := 0 } else value
    | .str s =>
      match localDatetime? s.strip with
      | none => value
      | some (year, month, day, hour, minute, second) =>
        match DateTime.make? year month day hour minute second with
        | none => value
        | some d => .timestamp d
    | _ => value

/-- Whether a key of a loaded mapping is the text `key`. -/
def Value.isText (key : Text) : Value → Bool
  | .str s => s == key
  | _ => false

abbrev Entries := List (Value × Value)

namespace Entries

/-- `key in mapping`. -/
def has (key : Text) (entries : Entries) : Bool :=
  entries.any (·.1.isText key)

/-- `mapping.get(key)`, none when the key is absent. -/
def get? (key : Text) (entries : Entries) : Option Value :=
  (entries.find? (·.1.isText key)).map (·.2)

/-- `mapping.pop(key, None)`. -/
def pop (key : Text) (entries : Entries) : Entries :=
  entries.filter fun entry => !entry.1.isText key

/-- `mapping[key] = value`: in its place when present, else after the rest. -/
def set (key : Text) (value : Value) (entries : Entries) : Entries :=
  if entries.has key then
    entries.map fun entry => if entry.1.isText key then (entry.1, value) else entry
  else entries ++ [(.str key, value)]

theorem set_ne_nil (key : Text) (value : Value) (entries : Entries) :
    entries.set key value ≠ [] := by
  unfold set
  split
  · next h =>
    rintro h'
    have : entries = [] := by simpa using h'
    simp [this, has] at h
  · simp

end Entries

/-- How two numbers compare under `==`: booleans are integers, an infinity only
equals itself and a NaN nothing. -/
inductive Number where
  | rational (q : Rat)
  | infinite (negative : Bool)
  deriving DecidableEq

def Value.number? : Value → Option Number
  | .bool b => some (.rational (if b then 1 else 0))
  | .int i => some (.rational i)
  | .float (.finite q) => some (.rational q)
  | .float (.inf negative) => some (.infinite negative)
  | _ => none

mutual

/-- Python's `==` on loaded values. -/
def Value.pyEq : Value → Value → Bool
  | .null, .null => true
  | .str s, .str t => s == t
  | .surrogateStr s, .surrogateStr t => s == t
  | .date d, .date e => d == e
  | .datetime d, .datetime e => d == e
  | .datetime d, .timestamp e => d == e
  | .timestamp d, .datetime e => d == e
  | .timestamp d, .timestamp e => d == e
  | .seq _ xs, .seq _ ys => pyEqItems xs ys
  | .map xs, .map ys => xs.length == ys.length && pyEqEntries xs ys
  | .other s, .other t => s == t
  | v, w => match v.number?, w.number? with
    | some m, some n => m == n
    | _, _ => false
termination_by structural v => v

def pyEqItems : List Value → List Value → Bool
  | [], [] => true
  | v :: vs, w :: ws => v.pyEq w && pyEqItems vs ws
  | _, _ => false
termination_by structural items => items

/-- Every entry of the first mapping is an entry of the second. -/
def pyEqEntries : List (Value × Value) → List (Value × Value) → Bool
  | [], _ => true
  | entry :: rest, ys => pyEqEntry entry ys && pyEqEntries rest ys
termination_by structural entries => entries

def pyEqEntry : Value × Value → List (Value × Value) → Bool
  | (key, value), ys => ys.any fun other => key.pyEq other.1 && value.pyEq other.2
termination_by structural entry => entry

end

mutual

/-- Whether two values are one, to the spelling. -/
def Value.same : Value → Value → Bool
  | .null, .null => true
  | .bool a, .bool b => a == b
  | .int i, .int j => i == j
  | .float f, .float g => f == g
  | .str s, .str t => s == t
  | .surrogateStr s, .surrogateStr t => s == t
  | .date d, .date e => d == e
  | .datetime d, .datetime e => d == e
  | .timestamp d, .timestamp e => d == e
  | .seq flow xs, .seq flow' ys => flow == flow' && sameItems xs ys
  | .map xs, .map ys => sameEntries xs ys
  | .other s, .other t => s == t
  | _, _ => false
termination_by structural v => v

def sameItems : List Value → List Value → Bool
  | [], [] => true
  | v :: vs, w :: ws => v.same w && sameItems vs ws
  | _, _ => false
termination_by structural items => items

def sameEntries : List (Value × Value) → List (Value × Value) → Bool
  | [], [] => true
  | e :: es, f :: fs => sameEntry e f && sameEntries es fs
  | _, _ => false
termination_by structural entries => entries

def sameEntry : Value × Value → Value × Value → Bool
  | (key, value), (key', value') => key.same key' && value.same value'
termination_by structural entry => entry

end

mutual

theorem eq_of_same (v : Value) : ∀ w, v.same w = true → v = w := by
  intro w h
  cases v <;> cases w <;> simp only [Value.same, beq_iff_eq, Bool.and_eq_true] at h
  case null.null => rfl
  case seq.seq => rw [h.1, eq_of_sameItems _ _ h.2]
  case map.map => rw [eq_of_sameEntries _ _ h]
  all_goals first | rw [h] | cases h
termination_by structural v

theorem eq_of_sameItems (xs : List Value) : ∀ ys, sameItems xs ys = true → xs = ys := by
  intro ys h
  cases xs <;> cases ys <;> simp only [sameItems, Bool.and_eq_true] at h
  case nil.nil => rfl
  case cons.cons => rw [eq_of_same _ _ h.1, eq_of_sameItems _ _ h.2]
  all_goals cases h
termination_by structural xs

theorem eq_of_sameEntries (xs : List (Value × Value)) :
    ∀ ys, sameEntries xs ys = true → xs = ys := by
  intro ys h
  cases xs <;> cases ys <;> simp only [sameEntries, Bool.and_eq_true] at h
  case nil.nil => rfl
  case cons.cons => rw [eq_of_sameEntry _ _ h.1, eq_of_sameEntries _ _ h.2]
  all_goals cases h
termination_by structural xs

theorem eq_of_sameEntry (e : Value × Value) : ∀ f, sameEntry e f = true → e = f := by
  intro f h
  obtain ⟨key, value⟩ := e
  obtain ⟨key', value'⟩ := f
  simp only [sameEntry, Bool.and_eq_true] at h
  rw [eq_of_same _ _ h.1, eq_of_same _ _ h.2]
termination_by structural e

end

end Coppermind.Frontmatter
