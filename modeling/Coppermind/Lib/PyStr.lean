import Coppermind.Lib.Text

/-!
# Strings that may hold lone surrogates

A `str` of the language is a list of code points, and one that comes from an undecodable file
name or an escape in a document can hold a surrogate, which no text does.  `PyStr` keeps the
code points; `encodable` says there is a text behind them.
-/

namespace Coppermind.Lib

/-- A `str`: its code points. -/
abbrev PyStr := List Nat

instance PyStr.lawfulBEq : LawfulBEq PyStr := inferInstance

namespace PyStr

open Text

def ofText (t : Text) : PyStr := t.map Char.toNat

def lit (s : String) : PyStr := ofText s.toList

def isSurrogate (c : Nat) : Bool := 0xd800 ≤ c && c ≤ 0xdfff

/-- `text.encode("utf-8")` does not raise. -/
def encodable (s : PyStr) : Bool := s.all (!isSurrogate ·)

/-- `text.replace("\x00", "")`. -/
def dropNul (s : PyStr) : PyStr := s.filter (· ≠ 0)

def slash : Nat := 0x2f

def dot : Nat := 0x2e

/-- The components of a path relative to some root. -/
def parts (path : PyStr) : List PyStr := path.splitOn slash

/-- `path.name`. -/
def name (path : PyStr) : PyStr := (parts path).getLastD []

/-- Where the suffix of a name starts: at its last dot, when characters stand on both sides. -/
def suffixStart? (name : PyStr) : Option Nat :=
  let ending := name.rtakeWhile (· ≠ dot)
  let stem := (name.rdropWhile (· ≠ dot)).dropLast
  if ending.length < name.length ∧ ending ≠ [] ∧ stem ≠ [] then some stem.length else none

/-- `path.suffix` of a name. -/
def suffix (name : PyStr) : PyStr :=
  match suffixStart? name with
  | some i => name.drop i
  | none => []

/-- `path.stem` of a name. -/
def stem (name : PyStr) : PyStr :=
  match suffixStart? name with
  | some i => name.take i
  | none => name

/-- The closing bracket of a pattern's `[seq]`, which a leading `!` or `]` does not close. -/
def bracket? (pattern : PyStr) : Option (PyStr × PyStr) :=
  let (opening, rest) := match pattern with
    | 0x21 :: 0x5d :: rest => ([0x21, 0x5d], rest)
    | 0x21 :: rest => ([0x21], rest)
    | 0x5d :: rest => ([0x5d], rest)
    | rest => ([], rest)
  let inside := rest.takeWhile (· ≠ 0x5d)
  if inside.length < rest.length then some (opening ++ inside, rest.drop (inside.length + 1))
  else none

/-- Whether a character is in the `seq` of a bracket: a listed one or one of a range. -/
def inSeq (c : Nat) : PyStr → Bool
  | lo :: 0x2d :: hi :: rest => (lo ≤ c && c ≤ hi) || inSeq c rest
  | d :: rest => c == d || inSeq c rest
  | [] => false

def matchesSeq (c : Nat) : PyStr → Bool
  | 0x21 :: seq => !inSeq c seq
  | seq => inSeq c seq

/-- The steps of `fnmatchcase`; each takes a character of the name, of the pattern or of both. -/
def fnmatchFrom : Nat → PyStr → PyStr → Bool
  | 0, _, _ => false
  | fuel + 1, name, pattern =>
    match pattern with
    | [] => name == []
    | 0x2a :: rest =>
      fnmatchFrom fuel name rest ||
        match name with
        | _ :: name => fnmatchFrom fuel name pattern
        | [] => false
    | 0x3f :: rest =>
      match name with
      | _ :: name => fnmatchFrom fuel name rest
      | [] => false
    | 0x5b :: rest =>
      match bracket? rest, name with
      | some (seq, rest), c :: name => matchesSeq c seq && fnmatchFrom fuel name rest
      | some _, [] => false
      | none, c :: name => c == 0x5b && fnmatchFrom fuel name rest
      | none, [] => false
    | d :: rest =>
      match name with
      | c :: name => c == d && fnmatchFrom fuel name rest
      | [] => false

/-- `fnmatch.fnmatchcase`. -/
def fnmatchcase (name pattern : PyStr) : Bool :=
  fnmatchFrom (name.length + pattern.length + 1) name pattern

theorem encodable_ofText (t : Text) : encodable (ofText t) = true := by
  simp only [encodable, ofText, List.all_eq_true, List.mem_map, forall_exists_index, and_imp,
    forall_apply_eq_imp_iff₂, Bool.not_eq_true']
  intro c _
  have hvalid : c.toNat < 0xd800 ∨ 0xdfff < c.toNat ∧ c.toNat < 0x110000 := c.valid
  simp only [isSurrogate, Bool.and_eq_false_iff, decide_eq_false_iff_not]
  omega

@[simp] theorem zero_notMem_dropNul (s : PyStr) : 0 ∉ s.dropNul := by
  simp [dropNul]

end PyStr

end Coppermind.Lib
