import Coppermind.Lib.PyStr

/-!
# JSON texts

`json.dumps` with compact separators and `json.loads`, on the code points of a text. A character
outside the printable range is written as one escape, or two for a code point above the first
plane; the reader joins a high surrogate's escape with a low one's. A string of scalar values is
read back as it was, and so is an object of such strings.
-/

namespace Coppermind.Lib

/-- A value as `json.loads` gives it; a float is its literal. -/
inductive Json where
  | null
  | bool (b : Bool)
  | int (i : Int)
  | float (literal : PyStr)
  | str (s : PyStr)
  | arr (items : List Json)
  | obj (members : List (PyStr × Json))

namespace Json

/-- A hexadecimal digit in lower case. -/
def hexDigit (n : Nat) : Nat := if n < 10 then 0x30 + n else 0x57 + n

def hexValue? (c : Nat) : Option Nat :=
  if 0x30 ≤ c ∧ c ≤ 0x39 then some (c - 0x30)
  else if 0x61 ≤ c ∧ c ≤ 0x66 then some (c - 0x57)
  else if 0x41 ≤ c ∧ c ≤ 0x46 then some (c - 0x37)
  else none

/-- `\uXXXX`. -/
def unicodeEscape (unit : Nat) : PyStr :=
  [0x5c, 0x75, hexDigit (unit / 4096), hexDigit (unit / 256 % 16), hexDigit (unit / 16 % 16),
    hexDigit (unit % 16)]

/-- The character an escape of one letter stands for. -/
def shortEscapes : List (Nat × Nat) :=
  [(0x22, 0x22), (0x5c, 0x5c), (0x2f, 0x2f), (0x62, 0x08), (0x66, 0x0c), (0x6e, 0x0a),
    (0x72, 0x0d), (0x74, 0x09)]

/-- How `ensure_ascii` writes a character. -/
def writeChar (c : Nat) : PyStr :=
  if c = 0x22 then [0x5c, 0x22]
  else if c = 0x5c then [0x5c, 0x5c]
  else if 0x20 ≤ c ∧ c ≤ 0x7e then [c]
  else if c = 0x0a then [0x5c, 0x6e]
  else if c = 0x0d then [0x5c, 0x72]
  else if c = 0x09 then [0x5c, 0x74]
  else if c = 0x0c then [0x5c, 0x66]
  else if c = 0x08 then [0x5c, 0x62]
  else if c < 0x10000 then unicodeEscape c
  else unicodeEscape (0xd800 + (c - 0x10000) / 0x400) ++
    unicodeEscape (0xdc00 + (c - 0x10000) % 0x400)

def writeString (s : PyStr) : PyStr := 0x22 :: (s.flatMap writeChar ++ [0x22])

def writeMember (key value : PyStr) : PyStr := writeString key ++ 0x3a :: value

/-- `",".join(parts)`. -/
def commas : List PyStr → PyStr
  | [] => []
  | [part] => part
  | part :: parts => part ++ 0x2c :: commas parts

mutual

/-- `json.dumps(value, separators=(",", ":"))`. -/
def dumps : Json → PyStr
  | null => PyStr.lit "null"
  | bool b => PyStr.lit (if b then "true" else "false")
  | int i => PyStr.lit (toString i)
  | float literal => literal
  | str s => writeString s
  | arr items => 0x5b :: (commas (dumpItems items) ++ [0x5d])
  | obj members => 0x7b :: (commas (dumpMembers members) ++ [0x7d])
termination_by structural value => value

def dumpItems : List Json → List PyStr
  | [] => []
  | item :: items => dumps item :: dumpItems items
termination_by structural items => items

def dumpMembers : List (PyStr × Json) → List PyStr
  | [] => []
  | member :: members => dumpMember member :: dumpMembers members
termination_by structural members => members

def dumpMember : PyStr × Json → PyStr
  | (key, value) => writeMember key (dumps value)
termination_by structural member => member

end

/-- Four hexadecimal digits. -/
def hex4? (a b c d : Nat) : Option Nat := do
  let a ← hexValue? a
  let b ← hexValue? b
  let c ← hexValue? c
  let d ← hexValue? d
  pure (a * 4096 + b * 256 + c * 16 + d)

/-- The low surrogate whose escape comes next. -/
def low? : PyStr → Option (Nat × PyStr)
  | 0x5c :: 0x75 :: a :: b :: c :: d :: rest => do
    let unit ← hex4? a b c d
    if 0xdc00 ≤ unit ∧ unit ≤ 0xdfff then pure (unit, rest) else none
  | _ => none

/-- A character of a string, read behind the opening quote. -/
def readChar : PyStr → Option (Nat × PyStr)
  | 0x5c :: 0x75 :: a :: b :: c :: d :: rest => do
    let unit ← hex4? a b c d
    if 0xd800 ≤ unit ∧ unit ≤ 0xdbff then
      match low? rest with
      | some (low, rest) => pure (0x10000 + (unit - 0xd800) * 0x400 + (low - 0xdc00), rest)
      | none => pure (unit, rest)
    else pure (unit, rest)
  | 0x5c :: c :: rest => do
    let c ← shortEscapes.lookup c
    pure (c, rest)
  | 0x5c :: [] => none
  | c :: rest => if c < 0x20 then none else some (c, rest)
  | [] => none

/-- The rest of a string, to its closing quote. -/
def readString : Nat → PyStr → Option (PyStr × PyStr)
  | 0, _ => none
  | _ + 1, 0x22 :: rest => some ([], rest)
  | fuel + 1, text => do
    let (c, rest) ← readChar text
    let (s, rest) ← readString fuel rest
    pure (c :: s, rest)

def isSpace (c : Nat) : Bool := c == 0x20 || c == 0x09 || c == 0x0a || c == 0x0d

def skip (text : PyStr) : PyStr := text.dropWhile isSpace

def isDigit (c : Nat) : Bool := 0x30 ≤ c && c ≤ 0x39

def natOf (digits : PyStr) : Nat := digits.foldl (fun n c => n * 10 + (c - 0x30)) 0

/-- `(\.[0-9]+)?`. -/
def fraction (text : PyStr) : PyStr × PyStr :=
  match text with
  | 0x2e :: rest =>
    let digits := rest.takeWhile isDigit
    if digits = [] then ([], text) else (0x2e :: digits, rest.drop digits.length)
  | _ => ([], text)

/-- `([eE][-+]?[0-9]+)?`. -/
def exponent (text : PyStr) : PyStr × PyStr :=
  match text with
  | e :: rest =>
    if e = 0x65 ∨ e = 0x45 then
      let sign := match rest with
        | 0x2b :: _ => [0x2b]
        | 0x2d :: _ => [0x2d]
        | _ => []
      let digits := (rest.drop sign.length).takeWhile isDigit
      if digits = [] then ([], text)
      else (e :: (sign ++ digits), rest.drop (sign.length + digits.length))
    else ([], text)
  | [] => ([], text)

/-- A number without its sign; an integer has at most as many digits as the language converts. -/
def readNumber (negative : Bool) (text : PyStr) : Option (Json × PyStr) :=
  let digits := match text with
    | 0x30 :: _ => [0x30]
    | _ => text.takeWhile isDigit
  if digits = [] then none
  else
    let (decimals, rest) := fraction (text.drop digits.length)
    let (power, rest) := exponent rest
    if decimals = [] ∧ power = [] then
      if 4300 < digits.length then none
      else some (int (if negative then -(natOf digits : Int) else natOf digits), rest)
    else some (float ((if negative then [0x2d] else []) ++ digits ++ decimals ++ power), rest)

/-- The constants, `NaN` and the infinities among them. -/
def constants : List (PyStr × Json) :=
  [(PyStr.lit "null", null), (PyStr.lit "true", bool true), (PyStr.lit "false", bool false),
    (PyStr.lit "NaN", float (PyStr.lit "NaN")),
    (PyStr.lit "Infinity", float (PyStr.lit "Infinity")),
    (PyStr.lit "-Infinity", float (PyStr.lit "-Infinity"))]

def readConstant (text : PyStr) : Option (Json × PyStr) :=
  (constants.find? fun constant => constant.1.isPrefixOf text).map fun constant =>
    (constant.2, text.drop constant.1.length)

section Containers

variable (read : PyStr → Option (Json × PyStr))

/-- The items of an array, the first of which is not white space. -/
def readItems : Nat → PyStr → Option (List Json × PyStr)
  | 0, _ => none
  | fuel + 1, text => do
    let (item, rest) ← read text
    match skip rest with
    | 0x2c :: rest => do
      let (items, rest) ← readItems fuel (skip rest)
      pure (item :: items, rest)
    | 0x5d :: rest => pure ([item], rest)
    | _ => none

/-- A member of an object. -/
def readMember : PyStr → Option ((PyStr × Json) × PyStr)
  | 0x22 :: rest => do
    let (key, rest) ← readString (rest.length + 1) rest
    match skip rest with
    | 0x3a :: rest => do
      let (value, rest) ← read (skip rest)
      pure ((key, value), rest)
    | _ => none
  | _ => none

/-- The members of an object that has one. -/
def readMembers : Nat → PyStr → Option (List (PyStr × Json) × PyStr)
  | 0, _ => none
  | fuel + 1, text => do
    let (member, rest) ← readMember read text
    match skip rest with
    | 0x2c :: rest => do
      let (members, rest) ← readMembers fuel (skip rest)
      pure (member :: members, rest)
    | 0x7d :: rest => pure ([member], rest)
    | _ => none

end Containers

/-- `scan_once`, nested no deeper than the fuel. -/
def readValue : Nat → PyStr → Option (Json × PyStr)
  | 0, _ => none
  | fuel + 1, text =>
    match text with
    | 0x22 :: rest => (readString (rest.length + 1) rest).map fun (s, rest) => (str s, rest)
    | 0x5b :: rest =>
      match skip rest with
      | 0x5d :: rest => some (arr [], rest)
      | rest => (readItems (readValue fuel) (rest.length + 1) rest).map fun (items, rest) =>
        (arr items, rest)
    | 0x7b :: rest =>
      match skip rest with
      | 0x7d :: rest => some (obj [], rest)
      | rest => (readMembers (readValue fuel) (rest.length + 1) rest).map fun (members, rest) =>
        (obj members, rest)
    | text =>
      match readConstant text with
      | some constant => some constant
      | none =>
        match text with
        | 0x2d :: rest => readNumber true rest
        | text => readNumber false text

/-- `json.loads`, none where it raises. -/
def loads (text : PyStr) : Option Json :=
  match readValue (text.length + 1) (skip text) with
  | some (value, rest) => if skip rest = [] then some value else none
  | none => none

/-- `mapping.get(key)` of a decoded object, where a repeated key takes its last value. -/
def get? (members : List (PyStr × Json)) (key : PyStr) : Option Json :=
  (members.reverse.find? (·.1 == key)).map (·.2)

/-- A code point that is no surrogate. -/
def Scalar (c : Nat) : Prop := PyStr.isSurrogate c = false ∧ c < 0x110000

section Strings

theorem hexValue_hexDigit {n : Nat} (h : n < 16) : hexValue? (hexDigit n) = some n := by
  have hall : ∀ n < 16, hexValue? (hexDigit n) = some n := by decide
  exact hall n h

theorem hex4_unicodeEscape {unit : Nat} (h : unit < 0x10000) :
    hex4? (hexDigit (unit / 4096)) (hexDigit (unit / 256 % 16)) (hexDigit (unit / 16 % 16))
      (hexDigit (unit % 16)) = some unit := by
  unfold hex4?
  rw [hexValue_hexDigit (by omega), hexValue_hexDigit (by omega), hexValue_hexDigit (by omega),
    hexValue_hexDigit (by omega)]
  simp only [Option.bind_eq_bind, Option.bind_some, Option.pure_def, Option.some.injEq]
  omega

theorem low_unicodeEscape {unit : Nat} {rest : PyStr} (hlo : 0xdc00 ≤ unit)
    (hhi : unit ≤ 0xdfff) : low? (unicodeEscape unit ++ rest) = some (unit, rest) := by
  simp only [unicodeEscape, List.cons_append, List.nil_append, low?]
  rw [hex4_unicodeEscape (by omega)]
  simp [hlo, hhi]

/-- An escape of no surrogate is read alone. -/
theorem readChar_unicodeEscape {unit : Nat} {rest : PyStr} (hlt : unit < 0x10000)
    (hhigh : ¬(0xd800 ≤ unit ∧ unit ≤ 0xdbff)) :
    readChar (unicodeEscape unit ++ rest) = some (unit, rest) := by
  simp only [unicodeEscape, List.cons_append, List.nil_append, readChar]
  rw [hex4_unicodeEscape hlt]
  simp only [Option.bind_eq_bind, Option.bind_some, if_neg hhigh, Option.pure_def]

/-- The escapes of two surrogates are read as one character. -/
theorem readChar_surrogates {high low : Nat} {rest : PyStr} (hlo : 0xd800 ≤ high)
    (hhi : high ≤ 0xdbff) (hlo' : 0xdc00 ≤ low) (hhi' : low ≤ 0xdfff) :
    readChar (unicodeEscape high ++ (unicodeEscape low ++ rest)) =
      some (0x10000 + (high - 0xd800) * 0x400 + (low - 0xdc00), rest) := by
  rw [unicodeEscape.eq_def high]
  simp only [List.cons_append, List.nil_append, readChar]
  rw [hex4_unicodeEscape (by omega)]
  simp only [Option.bind_eq_bind, Option.bind_some, hlo, hhi, and_self, if_true,
    low_unicodeEscape hlo' hhi', Option.pure_def]

/-- A code point of a higher plane is what its two surrogates encode. -/
theorem pair_eq {c n : Nat} (h : c = n + 0x10000) :
    0x10000 + (0xd800 + n / 0x400 - 0xd800) * 0x400 + (0xdc00 + n % 0x400 - 0xdc00) = c := by
  omega

/-- **A character** that was written is read back. -/
theorem readChar_writeChar {c : Nat} (h : Scalar c) (rest : PyStr) :
    readChar (writeChar c ++ rest) = some (c, rest) := by
  obtain ⟨hscalar, hlt⟩ := h
  simp only [PyStr.isSurrogate, Bool.and_eq_false_iff, decide_eq_false_iff_not] at hscalar
  unfold writeChar
  split_ifs with hquote hback hplain hn hr ht hf hb hbmp
  · subst hquote
    rfl
  · subst hback
    rfl
  · have hne : c ≠ 0x5c := hback
    have hlow : ¬c < 0x20 := by omega
    rw [List.singleton_append, readChar.eq_def]
    split
    · rename_i heq
      exact absurd (List.cons.inj heq).1 hne
    · rename_i heq
      exact absurd (List.cons.inj heq).1 hne
    · rename_i heq
      exact absurd (List.cons.inj heq).1 hne
    · rename_i heq
      obtain ⟨rfl, rfl⟩ := List.cons.inj heq
      rw [if_neg hlow]
    · rename_i heq
      exact absurd heq (List.cons_ne_nil _ _)
  · subst hn
    rfl
  · subst hr
    rfl
  · subst ht
    rfl
  · subst hf
    rfl
  · subst hb
    rfl
  · exact readChar_unicodeEscape hbmp (by omega)
  · obtain ⟨n, hn⟩ : ∃ n, c = n + 0x10000 := ⟨c - 0x10000, by omega⟩
    have hsub : c - 0x10000 = n := by omega
    rw [List.append_assoc, hsub,
      readChar_surrogates (by omega) (by omega) (by omega) (by omega), pair_eq hn]

/-- What is written for a character does not close the string. -/
theorem writeChar_cons (c : Nat) : ∃ d rest, writeChar c = d :: rest ∧ d ≠ 0x22 := by
  unfold writeChar
  split_ifs with hquote
  · exact ⟨_, _, rfl, by decide⟩
  · exact ⟨_, _, rfl, by decide⟩
  · exact ⟨_, _, rfl, hquote⟩
  · exact ⟨_, _, rfl, by decide⟩
  · exact ⟨_, _, rfl, by decide⟩
  · exact ⟨_, _, rfl, by decide⟩
  · exact ⟨_, _, rfl, by decide⟩
  · exact ⟨_, _, rfl, by decide⟩
  · exact ⟨_, _, rfl, by decide⟩
  · exact ⟨_, _, rfl, by decide⟩

theorem length_le_flatMap_writeChar (s : PyStr) : s.length ≤ (s.flatMap writeChar).length := by
  induction s with
  | nil => exact Nat.le_refl 0
  | cons c s ih =>
    obtain ⟨d, rest, hwrite, -⟩ := writeChar_cons c
    rw [List.flatMap_cons, hwrite, List.length_append, List.length_cons, List.length_cons]
    omega

/-- **A string** that was written is read back. -/
theorem readString_write {s : PyStr} (h : ∀ c ∈ s, Scalar c) (rest : PyStr) :
    ∀ fuel, s.length < fuel →
      readString fuel (s.flatMap writeChar ++ 0x22 :: rest) = some (s, rest) := by
  induction s with
  | nil =>
    intro fuel hfuel
    obtain ⟨fuel, rfl⟩ := Nat.exists_eq_succ_of_ne_zero (Nat.ne_of_gt hfuel)
    rfl
  | cons c s ih =>
    intro fuel hfuel
    rw [List.length_cons] at hfuel
    obtain ⟨fuel, rfl⟩ := Nat.exists_eq_succ_of_ne_zero (Nat.ne_of_gt (Nat.zero_lt_of_lt hfuel))
    have hread := readChar_writeChar (h c List.mem_cons_self)
      (s.flatMap writeChar ++ 0x22 :: rest)
    have hrest := ih (fun d hd => h d (List.mem_cons_of_mem _ hd)) fuel (by omega)
    obtain ⟨d, more, hwrite, hd⟩ := writeChar_cons c
    rw [List.flatMap_cons, List.append_assoc]
    rw [hwrite, List.cons_append] at hread ⊢
    rw [readString]
    · rw [hread]
      simp only [Option.bind_eq_bind, Option.bind_some, hrest, Option.pure_def]
    · intro more' heq
      exact hd (List.cons.inj heq).1

end Strings

section Objects

/-- What follows a member's value: the text ends, or a comma or the closing brace comes. -/
def Ends (rest : PyStr) : Prop := rest.head? = some 0x2c ∨ rest.head? = some 0x7d

/-- A value that is no container: none, a digit above zero or a string of scalar values. -/
inductive Flat : Json → Prop
  | null : Flat null
  | digit (n : Nat) : 0 < n → n < 10 → Flat (int n)
  | str (s : PyStr) : (∀ c ∈ s, Scalar c) → Flat (str s)

theorem readValue_digit {n fuel : Nat} (hpos : 0 < n) (hlt : n < 10) {rest : PyStr}
    (h : Ends rest) : readValue (fuel + 1) (dumps (int n) ++ rest) = some (int n, rest) := by
  have hdumps : dumps (int n) = [0x30 + n] := by
    have hall : ∀ n : Nat, n < 10 → dumps (int n) = [0x30 + n] := by decide
    exact hall n hlt
  have hstop : rest.takeWhile isDigit = [] ∧ fraction rest = ([], rest) ∧
      exponent rest = ([], rest) := by
    cases rest with
    | nil => exact ⟨rfl, rfl, rfl⟩
    | cons c rest =>
      obtain hc | hc := h
      · obtain rfl := Option.some.inj hc
        exact ⟨rfl, rfl, rfl⟩
      · obtain rfl := Option.some.inj hc
        exact ⟨rfl, rfl, rfl⟩
  obtain ⟨hdigits, hfraction, hexponent⟩ := hstop
  rw [hdumps, List.singleton_append]
  obtain ⟨m, rfl⟩ := Nat.exists_eq_succ_of_ne_zero (Nat.ne_of_gt hpos)
  have hcases : m = 0 ∨ m = 1 ∨ m = 2 ∨ m = 3 ∨ m = 4 ∨ m = 5 ∨ m = 6 ∨ m = 7 ∨ m = 8 := by omega
  obtain rfl | rfl | rfl | rfl | rfl | rfl | rfl | rfl | rfl := hcases <;>
    simp [readValue, readConstant, constants, PyStr.lit, PyStr.ofText, readNumber, isDigit,
      hdigits, hfraction, hexponent, natOf]

/-- **A flat value** that was written is read back. -/
theorem Flat.readValue_dumps {value : Json} (h : Flat value) {fuel : Nat} {rest : PyStr}
    (hends : Ends rest) : readValue (fuel + 1) (dumps value ++ rest) = some (value, rest) := by
  cases h with
  | null => rfl
  | digit n hpos hlt => exact readValue_digit hpos hlt hends
  | str s hs =>
    have hlength : s.length < (s.flatMap writeChar ++ 0x22 :: rest).length + 1 := by
      have hle := length_le_flatMap_writeChar s
      rw [List.length_append]
      omega
    rw [dumps, writeString, List.cons_append, List.append_assoc, List.singleton_append]
    simp only [readValue, readString_write hs rest _ hlength, Option.map_some]

/-- What is written for a flat value does not begin with white space. -/
theorem Flat.skip_dumps {value : Json} (h : Flat value) (rest : PyStr) :
    skip (dumps value ++ rest) = dumps value ++ rest := by
  cases h with
  | null => rfl
  | digit n hpos hlt =>
    have hall : ∀ n : Nat, n < 10 → dumps (int n) = [0x30 + n] ∧ isSpace (0x30 + n) = false := by
      decide
    obtain ⟨hdumps, hspace⟩ := hall n hlt
    rw [hdumps, List.singleton_append, skip, List.dropWhile_cons_of_neg (by simp [hspace])]
  | str s hs => rfl

variable {fuel : Nat}

/-- **A member** that was written is read back. -/
theorem readMember_dumpMember {member : PyStr × Json} (hkey : ∀ c ∈ member.1, Scalar c)
    (hvalue : Flat member.2) {rest : PyStr} (hends : Ends rest) :
    readMember (readValue (fuel + 1)) (dumpMember member ++ rest) = some (member, rest) := by
  obtain ⟨key, value⟩ := member
  have hlength : key.length <
      (key.flatMap writeChar ++ 0x22 :: 0x3a :: (dumps value ++ rest)).length + 1 := by
    have hle := length_le_flatMap_writeChar key
    rw [List.length_append]
    omega
  have hread := readString_write hkey (0x3a :: (dumps value ++ rest)) _ hlength
  have hcolon : skip (0x3a :: (dumps value ++ rest)) = 0x3a :: (dumps value ++ rest) := rfl
  simp only [dumpMember, writeMember, writeString, List.cons_append, List.append_assoc,
    List.nil_append, readMember, hread, Option.bind_eq_bind, Option.bind_some, hcolon,
    hvalue.skip_dumps, hvalue.readValue_dumps hends, Option.pure_def]

/-- The first member begins with a quote. -/
theorem commas_dumpMembers_cons (member : PyStr × Json) (members : List (PyStr × Json)) :
    ∃ more, commas (dumpMembers (member :: members)) = 0x22 :: more := by
  obtain ⟨key, value⟩ := member
  cases members with
  | nil =>
    simp only [dumpMembers, dumpMember, writeMember, writeString, commas, List.cons_append]
    exact ⟨_, rfl⟩
  | cons next members =>
    simp only [dumpMembers, dumpMember, writeMember, writeString, commas, List.cons_append]
    exact ⟨_, rfl⟩

theorem length_le_commas (members : List (PyStr × Json)) :
    members.length ≤ (commas (dumpMembers members)).length := by
  induction members with
  | nil => exact Nat.zero_le _
  | cons member members ih =>
    cases members with
    | nil =>
      obtain ⟨more, hmore⟩ := commas_dumpMembers_cons member []
      rw [hmore, List.length_cons, List.length_cons, List.length_nil]
      omega
    | cons next members =>
      rw [dumpMembers, commas, List.length_append, List.length_cons, List.length_cons]
      · simp only [List.length_cons] at ih ⊢
        omega
      · rw [dumpMembers]
        exact List.cons_ne_nil _ _

/-- **The members** of an object that was written are read back. -/
theorem readMembers_dumpMembers {members : List (PyStr × Json)} (hne : members ≠ [])
    (hkeys : ∀ member ∈ members, ∀ c ∈ member.1, Scalar c)
    (hvalues : ∀ member ∈ members, Flat member.2) (rest : PyStr) :
    ∀ count, members.length ≤ count → readMembers (readValue (fuel + 1)) count
      (commas (dumpMembers members) ++ 0x7d :: rest) = some (members, rest) := by
  induction members with
  | nil => exact absurd rfl hne
  | cons member members ih =>
    intro count hcount
    rw [List.length_cons] at hcount
    obtain ⟨count, rfl⟩ : ∃ n, count = n + 1 := ⟨count - 1, by omega⟩
    have hkey := hkeys member List.mem_cons_self
    have hvalue := hvalues member List.mem_cons_self
    cases members with
    | nil =>
      have hmember := @readMember_dumpMember fuel member hkey hvalue (0x7d :: rest) (.inr rfl)
      have hskip : skip (0x7d :: rest) = 0x7d :: rest := rfl
      simp only [dumpMembers, commas, readMembers, hmember, Option.bind_eq_bind,
        Option.bind_some, hskip, Option.pure_def]
    | cons next members =>
      have hmore := ih (by simp) (fun m hm => hkeys m (List.mem_cons_of_mem _ hm))
        (fun m hm => hvalues m (List.mem_cons_of_mem _ hm)) count (by omega)
      have hmember := @readMember_dumpMember fuel member hkey hvalue
        (0x2c :: (commas (dumpMembers (next :: members)) ++ 0x7d :: rest)) (.inl rfl)
      have hcomma : ∀ text, skip (0x2c :: text) = 0x2c :: text := fun _ => rfl
      have hquote : skip (commas (dumpMembers (next :: members)) ++ 0x7d :: rest) =
          commas (dumpMembers (next :: members)) ++ 0x7d :: rest := by
        obtain ⟨more, hmore⟩ := commas_dumpMembers_cons next members
        rw [hmore]
        rfl
      rw [dumpMembers, commas, List.append_assoc, List.cons_append, readMembers]
      · simp only [hmember, Option.bind_eq_bind, Option.bind_some, hcomma, hquote, hmore,
          Option.pure_def]
      · rw [dumpMembers]
        exact List.cons_ne_nil _ _

/-- **Round trip** of an object of flat members. -/
theorem loads_dumps {members : List (PyStr × Json)} (hne : members ≠ [])
    (hkeys : ∀ member ∈ members, ∀ c ∈ member.1, Scalar c)
    (hvalues : ∀ member ∈ members, Flat member.2) :
    loads (dumps (obj members)) = some (obj members) := by
  obtain ⟨member, members, rfl⟩ := List.exists_cons_of_ne_nil hne
  have hlength := length_le_commas (member :: members)
  have hread : ∀ fuel, readMembers (readValue (fuel + 1))
      ((commas (dumpMembers (member :: members)) ++ [0x7d]).length + 1)
      (commas (dumpMembers (member :: members)) ++ [0x7d]) = some (member :: members, []) := by
    intro fuel
    apply readMembers_dumpMembers hne hkeys hvalues
    rw [List.length_append]
    omega
  obtain ⟨more, hmore⟩ := commas_dumpMembers_cons member members
  rw [hmore, List.cons_append] at hread
  have hspace : ∀ text, skip (0x22 :: text) = 0x22 :: text := fun _ => rfl
  have hbrace : ∀ text, skip (0x7b :: text) = 0x7b :: text := fun _ => rfl
  have hvalue : ∀ fuel, readValue (fuel + 2) (dumps (obj (member :: members))) =
      some (obj (member :: members), []) := by
    intro fuel
    rw [dumps, hmore, List.cons_append, readValue]
    simp only [hspace, hread, Option.map_some]
  have htwo : ∃ n, (dumps (obj (member :: members))).length + 1 = n + 2 := by
    rw [dumps, List.length_cons]
    exact ⟨_, rfl⟩
  obtain ⟨n, hn⟩ := htwo
  have hskip : skip (dumps (obj (member :: members))) = dumps (obj (member :: members)) := by
    rw [dumps, hbrace]
  unfold loads
  rw [hskip, hn, hvalue]
  rfl

end Objects

end Json

end Coppermind.Lib
