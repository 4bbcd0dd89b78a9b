import Mathlib.Data.List.DropRight
import Coppermind.Lib.Text

/-!
# Base64 for URLs

`base64.urlsafe_b64encode`, and `base64.b64decode` with the same two characters and `validate`.
The digits of a text are its body, which the padding fills up to a multiple of four; a body that
was cut free of its padding is padded again by its length alone.
-/

namespace Coppermind.Lib.Base64

def alphabet : Text :=
  "ABCDEFGHIJKLMNOPQRSTUVWXYZabcdefghijklmnopqrstuvwxyz0123456789-_".toList

def pad : Char := '='

/-- The digit of a value below 64. -/
def digit (value : Nat) : Char := alphabet.getD value 'A'

/-- The value of a digit; the two characters of the plain alphabet are read too. -/
def value? (c : Char) : Option Nat :=
  if c = '+' then some 62
  else if c = '/' then some 63
  else
    let i := alphabet.idxOf c
    if i < 64 then some i else none

/-- The digits of some bytes. -/
def body : List UInt8 → Text
  | a :: b :: c :: rest =>
    digit (a.toNat / 4) :: digit (a.toNat % 4 * 16 + b.toNat / 16) ::
      digit (b.toNat % 16 * 4 + c.toNat / 64) :: digit (c.toNat % 64) :: body rest
  | [a, b] =>
    [digit (a.toNat / 4), digit (a.toNat % 4 * 16 + b.toNat / 16), digit (b.toNat % 16 * 4)]
  | [a] => [digit (a.toNat / 4), digit (a.toNat % 4 * 16)]
  | [] => []

/-- `text + "=" * (-len(text) % 4)`. -/
def padded (text : Text) : Text := text ++ List.replicate ((4 - text.length % 4) % 4) pad

/-- `urlsafe_b64encode`. -/
def encode (data : List UInt8) : Text := padded (body data)

/-- `b64decode`, none where it raises. -/
def decode : Text → Option (List UInt8)
  | [] => some []
  | w :: x :: y :: z :: rest => do
    let w ← value? w
    let x ← value? x
    if y = pad then
      if z = pad ∧ rest = [] then pure [(w * 4 + x / 16).toUInt8] else none
    else do
      let y ← value? y
      let two := [(w * 4 + x / 16).toUInt8, (x % 16 * 16 + y / 4).toUInt8]
      if z = pad then
        if rest = [] then pure two else none
      else do
        let z ← value? z
        let others ← decode rest
        pure (two ++ (y % 4 * 64 + z).toUInt8 :: others)
  | _ => none

theorem value_digit {n : Nat} (h : n < 64) : value? (digit n) = some n := by
  have hall : ∀ n < 64, value? (digit n) = some n := by decide +kernel
  exact hall n h

theorem digit_ne_pad (n : Nat) : digit n ≠ pad := by
  by_cases h : n < 64
  · have hall : ∀ n < 64, digit n ≠ pad := by decide +kernel
    exact hall n h
  · have hlength : alphabet.length ≤ n := by
      have : alphabet.length = 64 := by decide +kernel
      omega
    rw [digit, List.getD_eq_getElem?_getD, List.getElem?_eq_none hlength]
    decide

/-- No digit is padding. -/
theorem body_ne_pad (data : List UInt8) : ∀ c ∈ body data, c ≠ pad := by
  induction data using body.induct with
  | case1 a b c rest ih =>
    intro d hd
    simp only [body, List.mem_cons] at hd
    obtain rfl | rfl | rfl | rfl | hd := hd
    · exact digit_ne_pad _
    · exact digit_ne_pad _
    · exact digit_ne_pad _
    · exact digit_ne_pad _
    · exact ih d hd
  | case2 a b =>
    intro d hd
    simp only [body, List.mem_cons, List.not_mem_nil, or_false] at hd
    obtain rfl | rfl | rfl := hd
    · exact digit_ne_pad _
    · exact digit_ne_pad _
    · exact digit_ne_pad _
  | case3 a =>
    intro d hd
    simp only [body, List.mem_cons, List.not_mem_nil, or_false] at hd
    obtain rfl | rfl := hd
    · exact digit_ne_pad _
    · exact digit_ne_pad _
  | case4 =>
    intro d hd
    cases hd

/-- `rstrip("=")` leaves the digits. -/
theorem rstrip_encode (data : List UInt8) : (encode data).rdropWhile (· == pad) = body data := by
  unfold encode padded
  generalize (4 - (body data).length % 4) % 4 = n
  induction n with
  | zero =>
    rw [List.replicate_zero, List.append_nil]
    apply List.rdropWhile_eq_self_iff.2
    intro hne
    simpa using body_ne_pad data _ (List.getLast_mem hne)
  | succ n ih =>
    rw [List.replicate_succ', ← List.append_assoc, List.rdropWhile_concat_pos _ _ _ (by simp), ih]

theorem padded_cons {w x y z : Char} {text : Text} :
    padded (w :: x :: y :: z :: text) = w :: x :: y :: z :: padded text := by
  simp only [padded, List.length_cons, List.cons_append]
  rw [Nat.add_assoc, Nat.add_assoc, Nat.add_assoc, Nat.add_mod_right]

theorem toUInt8_toNat (b : UInt8) : b.toNat.toUInt8 = b := UInt8.ofNat_toNat

theorem decode_full {a b c : UInt8} {text : Text} {rest : List UInt8}
    (h : decode text = some rest) :
    decode (digit (a.toNat / 4) :: digit (a.toNat % 4 * 16 + b.toNat / 16) ::
      digit (b.toNat % 16 * 4 + c.toNat / 64) :: digit (c.toNat % 64) :: text) =
        some (a :: b :: c :: rest) := by
  have ha := a.toNat_lt
  have hb := b.toNat_lt
  have hc := c.toNat_lt
  rw [decode, value_digit (by omega), value_digit (by omega)]
  simp only [bind, Option.bind, digit_ne_pad, if_false]
  rw [value_digit (by omega)]
  simp only
  rw [value_digit (by omega), h]
  have h1 : a.toNat / 4 * 4 + (a.toNat % 4 * 16 + b.toNat / 16) / 16 = a.toNat := by omega
  have h2 : (a.toNat % 4 * 16 + b.toNat / 16) % 16 * 16 +
      (b.toNat % 16 * 4 + c.toNat / 64) / 4 = b.toNat := by omega
  have h3 : (b.toNat % 16 * 4 + c.toNat / 64) % 4 * 64 + c.toNat % 64 = c.toNat := by omega
  simp only [pure, List.cons_append, List.nil_append, h1, h2, h3, toUInt8_toNat]

/-- **Round trip**. -/
theorem decode_encode (data : List UInt8) : decode (encode data) = some data := by
  induction data using body.induct with
  | case1 a b c rest ih =>
    rw [encode, body, padded_cons]
    exact decode_full ih
  | case2 a b =>
    have ha := a.toNat_lt
    have hb := b.toNat_lt
    have hpad : encode [a, b] = [digit (a.toNat / 4), digit (a.toNat % 4 * 16 + b.toNat / 16),
      digit (b.toNat % 16 * 4), pad] := rfl
    rw [hpad, decode, value_digit (by omega), value_digit (by omega)]
    simp only [bind, Option.bind, digit_ne_pad, if_false]
    rw [value_digit (by omega)]
    have h1 : a.toNat / 4 * 4 + (a.toNat % 4 * 16 + b.toNat / 16) / 16 = a.toNat := by omega
    have h2 : (a.toNat % 4 * 16 + b.toNat / 16) % 16 * 16 + b.toNat % 16 * 4 / 4 = b.toNat := by
      omega
    simp only [pure, if_true, h1, h2, toUInt8_toNat]
  | case3 a =>
    have ha := a.toNat_lt
    have hpad : encode [a] = [digit (a.toNat / 4), digit (a.toNat % 4 * 16), pad, pad] := rfl
    rw [hpad, decode, value_digit (by omega), value_digit (by omega)]
    have h1 : a.toNat / 4 * 4 + a.toNat % 4 * 16 / 16 = a.toNat := by omega
    simp only [bind, Option.bind, if_true, and_self, pure, h1, toUInt8_toNat]
  | case4 => rfl

/-- **Padding again** what was stripped gives the encoding back. -/
theorem decode_padded_rstrip (data : List UInt8) :
    decode (padded ((encode data).rdropWhile (· == pad))) = some data := by
  rw [rstrip_encode]
  exact decode_encode data

end Coppermind.Lib.Base64
