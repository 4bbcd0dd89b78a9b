import Mathlib.Data.Char
import Mathlib.Data.List.Lex
import Coppermind.Lib.Text

/-!
# Padded decimals

Decimals padded to one width compare, character by character, as the numbers they write.  With
`append_lt_append_iff` the order of a text made of such fields is read off field by field.
-/

namespace Coppermind.Lib

/-- Texts of one length decide before what follows them does. -/
theorem append_lt_append_iff {a b s t : Text} (h : a.length = b.length) :
    a ++ s < b ++ t ↔ a < b ∨ a = b ∧ s < t := by
  induction a generalizing b with
  | nil =>
    obtain rfl := List.length_eq_zero_iff.1 h.symm
    simp
  | cons c a ih =>
    cases b with
    | nil => cases h
    | cons c' b =>
      have hlen : a.length = b.length := Nat.succ.inj h
      rw [List.cons_append, List.cons_append, List.cons_lt_cons_iff, List.cons_lt_cons_iff,
        ih hlen, List.cons.injEq]
      tauto

theorem cons_lt_cons_self {c : Char} {s t : Text} : c :: s < c :: t ↔ s < t := by
  simp

/-- `f"{n:0{width}d}"`, where it fits. -/
def digits : Nat → Nat → Text
  | 0, _ => []
  | width + 1, n => digits width (n / 10) ++ [Nat.digitChar (n % 10)]

@[simp] theorem length_digits (width n : Nat) : (digits width n).length = width := by
  induction width generalizing n with
  | zero => rfl
  | succ width ih => simp [digits, ih]

theorem digitChar_lt_iff {m n : Nat} (hm : m < 10) (hn : n < 10) :
    Nat.digitChar m < Nat.digitChar n ↔ m < n := by
  have h : ∀ m < 10, ∀ n < 10, Nat.digitChar m < Nat.digitChar n ↔ m < n := by decide
  exact h m hm n hn

/-- **Padded decimals** compare as numbers. -/
theorem digits_lt_iff {width m n : Nat} (hm : m < 10 ^ width) (hn : n < 10 ^ width) :
    digits width m < digits width n ↔ m < n := by
  induction width generalizing m n with
  | zero =>
    have : m = n := by omega
    simp [digits, this]
  | succ width ih =>
    have hm' : m / 10 < 10 ^ width := by rw [Nat.pow_succ] at hm; omega
    have hn' : n / 10 < 10 ^ width := by rw [Nat.pow_succ] at hn; omega
    have hlast : [Nat.digitChar (m % 10)] < [Nat.digitChar (n % 10)] ↔ m % 10 < n % 10 := by
      rw [← digitChar_lt_iff (Nat.mod_lt m (by decide)) (Nat.mod_lt n (by decide))]
      simp [List.cons_lt_cons_iff]
    have heq : digits width (m / 10) = digits width (n / 10) ↔ m / 10 = n / 10 := by
      constructor
      · intro h
        have hmn : ¬m / 10 < n / 10 := fun hlt => absurd ((ih hm' hn').2 hlt) (h ▸ lt_irrefl _)
        have hnm : ¬n / 10 < m / 10 := fun hlt => absurd ((ih hn' hm').2 hlt) (h ▸ lt_irrefl _)
        omega
      · exact congrArg _
    rw [digits, digits, append_lt_append_iff (by simp), ih hm' hn', heq, hlast]
    omega

theorem digits_inj {width m n : Nat} (hm : m < 10 ^ width) (hn : n < 10 ^ width)
    (h : digits width m = digits width n) : m = n := by
  have hmn : ¬m < n := fun hlt => absurd ((digits_lt_iff hm hn).2 hlt) (h ▸ lt_irrefl _)
  have hnm : ¬n < m := fun hlt => absurd ((digits_lt_iff hn hm).2 hlt) (h ▸ lt_irrefl _)
  omega

/-- A padded field, and what follows it. -/
theorem digits_append_lt_iff {width m n : Nat} {s t : Text} (hm : m < 10 ^ width)
    (hn : n < 10 ^ width) :
    digits width m ++ s < digits width n ++ t ↔ m < n ∨ m = n ∧ s < t := by
  rw [append_lt_append_iff (by simp), digits_lt_iff hm hn]
  constructor
  · intro h
    obtain h | ⟨h, hst⟩ := h
    · exact Or.inl h
    · exact Or.inr ⟨digits_inj hm hn h, hst⟩
  · intro h
    obtain h | ⟨h, hst⟩ := h
    · exact Or.inl h
    · exact Or.inr ⟨congrArg _ h, hst⟩

end Coppermind.Lib
