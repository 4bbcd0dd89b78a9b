import Coppermind.Frontmatter.Value

/-!
# Looking up a key

What `get`, `in` and assignment of a mapping say of each other.
-/

namespace Coppermind.Frontmatter

open Coppermind.Lib

section Lookups

variable {k key : Text} {v w : Value}

theorem isText_iff {value : Value} : value.isText k = true ↔ value = .str k := by
  cases value <;> simp [Value.isText]

theorem get?_cons (entry : Value × Value) (entries : Entries) :
    Entries.get? k (entry :: entries) =
      if entry.1.isText k then some entry.2 else Entries.get? k entries := by
  unfold Entries.get?
  rw [List.find?_cons]
  cases entry.1.isText k <;> rfl

theorem get?_nil : Entries.get? k [] = none := rfl

theorem get?_append (entries others : Entries) :
    Entries.get? k (entries ++ others) = (Entries.get? k entries).or (Entries.get? k others) := by
  unfold Entries.get?
  rw [List.find?_append]
  cases List.find? (fun entry => entry.1.isText k) entries <;> simp

theorem get?_isSome (entries : Entries) : (entries.get? k).isSome = entries.has k := by
  induction entries with
  | nil => rfl
  | cons entry rest ih =>
    rw [get?_cons, Entries.has, List.any_cons]
    cases entry.1.isText k with
    | true => rfl
    | false => exact ih

/-- A mapping whose values change as their keys say. -/
theorem get?_map (f : Value → Value → Value) (entries : Entries) :
    Entries.get? k (entries.map fun e => (e.1, f e.1 e.2)) =
      (Entries.get? k entries).map (f (.str k)) := by
  induction entries with
  | nil => rfl
  | cons entry rest ih =>
    rw [List.map_cons, get?_cons, get?_cons, ih]
    cases h : entry.1.isText k with
    | true => simp [isText_iff.1 h]
    | false => simp

theorem get?_replace (p : Value → Bool) (entries : Entries) :
    Entries.get? k (entries.map fun e => if p e.1 then (e.1, v) else e) =
      (Entries.get? k entries).map fun old => if p (.str k) then v else old := by
  rw [← get?_map fun key old => if p key then v else old]
  congr 1
  apply List.map_congr_left
  intro e _
  by_cases h : p e.1 <;> simp [h]

theorem get?_set_self (entries : Entries) : (entries.set key v).get? key = some v := by
  unfold Entries.set
  cases h : entries.has key with
  | true =>
    simp only [if_true]
    rw [get?_replace]
    rw [← get?_isSome, Option.isSome_iff_exists] at h
    obtain ⟨old, hold⟩ := h
    simp [hold, Value.isText]
  | false =>
    simp only [Bool.false_eq_true, if_false]
    rw [← get?_isSome, Option.isSome_eq_false_iff, Option.isNone_iff_eq_none] at h
    rw [get?_append, h, get?_cons]
    simp [Value.isText]

theorem get?_set_of_ne (h : k ≠ key) (entries : Entries) :
    (entries.set key v).get? k = entries.get? k := by
  have hne : (Value.str k).isText key = false := by simp [Value.isText, h]
  unfold Entries.set
  cases entries.has key with
  | true =>
    simp only [if_true]
    rw [get?_replace]
    simp [hne]
  | false =>
    simp only [Bool.false_eq_true, if_false]
    rw [get?_append, get?_cons, get?_nil]
    simp [Value.isText, Ne.symm h]

/-- A key that is only set where it is absent leaves what is there. -/
theorem get?_setDefault {entries : Entries} (h : entries.get? k = some v) :
    Entries.get? k (if entries.has key then entries else entries.set key w) = some v := by
  cases hkey : entries.has key with
  | true => simpa using h
  | false =>
    simp only [Bool.false_eq_true, if_false]
    rw [get?_set_of_ne _ _, h]
    rintro rfl
    rw [← get?_isSome, h] at hkey
    cases hkey

end Lookups

end Coppermind.Frontmatter
