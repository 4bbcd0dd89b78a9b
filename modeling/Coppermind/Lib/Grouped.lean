import Mathlib.Data.List.Induction

/-!
# Groups in order of first appearance

A list is grouped under a key as a mapping does it whose keys keep the order of their first
insertion.  The first group whose key has a property is that of the first element whose key has
it, and that element heads the group.
-/

namespace Coppermind.Lib

variable {κ α : Type} [DecidableEq κ]

/-- `groups.setdefault(k, []).append(a)`. -/
def addTo (groups : List (κ × List α)) (k : κ) (a : α) : List (κ × List α) :=
  if groups.any (·.1 == k) then
    groups.map fun group => if group.1 = k then (k, group.2 ++ [a]) else group
  else groups ++ [(k, [a])]

/-- The groups of a list. -/
def grouped (key : α → κ) (l : List α) : List (κ × List α) :=
  l.foldl (fun groups a => addTo groups (key a) a) []

variable {key : α → κ} {p : κ → Bool}

theorem grouped_append_singleton (l : List α) (a : α) :
    grouped key (l ++ [a]) = addTo (grouped key l) (key a) a := by
  rw [grouped, List.foldl_append]
  rfl

theorem removeAll_singleton (k : κ) (l : List κ) :
    [k].removeAll l = if k ∈ l then [] else [k] := by
  unfold List.removeAll
  by_cases hmem : k ∈ l
  · simp [hmem]
  · simp [hmem]

/-- A key of a group is the key of an element, and the group has all elements of that key. -/
theorem grouped_eq (l : List α) :
    grouped key l = (l.map key).eraseDups.map fun k => (k, l.filter fun a => key a = k) := by
  induction l using List.reverseRecOn with
  | nil => rfl
  | append_singleton l a ih =>
    have hany : (grouped key l).any (·.1 == key a) = true ↔ key a ∈ l.map key := by
      rw [ih, List.any_map, List.any_eq_true]
      simp only [Function.comp_apply, beq_iff_eq, exists_eq_right, List.mem_eraseDups]
    rw [grouped_append_singleton, addTo, List.map_append, List.eraseDups_append]
    by_cases hmem : key a ∈ l.map key
    · rw [if_pos (hany.2 hmem), List.map_singleton, removeAll_singleton, if_pos hmem, List.eraseDups_nil, List.append_nil, ih,
        List.map_map]
      apply List.map_congr_left
      intro k _
      by_cases hk : k = key a
      · simp [hk]
      · simp [hk, Ne.symm hk]
    · have hempty : (l.filter fun b => key b = key a) = [] := by
        rw [List.filter_eq_nil_iff]
        intro b hb heq
        exact hmem (List.mem_map.2 ⟨b, hb, by simpa using heq⟩)
      rw [if_neg (fun h => hmem (hany.1 h)), List.map_singleton, removeAll_singleton,
        if_neg hmem, List.map_append, ih]
      congr 1
      · apply List.map_congr_left
        intro k hk
        have hne : key a ≠ k := by
          rintro rfl
          exact hmem (List.mem_eraseDups.1 hk)
        simp [hne]
      · simp [List.eraseDups_cons, hempty]

theorem find?_eraseDups (l : List κ) : l.eraseDups.find? p = l.find? p := by
  induction l using List.reverseRecOn with
  | nil => rfl
  | append_singleton l a ih =>
    rw [List.eraseDups_append, List.find?_append, List.find?_append, ih]
    by_cases hmem : a ∈ l
    · rw [removeAll_singleton, if_pos hmem, List.eraseDups_nil, List.find?_nil]
      cases hfind : l.find? p with
      | some b => rfl
      | none =>
        have hfalse := List.find?_eq_none.1 hfind a hmem
        simp [List.find?, hfalse]
    · rw [removeAll_singleton, if_neg hmem]
      simp [List.eraseDups_cons]

/-- **The first group** with a property of its key is the group of the first element with it. -/
theorem find?_grouped (key : α → κ) (p : κ → Bool) (l : List α) :
    (grouped key l).find? (fun group => p group.1) =
      (l.find? fun a => p (key a)).map fun a => (key a, l.filter fun b => key b = key a) := by
  rw [grouped_eq, List.find?_map]
  have hcomp : ((fun group : κ × List α => p group.1) ∘
      fun k => (k, l.filter fun a => key a = k)) = p := rfl
  rw [hcomp, find?_eraseDups, List.find?_map, Option.map_map]
  rfl

/-- It heads that group. -/
theorem head?_filter_key (key : α → κ) {l : List α} {a : α}
    (h : l.find? (fun b => p (key b)) = some a) :
    (l.filter fun b => key b = key a).head? = some a := by
  rw [List.head?_filter]
  induction l with
  | nil => cases h
  | cons b l ih =>
    rw [List.find?_cons] at h ⊢
    cases hb : p (key b) with
    | true =>
      rw [hb] at h
      obtain rfl := Option.some.inj h
      simp
    | false =>
      rw [hb] at h
      have hne : key b ≠ key a := by
        intro heq
        have ha := List.find?_some h
        rw [← heq, hb] at ha
        cases ha
      simp [hne, ih h]

omit [DecidableEq κ] in
/-- What is found first in lists one after another is in the first list that has such an element. -/
theorem exists_of_find?_flatMap {β : Type} {l : List β} {f : β → List α} {q : α → Bool} {a : α}
    (h : (l.flatMap f).find? q = some a) : ∃ before b after, l = before ++ b :: after ∧ a ∈ f b ∧
      ∀ c ∈ before, ∀ d ∈ f c, q d = false := by
  induction l with
  | nil => cases h
  | cons b l ih =>
    rw [List.flatMap_cons, List.find?_append] at h
    cases hfirst : (f b).find? q with
    | some found =>
      rw [hfirst] at h
      obtain rfl := Option.some.inj h
      exact ⟨[], b, l, rfl, List.mem_of_find?_eq_some hfirst, by simp⟩
    | none =>
      rw [hfirst, Option.none_or] at h
      obtain ⟨before, c, after, rfl, hmem, hbefore⟩ := ih h
      refine ⟨b :: before, c, after, rfl, hmem, ?_⟩
      intro e he d hd
      obtain rfl | he := List.mem_cons.1 he
      · exact Bool.eq_false_iff.2 (List.find?_eq_none.1 hfirst d hd)
      · exact hbefore e he d hd

end Coppermind.Lib
