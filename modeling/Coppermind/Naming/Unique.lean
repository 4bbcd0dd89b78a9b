import Mathlib.Data.List.Perm.Subperm
import Coppermind.Lib.Bounded
import Coppermind.Naming.Portable

/-!
# The search for a free stem

`unique_stem` numbers the candidates until one is free.  The number stands between the last `(` and
the closing mark of the candidate, whatever is cut off its head, so that no two of them are the same
name, and one more candidate than there are taken stems always holds a free one.
-/

namespace Coppermind.Naming

open scoped Coppermind.Lib.Bounded
open Coppermind.Lib Coppermind.Lib.Text
open Coppermind.Notes.Folders (uniqueStem)

section Candidates

/-- `f" ({suffix})"`. -/
def counterTail (n : Nat) : Text :=
  " (".toList ++ (toString n).toList ++ ")".toList

/-- The candidate of one number. -/
def candidateStem (stem : Text) (n : Nat) : Text :=
  fit stem (maxStemLength - (counterTail n).length) (maxStemBytes - utf8Length (counterTail n)) ++
    counterTail n

theorem length_counterTail (n : Nat) :
    (counterTail n).length = (Nat.toDigits 10 n).length + 3 := by
  rw [counterTail, Nat.toString_eq_repr, Nat.toList_repr]
  simp only [List.length_append]
  change 2 + _ + 1 = _
  omega

theorem length_counterTail_le_iff (n k : Nat) (hk : 0 < k) :
    (counterTail n).length ≤ k + 3 ↔ n < 10 ^ k := by
  rw [length_counterTail, ← Nat.length_toDigits_le_iff (by decide) hk]
  omega

theorem length_counterTail_mono {m n : Nat} (h : m ≤ n) :
    (counterTail m).length ≤ (counterTail n).length := by
  have hpos : 0 < (Nat.toDigits 10 n).length := Nat.length_toDigits_pos
  rw [length_counterTail n, length_counterTail_le_iff _ _ hpos]
  exact Nat.lt_of_le_of_lt h ((length_counterTail_le_iff _ _ hpos).1 (length_counterTail n).le)

theorem isDigit_of_mem_toString {n : Nat} {c : Char} (h : c ∈ (toString n).toList) :
    c.isDigit = true := by
  rw [Nat.toString_eq_repr, Nat.toList_repr] at h
  exact Nat.isDigit_of_mem_toDigits (by decide) (by decide) h

theorem mem_counterTail {n : Nat} {c : Char} (h : c ∈ counterTail n) :
    c ∈ [' ', '.', '(', ')'] ∨ c.isDigit = true := by
  obtain h | h := List.mem_append.1 h
  · obtain h | h := List.mem_append.1 h
    · exact .inl ((by decide : ∀ c ∈ " (".toList, c ∈ [' ', '.', '(', ')']) c h)
    · exact .inr (isDigit_of_mem_toString h)
  · exact .inl ((by decide : ∀ c ∈ ")".toList, c ∈ [' ', '.', '(', ')']) c h)

theorem utf8Length_counterTail (n : Nat) : utf8Length (counterTail n) = (counterTail n).length := by
  have hsize : ∀ c ∈ counterTail n, c.utf8Size = 1 := by
    intro c hc
    obtain h | h := mem_counterTail hc
    · exact (by decide : ∀ c ∈ [' ', '.', '(', ')'], Char.utf8Size c = 1) c h
    · exact (by decide : ∀ c ∈ "0123456789".toList, Char.utf8Size c = 1) c (mem_digits_of_isDigit h)
  rw [utf8Length, List.map_congr_left hsize]
  simp

/-- A candidate fits while its counter does. -/
theorem candidateStem_budgets (stem : Text) {n : Nat} (h : n < 10 ^ 117) :
    (candidateStem stem n).length ≤ maxStemLength ∧
      utf8Length (candidateStem stem n) ≤ maxStemBytes := by
  have htail : (counterTail n).length ≤ 117 + 3 := (length_counterTail_le_iff n 117 (by decide)).2 h
  obtain ⟨hchars, hbytes⟩ := fit_budgets stem (maxStemLength - (counterTail n).length)
    (maxStemBytes - utf8Length (counterTail n))
  rw [candidateStem, List.length_append, utf8Length_append]
  rw [utf8Length_counterTail] at hchars hbytes ⊢
  unfold maxStemLength maxStemBytes at *
  omega

variable {unicode : Unicode}

theorem CaseMapping.fixed_text {f : Text → Text} (h : CaseMapping f) {t : Text}
    (ht : ∀ c ∈ t, c ∈ [' ', '.', '(', ')'] ∨ c.isDigit = true) : f t = t := by
  induction t with
  | nil => exact h.nil
  | cons c t ih =>
    rw [h.cons, h.fixed c (ht c List.mem_cons_self), ih fun d hd => ht d (List.mem_cons_of_mem _ hd)]
    rfl

/-- The number of a candidate is read back from its end. -/
theorem toDigits_of_append_counterTail (s : Text) (n : Nat) :
    ((s ++ counterTail n).reverse.tail.takeWhile Char.isDigit).reverse = Nat.toDigits 10 n := by
  have hreverse : (s ++ counterTail n).reverse.tail =
      (Nat.toDigits 10 n).reverse ++ '(' :: ' ' :: s.reverse := by
    rw [counterTail, Nat.toString_eq_repr, Nat.toList_repr]
    simp
  have hdigits : ∀ c ∈ (Nat.toDigits 10 n).reverse, c.isDigit = true := fun c hc =>
    Nat.isDigit_of_mem_toDigits (by decide) (by decide) (List.mem_reverse.1 hc)
  rw [hreverse, List.takeWhile_append_of_pos hdigits, List.takeWhile_cons_of_neg (by decide),
    List.append_nil, List.reverse_reverse]

theorem toDigits_inj {m n : Nat} (h : Nat.toDigits 10 m = Nat.toDigits 10 n) : m = n := by
  have hvalue := congrArg (fun t => Nat.ofDigitChars 10 t 0) h
  simpa [Nat.ofDigitChars_toDigits] using hvalue

theorem counterTail_inj {m n : Nat} (h : counterTail m = counterTail n) : m = n := by
  have hdigits : Nat.toDigits 10 m = Nat.toDigits 10 n := by
    rw [← toDigits_of_append_counterTail [] m, h, toDigits_of_append_counterTail]
  exact toDigits_inj hdigits

/-- **The candidates** are pairwise different names. -/
theorem casefold_candidateStem_inj (hfold : CaseMapping unicode.casefold) {stem : Text} {m n : Nat}
    (h : unicode.casefold (candidateStem stem m) = unicode.casefold (candidateStem stem n)) :
    m = n := by
  unfold candidateStem at h
  rw [hfold.append, hfold.append, hfold.fixed_text fun c hc => mem_counterTail hc,
    hfold.fixed_text fun c hc => mem_counterTail hc] at h
  have hdigits : Nat.toDigits 10 m = Nat.toDigits 10 n := by
    rw [← toDigits_of_append_counterTail _ m, h, toDigits_of_append_counterTail]
  exact toDigits_inj hdigits

end Candidates

section Search

variable {fold : Text → Text} {candidate : Nat → Text} {lowered : List Text}

/-- The `while True` of a search among numbered names, entered at a number: the name it returns. -/
inductive Search (fold : Text → Text) (candidate : Nat → Text) (lowered : List Text) :
    Nat → Text → Prop
  | free {n : Nat} : fold (candidate n) ∉ lowered → Search fold candidate lowered n (candidate n)
  | taken {n : Nat} {found : Text} : fold (candidate n) ∈ lowered →
      Search fold candidate lowered (n + 1) found → Search fold candidate lowered n found

/-- The loop is deterministic. -/
theorem Search.unique {n : Nat} {s t : Text} (hs : Search fold candidate lowered n s)
    (ht : Search fold candidate lowered n t) : s = t := by
  induction hs with
  | free hfree =>
    cases ht with
    | free _ => rfl
    | taken htaken _ => exact absurd htaken hfree
  | taken htaken _ ih =>
    cases ht with
    | free hfree => exact absurd htaken hfree
    | taken _ hrest => exact ih hrest

/-- The name returned is the first free one. -/
theorem Search.first {start : Nat} {found : Text} (h : Search fold candidate lowered start found) :
    ∃ n, start ≤ n ∧ found = candidate n ∧ fold (candidate n) ∉ lowered ∧
      ∀ m, start ≤ m → m < n → fold (candidate m) ∈ lowered := by
  induction h with
  | @free n hfree => exact ⟨n, le_rfl, rfl, hfree, fun m hm hlt => absurd hlt (by omega)⟩
  | @taken start found htaken _ ih =>
    obtain ⟨n, hn, hfound, hfree, hbefore⟩ := ih
    refine ⟨n, by omega, hfound, hfree, ?_⟩
    intro m hm hlt
    by_cases hstart : m = start
    · rw [hstart]
      exact htaken
    · exact hbefore m (by omega) hlt

/-- Where a free name comes, the loop ends. -/
theorem Search.ends {start n : Nat} (hn : start ≤ n) (hfree : fold (candidate n) ∉ lowered) :
    ∃ found, Search fold candidate lowered start found := by
  obtain ⟨k, rfl⟩ := Nat.exists_eq_add_of_le hn
  clear hn
  induction k generalizing start with
  | zero => exact ⟨_, .free hfree⟩
  | succ k ih =>
    by_cases htaken : fold (candidate start) ∈ lowered
    · obtain ⟨found, hfound⟩ := @ih (start + 1) (by rwa [Nat.add_right_comm])
      exact ⟨found, .taken htaken hfound⟩
    · exact ⟨_, .free htaken⟩

/-- Among more different names than there are taken ones one is free. -/
theorem exists_free (hinj : ∀ m n, fold (candidate m) = fold (candidate n) → m = n) (start : Nat) :
    ∃ n, start ≤ n ∧ n ≤ start + lowered.length ∧ fold (candidate n) ∉ lowered := by
  by_contra hnone
  push Not at hnone
  have hnodup : ((List.range' start (lowered.length + 1)).map fun n => fold (candidate n)).Nodup :=
    List.Nodup.map hinj List.nodup_range'
  have hsubset : ((List.range' start (lowered.length + 1)).map fun n => fold (candidate n)) ⊆
      lowered := by
    intro t ht
    obtain ⟨n, hn, rfl⟩ := List.mem_map.1 ht
    rw [List.mem_range'_1] at hn
    exact hnone n hn.1 (by omega)
  have hlength := (List.subperm_of_subset hnodup hsubset).length_le
  rw [List.length_map, List.length_range'] at hlength
  omega

/-- A bounded search that comes to a free name is the loop. -/
theorem find?_range'_of_search {k start n : Nat} {found : Text}
    (h : Search fold candidate lowered start found) (hfree : fold (candidate n) ∉ lowered)
    (hn : start ≤ n) (hk : n < start + k) :
    ((List.range' start k).map candidate).find? (fun name => fold name ∉ lowered) = some found := by
  induction k generalizing start with
  | zero => omega
  | succ k ih =>
    rw [List.range'_succ, List.map_cons]
    cases h with
    | free hstart => rw [List.find?_cons_of_pos (by simpa using hstart)]
    | taken htaken hrest =>
      rw [List.find?_cons_of_neg (by simpa using htaken)]
      have hne : n ≠ start := by
        rintro rfl
        exact hfree htaken
      exact ih hrest (by omega) (by omega)

end Search

section Stems

variable {unicode : Unicode} {stem : Text} {taken : List Text}

theorem uniqueStem_eq : uniqueStem unicode stem taken =
    if unicode.casefold stem ∉ taken.map unicode.casefold then some stem
    else ((List.range' 2 (taken.length + 1)).map (candidateStem stem)).find? fun candidate =>
      unicode.casefold candidate ∉ taken.map unicode.casefold := rfl

/-- The loop ends at a free candidate, and `uniqueStem` returns it for a taken stem. -/
theorem search_ends (hfold : CaseMapping unicode.casefold) (stem : Text) (taken : List Text) :
    ∃ n, 2 ≤ n ∧ n ≤ 2 + taken.length ∧
      unicode.casefold (candidateStem stem n) ∉ taken.map unicode.casefold ∧
      Search unicode.casefold (candidateStem stem) (taken.map unicode.casefold) 2
        (candidateStem stem n) ∧
      (unicode.casefold stem ∈ taken.map unicode.casefold →
        uniqueStem unicode stem taken = some (candidateStem stem n)) := by
  obtain ⟨free, hlow, hhigh, hnot⟩ := @exists_free unicode.casefold (candidateStem stem)
    (taken.map unicode.casefold) (fun m n h => casefold_candidateStem_inj hfold h) 2
  rw [List.length_map] at hhigh
  obtain ⟨found, hsearch⟩ := Search.ends hlow hnot
  obtain ⟨n, hn, rfl, hfree, hbefore⟩ := hsearch.first
  have hle : n ≤ free := by
    by_contra hlt
    exact hnot (hbefore free hlow (by omega))
  refine ⟨n, hn, by omega, hfree, hsearch, ?_⟩
  intro hstem
  rw [uniqueStem_eq, if_neg (not_not.2 hstem), find?_range'_of_search hsearch hnot hlow (by omega)]

/-- **A free stem** is found, in a loop that ends: it is the stem itself where that is free, and it
fits the budgets as long as the counter does. -/
theorem uniqueStem_spec (hfold : CaseMapping unicode.casefold) (stem : Text) (taken : List Text)
    (hchars : stem.length ≤ maxStemLength) (hbytes : utf8Length stem ≤ maxStemBytes) :
    (∃ found, Search unicode.casefold (candidateStem stem) (taken.map unicode.casefold) 2 found) ∧
      ∃ found, uniqueStem unicode stem taken = some found ∧
        (unicode.casefold stem ∈ taken.map unicode.casefold →
          Search unicode.casefold (candidateStem stem) (taken.map unicode.casefold) 2 found) ∧
        unicode.casefold found ∉ taken.map unicode.casefold ∧
        (unicode.casefold stem ∉ taken.map unicode.casefold → found = stem) ∧
        (taken.length + 2 < 10 ^ 117 →
          found.length ≤ maxStemLength ∧ utf8Length found ≤ maxStemBytes) := by
  obtain ⟨n, -, hn, hfree, hsearch, hreturned⟩ := search_ends hfold stem taken
  refine ⟨⟨_, hsearch⟩, ?_⟩
  by_cases hstem : unicode.casefold stem ∈ taken.map unicode.casefold
  · exact ⟨_, hreturned hstem, fun _ => hsearch, hfree, fun h => absurd hstem h,
      fun hbound => candidateStem_budgets stem (by omega)⟩
  · refine ⟨stem, ?_, fun h => absurd h hstem, hstem, fun _ => rfl, fun _ => ⟨hchars, hbytes⟩⟩
    rw [uniqueStem_eq, if_pos hstem]

end Stems

section Sample

open Coppermind.Notes.Folders (ascii)

theorem toLower_fixed {c : Char} (h : c ∈ [' ', '.', '(', ')'] ∨ c.isDigit = true) :
    c.toLower = c := by
  obtain h | h := h
  · exact (by decide : ∀ c ∈ [' ', '.', '(', ')'], Char.toLower c = c) c h
  · exact (by decide : ∀ c ∈ "0123456789".toList, Char.toLower c = c) c (mem_digits_of_isDigit h)

theorem toLower_dot {c : Char} (h : c.toLower = '.') : c = '.' := by
  by_cases hupper : c.val ≥ 'A'.val ∧ c.val ≤ 'Z'.val
  · have hall : ∀ n < 91, 65 ≤ n → (Char.ofNat n).toLower ≠ '.' := by decide
    have hhigh : c.toNat ≤ 90 := hupper.2
    refine absurd ?_ (hall c.toNat (by omega) hupper.1)
    rwa [Char.ofNat_toNat]
  · have hself : c.toLower = c := dif_neg hupper
    rwa [hself] at h

theorem ascii_casefold : CaseMapping ascii.casefold where
  append := fun s t => List.map_append
  ne_nil := fun c => List.cons_ne_nil _ _
  fixed := by
    intro c hc
    change [c.toLower] = [c]
    rw [toLower_fixed hc]
  dot := by
    intro c hc
    exact toLower_dot (List.mem_singleton.1 hc).symm

theorem uniqueStem_ascii : ∃ found,
    uniqueStem ascii "Notes".toList ["notes".toList, "NOTES (2)".toList] = some found ∧
      found.length ≤ maxStemLength ∧ utf8Length found ≤ maxStemBytes := by
  obtain ⟨-, found, hfound, -, -, -, hbudgets⟩ := uniqueStem_spec ascii_casefold "Notes".toList
    ["notes".toList, "NOTES (2)".toList] (by decide) (by decide)
  exact ⟨found, hfound, hbudgets (by simp)⟩

/-- A folder that holds a stem and every candidate of it whose counter fits. -/
def crowded : List Text :=
  "A".toList :: (List.range' 2 (10 ^ 117 - 2)).map (candidateStem "A".toList)

/-- What the search finds in a folder so crowded is too long. -/
theorem uniqueStem_crowded : ∃ found,
    uniqueStem ascii "A".toList crowded = some found ∧ ¬ found.length ≤ maxStemLength := by
  obtain ⟨n, hstart, -, hfree, -, hreturned⟩ := search_ends ascii_casefold "A".toList crowded
  refine ⟨_, hreturned (List.mem_map_of_mem List.mem_cons_self), ?_⟩
  intro hlength
  have htail : (counterTail n).length ≤ 117 + 3 := by
    rw [candidateStem, List.length_append] at hlength
    unfold maxStemLength at hlength
    omega
  have hn : n < 10 ^ 117 := (length_counterTail_le_iff n 117 (by decide)).1 htail
  apply hfree
  apply List.mem_map_of_mem
  exact List.mem_cons_of_mem _ (List.mem_map_of_mem (List.mem_range'_1.2 ⟨hstart, by omega⟩))

end Sample

end Coppermind.Naming
