import Coppermind.Lib.Bounded
import Coppermind.Sources.Document

/-!
# Which generated names are portable

`sanitize_stem` cleans a name, suffixes a device name and cuts the result to both budgets.  All of
`PortableName` but its last clause holds of every result (`FittingName`); the suffix goes behind the
whole name, so that the part before the first dot may still be a device name (`Clear`).
-/

namespace Coppermind.Naming

open scoped Coppermind.Lib.Bounded
open Coppermind.Lib Coppermind.Lib.Text

section Statement

/-- A case mapping of the language maps every character for itself and to something, the marks
and digits of a name to themselves, and nothing but the dot to a dot. -/
structure CaseMapping (f : Text → Text) : Prop where
  append : ∀ s t, f (s ++ t) = f s ++ f t
  ne_nil : ∀ c, f [c] ≠ []
  fixed : ∀ c, c ∈ [' ', '.', '(', ')'] ∨ c.isDigit = true → f [c] = [c]
  dot : ∀ c, '.' ∈ f [c] → c = '.'

variable (unicode : Unicode)

/-- A name that can be written, on a system without devices among its names. -/
structure FittingName (name : Text) : Prop where
  ne_nil : name ≠ []
  chars : name.length ≤ maxStemLength
  bytes : utf8Length name ≤ maxStemBytes
  allowed : ∀ c ∈ name, isForbidden c = false
  head : ∀ c ∈ name.head?, isDotOrSpace c = false
  last : ∀ c ∈ name.getLast?, isDotOrSpace c = false

/-- A portable name. -/
structure PortableName (name : Text) : Prop extends FittingName name where
  device : unicode.upper (beforeDot name) ∉ reserved

/-- A name with what is forbidden replaced, white space folded, and dots and spaces stripped. -/
def cleaned (value : Text) : Text :=
  strip (stripDotsSpaces (strip (collapseSpace
    ((unicode.nfc value).map fun c => if isForbidden c then ' ' else c))))

/-- A cleaned name is a device name as a whole, or what of it the budget of characters leaves has
none before its first dot. -/
def Clear (s : Text) : Prop :=
  unicode.upper s ∈ reserved ∨
    unicode.upper (beforeDot ((s.take maxStemLength).rdropWhile isDotOrSpace)) ∉ reserved

instance (s : Text) : Decidable (Clear unicode s) := inferInstanceAs (Decidable (_ ∨ _))

end Statement

section Budgets

theorem utf8Length_append (s t : Text) : utf8Length (s ++ t) = utf8Length s + utf8Length t := by
  simp [utf8Length]

theorem utf8Length_cons (c : Char) (t : Text) : utf8Length (c :: t) = c.utf8Size + utf8Length t := by
  simp [utf8Length]

theorem utf8Length_reverse (t : Text) : utf8Length t.reverse = utf8Length t := by
  simp [utf8Length, List.sum_reverse]

theorem utf8Length_le_of_sublist {s t : Text} (h : s.Sublist t) : utf8Length s ≤ utf8Length t := by
  induction h with
  | slnil => exact le_rfl
  | cons c _ ih =>
    rw [utf8Length_cons]
    omega
  | cons_cons c _ ih =>
    rw [utf8Length_cons, utf8Length_cons]
    omega

theorem utf8Length_le (t : Text) : utf8Length t ≤ 4 * t.length := by
  induction t with
  | nil => exact le_rfl
  | cons c t ih =>
    have hsize := c.utf8Size_le_four
    rw [utf8Length_cons, List.length_cons]
    omega

theorem utf8Length_dropToBytes (maxBytes : Nat) (t : Text) :
    utf8Length (dropToBytes maxBytes t) ≤ maxBytes := by
  induction t with
  | nil => exact Nat.zero_le _
  | cons c t ih =>
    unfold dropToBytes
    split
    · exact ih
    · next h => exact Nat.le_of_not_lt h

/-- The last character cut away did not fit. -/
theorem dropToBytes_maximal (maxBytes : Nat) (t : Text) :
    dropToBytes maxBytes t = t ∨
      ∃ c, (c :: dropToBytes maxBytes t) <:+ t ∧
        maxBytes < utf8Length (c :: dropToBytes maxBytes t) := by
  induction t with
  | nil => exact .inl rfl
  | cons c t ih =>
    unfold dropToBytes
    split
    · next h =>
      right
      obtain hself | ⟨d, hsuffix, hbytes⟩ := ih
      · exact ⟨c, by rw [hself], by rw [hself]; exact h⟩
      · exact ⟨d, hsuffix.trans (List.suffix_cons c t), hbytes⟩
    · exact .inl rfl

/-- The characters that both budgets leave. -/
def cut (s : Text) (maxChars maxBytes : Nat) : Text :=
  (dropToBytes maxBytes (s.take maxChars).reverse).reverse

theorem cut_begins_take (s : Text) (maxChars maxBytes : Nat) :
    cut s maxChars maxBytes <+: s.take maxChars := by
  rw [← List.reverse_suffix, cut, List.reverse_reverse]
  exact dropToBytes_suffix _ _

theorem cut_begins (s : Text) (maxChars maxBytes : Nat) : cut s maxChars maxBytes <+: s :=
  (cut_begins_take s maxChars maxBytes).trans (List.take_prefix _ _)

theorem length_cut_le (s : Text) (maxChars maxBytes : Nat) :
    (cut s maxChars maxBytes).length ≤ maxChars :=
  (cut_begins_take s maxChars maxBytes).length_le.trans (List.length_take_le _ _)

theorem utf8Length_cut_le (s : Text) (maxChars maxBytes : Nat) :
    utf8Length (cut s maxChars maxBytes) ≤ maxBytes := by
  rw [cut, utf8Length_reverse]
  exact utf8Length_dropToBytes _ _

/-- Where the budget of bytes has room for one more character, it cuts nothing. -/
theorem cut_eq_take {s : Text} {maxChars maxBytes : Nat}
    (h : utf8Length (cut s maxChars maxBytes) + 4 ≤ maxBytes) :
    cut s maxChars maxBytes = s.take maxChars := by
  obtain hself | ⟨c, -, hbytes⟩ := dropToBytes_maximal maxBytes (s.take maxChars).reverse
  · rw [cut, hself, List.reverse_reverse]
  · have hsize := c.utf8Size_le_four
    rw [cut, utf8Length_reverse] at h
    rw [utf8Length_cons] at hbytes
    omega

theorem cut_eq_take_of_le {s : Text} {maxChars maxBytes : Nat}
    (h : utf8Length (s.take maxChars) ≤ maxBytes) : cut s maxChars maxBytes = s.take maxChars := by
  rw [cut]
  cases hreverse : (s.take maxChars).reverse with
  | nil =>
    rw [List.reverse_eq_nil_iff.1 hreverse]
    rfl
  | cons c t =>
    have hbytes : ¬ utf8Length (c :: t) > maxBytes := by
      rw [← hreverse, utf8Length_reverse]
      omega
    rw [dropToBytes, if_neg hbytes, ← hreverse, List.reverse_reverse]

theorem cut_ne_nil {s : Text} {maxChars maxBytes : Nat} (hs : s ≠ []) (hchars : 0 < maxChars)
    (hbytes : 4 ≤ maxBytes) : cut s maxChars maxBytes ≠ [] := by
  intro hnil
  have htake : cut s maxChars maxBytes = s.take maxChars :=
    cut_eq_take (by rw [hnil]; simpa [utf8Length] using hbytes)
  rw [hnil] at htake
  simp only [List.nil_eq, List.take_eq_nil_iff] at htake
  obtain h | h := htake
  · omega
  · exact hs h

theorem fit_sublist_cut (s : Text) (maxChars maxBytes : Nat) :
    (fit s maxChars maxBytes).Sublist (cut s maxChars maxBytes) := by
  unfold fit
  split
  · exact List.nil_sublist _
  · exact (List.rdropWhile_prefix _ _).sublist.trans
      ((List.dropWhile_sublist _).trans (List.rdropWhile_prefix _ _).sublist)

/-- **What `_fit` returns is within both budgets.** -/
theorem fit_budgets (s : Text) (maxChars maxBytes : Nat) :
    (fit s maxChars maxBytes).length ≤ maxChars ∧
      utf8Length (fit s maxChars maxBytes) ≤ maxBytes := by
  have hsub := fit_sublist_cut s maxChars maxBytes
  exact ⟨hsub.length_le.trans (length_cut_le s maxChars maxBytes),
    (utf8Length_le_of_sublist hsub).trans (utf8Length_cut_le s maxChars maxBytes)⟩

end Budgets

section Clean

/-- A name that `sanitize_stem` has cleaned. -/
structure Clean (s : Text) : Prop where
  allowed : ∀ c ∈ s, isForbidden c = false
  spaces : ∀ c ∈ s, isSpace c = true → c = ' '
  head : ∀ c ∈ s.head?, isDotOrSpace c = false
  last : ∀ c ∈ s.getLast?, isDotOrSpace c = false

theorem isSpace_of_mem_collapseSpace {c : Char} {t : Text} (h : c ∈ collapseSpace t)
    (hspace : isSpace c = true) : c = ' ' := by
  induction t with
  | nil => cases h
  | cons d t ih =>
    unfold collapseSpace at h
    by_cases hd : isSpace d = true
    · rw [if_pos hd] at h
      cases t with
      | nil => simpa using h
      | cons e t =>
        by_cases he : isSpace e = true
        · simp only [he, if_true] at h
          exact ih h
        · simp only [he, Bool.false_eq_true, if_false, List.mem_cons] at h
          obtain h | h := h
          · exact h
          · exact ih h
    · rw [if_neg hd] at h
      obtain rfl | h := List.mem_cons.1 h
      · exact absurd hspace hd
      · exact ih h

theorem head?_of_begins {s t : Text} (h : s <+: t) (hs : s ≠ []) : s.head? = t.head? := by
  obtain ⟨rest, rfl⟩ := h
  exact (List.head?_append_of_ne_nil s hs).symm

theorem isDotOrSpace_of_mem_head?_dropWhile {t : Text} {c : Char}
    (h : c ∈ (t.dropWhile isDotOrSpace).head?) : isDotOrSpace c = false := by
  have hne : t.dropWhile isDotOrSpace ≠ [] := by
    intro hnil
    rw [hnil] at h
    cases h
  have hhead := List.head_dropWhile_not isDotOrSpace hne
  rw [List.head?_eq_some_head hne] at h
  rw [← Option.some.inj h]
  simpa using hhead

theorem isDotOrSpace_of_mem_getLast?_rdropWhile {t : Text} {c : Char}
    (h : c ∈ (t.rdropWhile isDotOrSpace).getLast?) : isDotOrSpace c = false := by
  have hne : t.rdropWhile isDotOrSpace ≠ [] := by
    intro hnil
    rw [hnil] at h
    cases h
  have hlast := List.rdropWhile_last_not isDotOrSpace t hne
  rw [List.getLast?_eq_some_getLast hne] at h
  rw [← Option.some.inj h]
  simpa using hlast

/-- Where the only white space is the space, a name without one at its ends is stripped. -/
theorem strip_eq_self {t : Text} (hspaces : ∀ c ∈ t, isSpace c = true → c = ' ')
    (hhead : ∀ c ∈ t.head?, isDotOrSpace c = false)
    (hlast : ∀ c ∈ t.getLast?, isDotOrSpace c = false) : strip t = t := by
  have hblank : ∀ c ∈ t, isDotOrSpace c = false → isSpace c = false := by
    intro c hc hdot
    by_contra hspace
    rw [Bool.not_eq_false] at hspace
    obtain rfl := hspaces c hc hspace
    cases hdot
  apply trim_eq_self
  · intro c hc
    exact hblank c (List.mem_of_mem_head? hc) (hhead c hc)
  · intro c hc
    exact hblank c (List.mem_of_mem_getLast? hc) (hlast c hc)

variable (unicode : Unicode)

theorem clean_cleaned (value : Text) : Clean (cleaned unicode value) := by
  unfold cleaned
  generalize hmap : ((unicode.nfc value).map fun c => if isForbidden c then ' ' else c) = mapped
  have hforbidden : ∀ c ∈ mapped, isForbidden c = false := by
    intro c hc
    rw [← hmap] at hc
    obtain ⟨d, -, rfl⟩ := List.mem_map.1 hc
    split
    · decide
    · next hd => exact Bool.eq_false_iff.2 hd
  generalize hfolded : strip (collapseSpace mapped) = folded
  have hsub : ∀ c ∈ stripDotsSpaces folded, c ∈ collapseSpace mapped := by
    intro c hc
    have hdrop := (List.dropWhile_sublist _).subset ((List.rdropWhile_prefix _ _).subset hc)
    rw [← hfolded] at hdrop
    exact mem_of_mem_strip hdrop
  have hspaces : ∀ c ∈ stripDotsSpaces folded, isSpace c = true → c = ' ' := fun c hc =>
    isSpace_of_mem_collapseSpace (hsub c hc)
  have hlast : ∀ c ∈ (stripDotsSpaces folded).getLast?, isDotOrSpace c = false := fun c hc =>
    isDotOrSpace_of_mem_getLast?_rdropWhile hc
  have hhead : ∀ c ∈ (stripDotsSpaces folded).head?, isDotOrSpace c = false := by
    intro c hc
    have hne : stripDotsSpaces folded ≠ [] := by
      intro hnil
      rw [hnil] at hc
      cases hc
    rw [stripDotsSpaces, head?_of_begins (List.rdropWhile_prefix _ _) hne] at hc
    exact isDotOrSpace_of_mem_head?_dropWhile hc
  rw [strip_eq_self hspaces hhead hlast]
  refine ⟨?_, hspaces, hhead, hlast⟩
  intro c hc
  obtain rfl | hmem := mem_collapseSpace (hsub c hc)
  · decide
  · exact hforbidden c hmem

variable {unicode} {s : Text} {maxChars maxBytes : Nat}

/-- A beginning of a clean name, stripped, is clean. -/
theorem Clean.beginning {s t : Text} (h : Clean s) (ht : t <+: s) (hne : t ≠ []) :
    Clean (t.rdropWhile isDotOrSpace) ∧ t.rdropWhile isDotOrSpace ≠ [] := by
  have hhead := head?_of_begins ht hne
  have hbegins := (List.rdropWhile_prefix isDotOrSpace t).trans ht
  have hkept : t.rdropWhile isDotOrSpace ≠ [] := by
    intro hnil
    rw [List.rdropWhile_eq_nil_iff] at hnil
    have hfirst := h.head _ (hhead ▸ List.head?_eq_some_head hne)
    rw [hnil _ (List.head_mem hne)] at hfirst
    cases hfirst
  refine ⟨⟨fun c hc => h.allowed c (hbegins.subset hc), fun c hc => h.spaces c (hbegins.subset hc),
    ?_, fun c hc => isDotOrSpace_of_mem_getLast?_rdropWhile hc⟩, hkept⟩
  intro c hc
  rw [head?_of_begins hbegins hkept] at hc
  exact h.head c hc

/-- **A cleaned name is fitted** by cutting it and stripping what the cut lays bare. -/
theorem Clean.fit_eq (h : Clean s) (hs : s ≠ []) (hchars : 0 < maxChars) (hbytes : 4 ≤ maxBytes) :
    fit s maxChars maxBytes = (cut s maxChars maxBytes).rdropWhile isDotOrSpace ∧
      fit s maxChars maxBytes ≠ [] := by
  obtain ⟨hclean, hne⟩ := h.beginning (cut_begins s maxChars maxBytes) (cut_ne_nil hs hchars hbytes)
  have hfit : fit s maxChars maxBytes = (cut s maxChars maxBytes).rdropWhile isDotOrSpace := by
    unfold fit
    rw [if_neg (by omega)]
    exact strip_eq_self hclean.spaces hclean.head hclean.last
  exact ⟨hfit, by rwa [hfit]⟩

theorem Clean.fit (h : Clean s) (hs : s ≠ []) (hchars : 0 < maxChars) (hbytes : 4 ≤ maxBytes) :
    Clean (fit s maxChars maxBytes) := by
  rw [(h.fit_eq hs hchars hbytes).1]
  exact (h.beginning (cut_begins s maxChars maxBytes) (cut_ne_nil hs hchars hbytes)).1

/-- A name within the budgets is kept. -/
theorem Clean.fit_eq_self (h : Clean s) (hchars : s.length ≤ maxChars)
    (hbytes : utf8Length s ≤ maxBytes) (hroom : 0 < maxChars ∧ 4 ≤ maxBytes) :
    Naming.fit s maxChars maxBytes = s := by
  by_cases hs : s = []
  · rw [hs]
    exact List.sublist_nil.1
      ((fit_sublist_cut [] maxChars maxBytes).trans (cut_begins [] maxChars maxBytes).sublist)
  · rw [(h.fit_eq hs hroom.1 hroom.2).1, cut_eq_take_of_le (by rwa [List.take_of_length_le hchars]),
      List.take_of_length_le hchars, List.rdropWhile_eq_self_iff]
    intro hne
    rw [h.last _ (List.getLast?_eq_some_getLast hne)]
    exact Bool.false_ne_true

end Clean

section Devices

variable {unicode : Unicode}

theorem CaseMapping.nil {f : Text → Text} (h : CaseMapping f) : f [] = [] := by
  have happend := h.append [] []
  rw [List.append_nil] at happend
  simpa using happend

theorem CaseMapping.cons {f : Text → Text} (h : CaseMapping f) (c : Char) (t : Text) :
    f (c :: t) = f [c] ++ f t := h.append [c] t

theorem CaseMapping.length_le {f : Text → Text} (h : CaseMapping f) (t : Text) :
    t.length ≤ (f t).length := by
  induction t with
  | nil => exact Nat.zero_le _
  | cons c t ih =>
    have hpos := List.length_pos_of_ne_nil (h.ne_nil c)
    rw [h.cons, List.length_cons, List.length_append]
    omega

theorem CaseMapping.mem {f : Text → Text} (h : CaseMapping f) {c : Char} {t : Text}
    (hc : c ∈ [' ', '.', '(', ')'] ∨ c.isDigit = true) (hmem : c ∈ t) : c ∈ f t := by
  obtain ⟨a, b, rfl⟩ := List.append_of_mem hmem
  rw [h.append, h.cons, h.fixed c hc]
  simp

/-- The part before the first dot is mapped for itself. -/
theorem CaseMapping.beforeDot {f : Text → Text} (h : CaseMapping f) (t : Text) :
    beforeDot (f t) = f (beforeDot t) := by
  induction t with
  | nil =>
    rw [h.nil]
    exact h.nil.symm
  | cons c t ih =>
    rw [h.cons]
    by_cases hc : c = '.'
    · subst hc
      rw [h.fixed '.' (.inl (by decide))]
      exact h.nil.symm
    · have hdots : ∀ d ∈ f [c], (d != '.') = true := by
        intro d hd
        rw [bne_iff_ne]
        rintro rfl
        exact hc (h.dot c hd)
      have hkept : Naming.beforeDot (c :: t) = c :: Naming.beforeDot t := by
        simp [Naming.beforeDot, hc]
      rw [hkept, h.cons c (Naming.beforeDot t), ← ih]
      exact List.takeWhile_append_of_pos hdots

theorem reserved_shape : ∀ name ∈ reserved, name.length ≤ 4 ∧ '.' ∉ name ∧ ' ' ∉ name ∧ name ≠ [] := by
  decide

/-- A device name is short, and neither a dot nor a space is in it. -/
theorem device_shape (hupper : CaseMapping unicode.upper) {p : Text}
    (h : unicode.upper p ∈ reserved) : p.length ≤ 4 ∧ '.' ∉ p ∧ ' ' ∉ p ∧ p ≠ [] := by
  obtain ⟨hlength, hdot, hspace, hne⟩ := reserved_shape _ h
  refine ⟨(hupper.length_le p).trans hlength, ?_, ?_, ?_⟩
  · exact fun hmem => hdot (hupper.mem (.inl (by decide)) hmem)
  · exact fun hmem => hspace (hupper.mem (.inl (by decide)) hmem)
  · rintro rfl
    exact hne hupper.nil

theorem beforeDot_of_notMem {t : Text} (h : '.' ∉ t) : beforeDot t = t := by
  rw [beforeDot, List.takeWhile_eq_self_iff]
  intro c hc
  rw [bne_iff_ne]
  rintro rfl
  exact h hc

theorem beforeDot_begins (t : Text) : beforeDot t <+: t := List.takeWhile_prefix _

theorem dot_notMem_beforeDot (t : Text) : '.' ∉ beforeDot t := by
  intro hmem
  simpa using List.mem_takeWhile_imp hmem

/-- A beginning that keeps the part before the first dot has the same part. -/
theorem beforeDot_of_prefix {s x : Text} (hx : x <+: s) (hfirst : beforeDot s <+: x) :
    beforeDot x = beforeDot s := by
  have hkeep : ∀ c ∈ beforeDot s, (c != '.') = true := by
    intro c hc
    rw [bne_iff_ne]
    rintro rfl
    exact dot_notMem_beforeDot s hc
  obtain ⟨z, hz⟩ := hfirst
  obtain ⟨rest, hrest⟩ := hx
  have hs : beforeDot s = beforeDot s ++ beforeDot (z ++ rest) := by
    conv_lhs => rw [← hrest, ← hz, List.append_assoc]
    exact List.takeWhile_append_of_pos hkeep
  have hnone : beforeDot (z ++ rest) = [] := by
    have hself : beforeDot s ++ [] = beforeDot s ++ beforeDot (z ++ rest) := by
      rw [List.append_nil]
      exact hs
    exact (List.append_cancel_left hself).symm
  rw [← hz]
  refine (List.takeWhile_append_of_pos hkeep).trans ?_
  cases z with
  | nil => exact List.append_nil _
  | cons d z =>
    obtain rfl : d = '.' := by
      by_contra hd
      simp [beforeDot, hd] at hnone
    exact List.append_nil _

/-- Stripping stops at a beginning that ends in something else. -/
theorem prefix_rdropWhile {a y : Text} (h : a <+: y)
    (hlast : ∀ c ∈ a.getLast?, isDotOrSpace c = false) : a <+: y.rdropWhile isDotOrSpace := by
  obtain hshort | ⟨t, ht⟩ := List.prefix_or_prefix_of_prefix h (List.rdropWhile_prefix isDotOrSpace y)
  · exact hshort
  · obtain ⟨z, hz⟩ := h
    have hstripped : t ++ z = y.rtakeWhile isDotOrSpace := by
      have hcut : y.rdropWhile isDotOrSpace ++ (t ++ z) = y := by
        rw [← List.append_assoc, ht, hz]
      exact List.append_cancel_left (hcut.trans List.rdropWhile_append_rtakeWhile.symm)
    cases hnil : t.getLast? with
    | none =>
      rw [List.getLast?_eq_none_iff.1 hnil, List.append_nil] at ht
      rw [ht]
    | some c =>
      have hc : c ∈ y.rtakeWhile isDotOrSpace := by
        rw [← hstripped]
        exact List.mem_append_left _ (List.mem_of_getLast? hnil)
      have hfalse := hlast c (by
        rw [← ht, List.getLast?_append, hnil]
        rfl)
      rw [List.mem_rtakeWhile_imp hc] at hfalse
      cases hfalse

theorem last_of_device (hupper : CaseMapping unicode.upper) {p : Text}
    (h : unicode.upper p ∈ reserved) : ∀ c ∈ p.getLast?, isDotOrSpace c = false := by
  obtain ⟨-, hdot, hspace, -⟩ := device_shape hupper h
  intro c hc
  have hmem := List.mem_of_getLast? hc
  simp only [isDotOrSpace, Bool.or_eq_false_iff, beq_eq_false_iff_ne]
  refine ⟨?_, ?_⟩ <;> rintro rfl
  · exact hdot hmem
  · exact hspace hmem

/-- A name whose first part is a device name keeps it under every cut to more than that. -/
theorem beforeDot_rdropWhile (hupper : CaseMapping unicode.upper) {s y : Text} (hy : y <+: s)
    (hlength : 4 ≤ y.length ∨ y = s) (hdevice : unicode.upper (beforeDot s) ∈ reserved) :
    beforeDot (y.rdropWhile isDotOrSpace) = beforeDot s := by
  have hshort := (device_shape hupper hdevice).1
  have hfirst : beforeDot s <+: y := by
    obtain hlength | rfl := hlength
    · exact List.prefix_of_prefix_length_le (beforeDot_begins s) hy (hshort.trans hlength)
    · exact beforeDot_begins y
  exact beforeDot_of_prefix ((List.rdropWhile_prefix _ _).trans hy)
    (prefix_rdropWhile hfirst (last_of_device hupper hdevice))

theorem beforeDot_append_of_mem {x t : Text} (h : '.' ∈ x) : beforeDot (x ++ t) = beforeDot x := by
  induction x with
  | nil => cases h
  | cons c x ih =>
    by_cases hc : c = '.'
    · subst hc
      rfl
    · have hx := ih ((List.mem_cons.1 h).resolve_left fun h => hc h.symm)
      simpa [beforeDot, hc] using hx

/-- The check of `sanitize_stem` is one of the part before the first dot. -/
theorem reserved_check (hupper : CaseMapping unicode.upper) (s : Text) :
    (unicode.upper s ∈ reserved ∨ beforeDot (unicode.upper s) ∈ reserved) ↔
      unicode.upper (beforeDot s) ∈ reserved := by
  rw [hupper.beforeDot]
  constructor
  · intro h
    obtain h | h := h
    · rwa [beforeDot_of_notMem (device_shape hupper h).2.1]
    · exact h
  · exact .inr

theorem utf8Length_of_dots {t : Text} (h : ∀ c ∈ t, isDotOrSpace c = true) :
    utf8Length t = t.length := by
  induction t with
  | nil => rfl
  | cons c t ih =>
    have hc := h c List.mem_cons_self
    have hsize : c.utf8Size = 1 := by
      simp only [isDotOrSpace, Bool.or_eq_true, beq_iff_eq] at hc
      obtain rfl | rfl := hc <;> rfl
    rw [utf8Length_cons, ih fun d hd => h d (List.mem_cons_of_mem _ hd), hsize, List.length_cons,
      Nat.add_comm]

/-- A cut that is stripped down to a device name is mostly dots and spaces. -/
theorem utf8Length_of_bare (hupper : CaseMapping unicode.upper) {s y : Text} (hy : y <+: s)
    (hfirst : unicode.upper (beforeDot s) ∉ reserved)
    (hdevice : unicode.upper (beforeDot (y.rdropWhile isDotOrSpace)) ∈ reserved) :
    utf8Length y ≤ 16 + y.length := by
  have hdot : '.' ∉ y.rdropWhile isDotOrSpace := by
    intro hmem
    obtain ⟨rest, hrest⟩ := (List.rdropWhile_prefix isDotOrSpace y).trans hy
    rw [← @beforeDot_append_of_mem _ rest hmem, hrest] at hdevice
    exact hfirst hdevice
  rw [beforeDot_of_notMem hdot] at hdevice
  have hshort := (device_shape hupper hdevice).1
  have hbytes := utf8Length_le (y.rdropWhile isDotOrSpace)
  have hstripped : utf8Length (y.rtakeWhile isDotOrSpace) = _ :=
    utf8Length_of_dots fun c hc => List.mem_rtakeWhile_imp hc
  have hboth : y.rdropWhile isDotOrSpace ++ y.rtakeWhile isDotOrSpace = y :=
    List.rdropWhile_append_rtakeWhile
  have hsum := congrArg utf8Length hboth
  have hlength := congrArg List.length hboth
  rw [utf8Length_append] at hsum
  rw [List.length_append] at hlength
  omega

theorem four_le_length_cut {s : Text} (h : 4 ≤ s.length) :
    4 ≤ (cut s maxStemLength maxStemBytes).length := by
  by_contra hshort
  have hbytes := utf8Length_le (cut s maxStemLength maxStemBytes)
  have htake : cut s maxStemLength maxStemBytes = s.take maxStemLength :=
    cut_eq_take (by unfold maxStemBytes at *; omega)
  rw [htake, List.length_take] at hshort
  unfold maxStemLength at hshort
  omega

def nameSuffix : Text := " (name)".toList

theorem clean_suffixed {s : Text} (h : Clean s) (hs : s ≠ []) : Clean (s ++ nameSuffix) where
  allowed := by
    intro c hc
    obtain hc | hc := List.mem_append.1 hc
    · exact h.allowed c hc
    · exact (by decide : ∀ c ∈ nameSuffix, isForbidden c = false) c hc
  spaces := by
    intro c hc
    obtain hc | hc := List.mem_append.1 hc
    · exact h.spaces c hc
    · exact (by decide : ∀ c ∈ nameSuffix, isSpace c = true → c = ' ') c hc
  head := by
    rw [List.head?_append_of_ne_nil s hs]
    exact h.head
  last := by
    rw [List.getLast?_append]
    intro c hc
    obtain rfl := Option.some.inj hc
    decide

/-- **The device names among the results.** -/
theorem device_fit_iff (hupper : CaseMapping unicode.upper) {s : Text} (h : Clean s) (hs : s ≠ []) :
    unicode.upper (beforeDot (fit
        (if unicode.upper s ∈ reserved ∨ beforeDot (unicode.upper s) ∈ reserved then s ++ nameSuffix
          else s) maxStemLength maxStemBytes)) ∈ reserved ↔ ¬ Clear unicode s := by
  have hroom : 0 < maxStemLength ∧ 4 ≤ maxStemBytes := by decide
  have hlength : 4 ≤ (s.take maxStemLength).length ∨ s.take maxStemLength = s := by
    rw [List.length_take]
    by_cases hshort : s.length ≤ maxStemLength
    · exact .inr (List.take_of_length_le hshort)
    · left
      unfold maxStemLength at *
      omega
  by_cases hreserved : unicode.upper (beforeDot s) ∈ reserved
  · rw [if_pos ((reserved_check hupper s).2 hreserved)]
    have hsuffixed := clean_suffixed h hs
    have hne : s ++ nameSuffix ≠ [] := by simp [nameSuffix]
    by_cases hdot : '.' ∈ s
    · -- the suffix goes behind the dot, the device name stays in front of it
      have hwhole : unicode.upper s ∉ reserved := fun hdevice =>
        (device_shape hupper hdevice).2.1 hdot
      have hfirst : beforeDot (s ++ nameSuffix) = beforeDot s := beforeDot_append_of_mem hdot
      have hlong : 4 ≤ (s ++ nameSuffix).length := by
        rw [List.length_append]
        exact Nat.le_add_left_of_le (by decide)
      rw [(hsuffixed.fit_eq hne hroom.1 hroom.2).1,
        beforeDot_rdropWhile hupper (cut_begins _ _ _) (.inl (four_le_length_cut hlong))
          (by rwa [hfirst]), hfirst, Clear, not_or, not_not,
        beforeDot_rdropWhile hupper (List.take_prefix _ _) hlength hreserved]
      exact ⟨fun _ => ⟨hwhole, hreserved⟩, fun _ => hreserved⟩
    · rw [beforeDot_of_notMem hdot] at hreserved
      have hshort := (device_shape hupper hreserved).1
      have hbytes := utf8Length_le s
      have hkept : fit (s ++ nameSuffix) maxStemLength maxStemBytes = s ++ nameSuffix := by
        apply hsuffixed.fit_eq_self _ _ hroom
        · rw [List.length_append]
          exact (Nat.add_le_add_right hshort _).trans (by decide)
        · rw [utf8Length_append]
          exact (Nat.add_le_add_right (hbytes.trans (Nat.mul_le_mul_left 4 hshort)) _).trans
            (by decide)
      have hnodot : '.' ∉ s ++ nameSuffix := by
        rw [List.mem_append, not_or]
        exact ⟨hdot, by decide⟩
      rw [hkept, beforeDot_of_notMem hnodot]
      constructor
      · intro hdevice
        have hspace := (device_shape hupper hdevice).2.2.1
        exact absurd (List.mem_append_right s (by decide : ' ' ∈ nameSuffix)) hspace
      · intro hclear
        exact absurd (.inl hreserved) hclear
  · rw [if_neg (fun hcheck => hreserved ((reserved_check hupper s).1 hcheck)),
      (h.fit_eq hs hroom.1 hroom.2).1, Clear, not_or, not_not]
    have hwhole : unicode.upper s ∉ reserved := fun hdevice =>
      hreserved ((reserved_check hupper s).1 (.inl hdevice))
    constructor
    · intro hdevice
      have hbytes := utf8Length_of_bare hupper (cut_begins s _ _) hreserved hdevice
      have hchars := length_cut_le s maxStemLength maxStemBytes
      rw [← @cut_eq_take s maxStemLength maxStemBytes
        (by unfold maxStemLength maxStemBytes at *; omega)]
      exact ⟨hwhole, hdevice⟩
    · intro hdevice
      have hbytes := utf8Length_of_bare hupper (List.take_prefix maxStemLength s) hreserved hdevice.2
      have hchars : (s.take maxStemLength).length ≤ maxStemLength := List.length_take_le _ _
      rw [cut_eq_take_of_le (by unfold maxStemLength maxStemBytes at *; omega)]
      exact hdevice.2

end Devices

section Names

variable {unicode : Unicode}

theorem reserved_beforeDot_length (hupper : CaseMapping unicode.upper) {s : Text}
    (h : 4 < (beforeDot s).length) : unicode.upper (beforeDot s) ∉ reserved := by
  intro hdevice
  have hshort := (device_shape hupper hdevice).1
  omega

theorem portableName_untitled (hupper : CaseMapping unicode.upper) :
    PortableName unicode "Untitled".toList where
  ne_nil := by decide
  chars := by decide
  bytes := by decide
  allowed := by decide
  head := by decide
  last := by decide
  device := reserved_beforeDot_length hupper (by decide)

theorem clear_nil (hupper : CaseMapping unicode.upper) : Clear unicode [] := by
  right
  intro hdevice
  exact (device_shape hupper hdevice).2.2.2 rfl

/-- A title with nothing to keep gets the fallback. -/
theorem sanitizeStem_of_nil {value fallback : Text} (h : cleaned unicode value = []) :
    sanitizeStem unicode value fallback = fallback := if_pos h

/-- The name before it is fitted. -/
def suffixed (unicode : Unicode) (s : Text) : Text :=
  if unicode.upper s ∈ reserved ∨ beforeDot (unicode.upper s) ∈ reserved then s ++ nameSuffix else s

theorem suffixed_ne_nil {s : Text} (hs : s ≠ []) : suffixed unicode s ≠ [] := by
  unfold suffixed
  split
  · simp [nameSuffix]
  · exact hs

theorem clean_suffixed_of_ne (unicode : Unicode) {s : Text} (h : Clean s) (hs : s ≠ []) :
    Clean (suffixed unicode s) := by
  unfold suffixed
  split
  · exact clean_suffixed h hs
  · exact h

theorem room : 0 < maxStemLength ∧ 4 ≤ maxStemBytes := by decide

theorem sanitizeStem_of_ne {value fallback : Text} (h : cleaned unicode value ≠ []) :
    sanitizeStem unicode value fallback =
      fit (suffixed unicode (cleaned unicode value)) maxStemLength maxStemBytes := by
  have hclean := clean_suffixed_of_ne unicode (clean_cleaned unicode value) h
  have hne := (hclean.fit_eq (suffixed_ne_nil h) room.1 room.2).2
  exact (if_neg h).trans (if_neg hne)

/-- What the sanitising leaves is clean. -/
theorem clean_sanitizeStem_of_ne {value : Text} (fallback : Text) (h : cleaned unicode value ≠ []) :
    Clean (sanitizeStem unicode value fallback) ∧ sanitizeStem unicode value fallback ≠ [] := by
  rw [sanitizeStem_of_ne h]
  have hclean := clean_suffixed_of_ne unicode (clean_cleaned unicode value) h
  exact ⟨hclean.fit (suffixed_ne_nil h) room.1 room.2,
    (hclean.fit_eq (suffixed_ne_nil h) room.1 room.2).2⟩

theorem clean_sanitizeStem {value fallback : Text} (hfallback : Clean fallback ∧ fallback ≠ []) :
    Clean (sanitizeStem unicode value fallback) ∧ sanitizeStem unicode value fallback ≠ [] := by
  by_cases hnil : cleaned unicode value = []
  · rwa [sanitizeStem_of_nil hnil]
  · exact clean_sanitizeStem_of_ne fallback hnil

theorem Clean.fittingName {s : Text} (h : Clean s) (hs : s ≠ [])
    (hchars : s.length ≤ maxStemLength) (hbytes : utf8Length s ≤ maxStemBytes) : FittingName s :=
  ⟨hs, hchars, hbytes, h.allowed, h.head, h.last⟩

/-- A clean name within the budgets is portable but for the devices. -/
theorem Clean.portableName_iff {s : Text} (h : Clean s) (hs : s ≠ [])
    (hchars : s.length ≤ maxStemLength) (hbytes : utf8Length s ≤ maxStemBytes) :
    PortableName unicode s ↔ unicode.upper (beforeDot s) ∉ reserved :=
  ⟨fun hportable => hportable.device,
    fun hdevice => ⟨h.fittingName hs hchars hbytes, hdevice⟩⟩

theorem fittingName_sanitizeStem {value fallback : Text}
    (hfallback : cleaned unicode value = [] → FittingName fallback) :
    FittingName (sanitizeStem unicode value fallback) := by
  by_cases hnil : cleaned unicode value = []
  · rw [sanitizeStem_of_nil hnil]
    exact hfallback hnil
  · have hclean := clean_sanitizeStem_of_ne fallback hnil
    have hbudgets := fit_budgets (suffixed unicode (cleaned unicode value)) maxStemLength maxStemBytes
    rw [← @sanitizeStem_of_ne _ _ fallback hnil] at hbudgets
    exact hclean.1.fittingName hclean.2 hbudgets.1 hbudgets.2

/-- **What `sanitize_stem` returns** is portable exactly where the cleaned value is clear. -/
theorem portableName_sanitizeStem_iff (hupper : CaseMapping unicode.upper) {value fallback : Text}
    (hfallback : cleaned unicode value = [] → PortableName unicode fallback) :
    PortableName unicode (sanitizeStem unicode value fallback) ↔
      Clear unicode (cleaned unicode value) := by
  by_cases hnil : cleaned unicode value = []
  · rw [sanitizeStem_of_nil hnil, hnil]
    exact ⟨fun _ => clear_nil hupper, fun _ => hfallback hnil⟩
  · have hcleaned := clean_cleaned unicode value
    have hclean := clean_suffixed_of_ne unicode hcleaned hnil
    have hbudgets := fit_budgets (suffixed unicode (cleaned unicode value)) maxStemLength maxStemBytes
    rw [sanitizeStem_of_ne hnil,
      (hclean.fit (suffixed_ne_nil hnil) room.1 room.2).portableName_iff
        (hclean.fit_eq (suffixed_ne_nil hnil) room.1 room.2).2 hbudgets.1 hbudgets.2]
    exact not_iff_comm.1 (device_fit_iff hupper hcleaned hnil).symm

end Names

section Dated

open Coppermind.Frontmatter (Date daysIn)

/-- The characters of an ISO date. -/
def isDateChar (c : Char) : Bool :=
  c.isDigit || c == '-'

theorem mem_digits_of_isDigit {c : Char} (h : c.isDigit = true) : c ∈ "0123456789".toList := by
  have hbounds : 48 ≤ c.toNat ∧ c.toNat ≤ 57 := by
    simp only [Char.isDigit, Bool.and_eq_true, decide_eq_true_eq] at h
    exact h
  have hall : ∀ n < 58, 48 ≤ n → Char.ofNat n ∈ "0123456789".toList := by decide
  rw [← Char.ofNat_toNat c]
  exact hall _ (by omega) hbounds.1

theorem isDateChar_spec {c : Char} (h : isDateChar c = true) :
    c.utf8Size = 1 ∧ isForbidden c = false ∧ isDotOrSpace c = false ∧ isSpace c = false ∧ c ≠ '.' := by
  have hall : ∀ c ∈ "0123456789-".toList, c.utf8Size = 1 ∧ isForbidden c = false ∧
      isDotOrSpace c = false ∧ isSpace c = false ∧ c ≠ '.' := by decide
  apply hall
  simp only [isDateChar, Bool.or_eq_true, beq_iff_eq] at h
  obtain h | rfl := h
  · exact List.mem_append_left ['-'] (mem_digits_of_isDigit h)
  · decide

theorem isDateChar_of_mem_toString {n : Nat} {c : Char} (h : c ∈ (toString n).toList) :
    isDateChar c = true := by
  rw [Nat.toString_eq_repr, Nat.toList_repr] at h
  rw [isDateChar, Nat.isDigit_of_mem_toDigits (by decide) (by decide) h, Bool.true_or]

theorem length_toString_le {n k : Nat} (hk : 0 < k) (h : n < 10 ^ k) :
    (toString n).toList.length ≤ k := by
  rw [Nat.toString_eq_repr, Nat.toList_repr]
  exact (Nat.length_toDigits_le_iff (by decide) hk).2 h

theorem twoDigits_spec {n : Nat} (h : n < 100) :
    (Notes.twoDigits n).toList.length = 2 ∧ ∀ c ∈ (Notes.twoDigits n).toList, isDateChar c = true := by
  have hchars : ∀ n < 100, (Notes.twoDigits n).toList.length = 2 := by decide
  refine ⟨hchars n h, ?_⟩
  intro c hc
  unfold Notes.twoDigits at hc
  split at hc
  · rw [String.toList_append, List.mem_append] at hc
    obtain hc | hc := hc
    · obtain rfl : c = '0' := by simpa using hc
      decide
    · exact isDateChar_of_mem_toString hc
  · exact isDateChar_of_mem_toString hc

/-- A day of the calendar. -/
def RealDay (day : Date) : Prop :=
  Date.make? day.year day.month day.day = some day

theorem RealDay.bounds {day : Date} (h : RealDay day) :
    day.year < 10 ^ 4 ∧ day.month < 100 ∧ day.day < 100 := by
  unfold RealDay Date.make? at h
  split at h
  · next hreal =>
    have hdays : daysIn day.year day.month ≤ 31 := by
      unfold daysIn
      split
      · split <;> omega
      · split <;> omega
    omega
  · cases h

theorem isoDate_spec {day : Date} (h : RealDay day) :
    (Sources.isoDate day).length = 10 ∧ ∀ c ∈ Sources.isoDate day, isDateChar c = true := by
  obtain ⟨hyear, hmonth, hday⟩ := h.bounds
  obtain ⟨hmonth₁, hmonth₂⟩ := twoDigits_spec hmonth
  obtain ⟨hday₁, hday₂⟩ := twoDigits_spec hday
  have hlength := @length_toString_le _ 4 (by decide) hyear
  unfold Sources.isoDate
  simp only [String.toList_append, String.toList_ofList, List.length_append, List.length_replicate,
    List.mem_append, ← String.length_toList]
  refine ⟨?_, ?_⟩
  · rw [hmonth₁, hday₁]
    have hdash : "-".toList.length = 1 := rfl
    omega
  · intro c hc
    obtain ((((hc | hc) | hc) | hc) | hc) | hc := hc
    · rw [List.eq_of_mem_replicate hc]
      decide
    · exact isDateChar_of_mem_toString hc
    · obtain rfl : c = '-' := by simpa using hc
      decide
    · exact hmonth₂ c hc
    · obtain rfl : c = '-' := by simpa using hc
      decide
    · exact hday₂ c hc

theorem utf8Length_of_dateChars {t : Text} (h : ∀ c ∈ t, isDateChar c = true) :
    utf8Length t = t.length := by
  induction t with
  | nil => rfl
  | cons c t ih =>
    have hsize := (isDateChar_spec (h c List.mem_cons_self)).1
    rw [utf8Length_cons, ih fun d hd => h d (List.mem_cons_of_mem _ hd), hsize, List.length_cons,
      Nat.add_comm]

variable {unicode : Unicode}

/-- A day in front of a clean name makes a clean name, and no device has so long a first part. -/
theorem portableName_dated (hupper : CaseMapping unicode.upper) {day : Date} (hday : RealDay day)
    {s : Text} (h : Clean s) (hs : s ≠ []) (hchars : s.length ≤ maxStemLength - 11)
    (hbytes : utf8Length s ≤ maxStemBytes - 11) :
    PortableName unicode ((Sources.isoDate day ++ [' ']) ++ s) := by
  obtain ⟨hlength, hall⟩ := isoDate_spec hday
  have hbefore : utf8Length (Sources.isoDate day ++ [' ']) = 11 := by
    rw [utf8Length_append, utf8Length_of_dateChars hall, hlength]
    rfl
  have hnodot : ∀ c ∈ Sources.isoDate day ++ [' '], (c != '.') = true := by
    intro c hc
    obtain hc | hc := List.mem_append.1 hc
    · simpa using (isDateChar_spec (hall c hc)).2.2.2.2
    · obtain rfl := List.mem_singleton.1 hc
      decide
  refine ⟨⟨by simp, ?_, ?_, ?_, ?_, ?_⟩, ?_⟩
  · rw [List.length_append, List.length_append, hlength, List.length_singleton]
    unfold maxStemLength at *
    omega
  · rw [utf8Length_append, hbefore]
    unfold maxStemBytes at *
    omega
  · intro c hc
    obtain hc | hc := List.mem_append.1 hc
    · obtain hc | hc := List.mem_append.1 hc
      · exact (isDateChar_spec (hall c hc)).2.1
      · obtain rfl := List.mem_singleton.1 hc
        decide
    · exact h.allowed c hc
  · intro c hc
    have hne : Sources.isoDate day ≠ [] := by
      intro hnil
      rw [hnil] at hlength
      cases hlength
    rw [List.append_assoc, List.head?_append_of_ne_nil _ hne] at hc
    exact (isDateChar_spec (hall c (List.mem_of_mem_head? hc))).2.2.1
  · rw [List.getLast?_append_of_ne_nil _ hs]
    exact h.last
  · apply reserved_beforeDot_length hupper
    have hfirst : Sources.isoDate day ++ [' '] <+: beforeDot ((Sources.isoDate day ++ [' ']) ++ s) := by
      rw [beforeDot, List.takeWhile_append_of_pos hnodot]
      exact List.prefix_append _ _
    have hle := hfirst.length_le
    rw [List.length_append, hlength] at hle
    exact Nat.lt_of_lt_of_le (by decide) hle

theorem clean_untitled : Clean "Untitled".toList where
  allowed := by decide
  spaces := by decide
  head := by decide
  last := by decide

/-- **The dated stem** is portable whatever the title, behind its whole day. -/
theorem portableName_noteStem (hupper : CaseMapping unicode.upper) (title : Text) {day : Date}
    (hday : RealDay day) :
    PortableName unicode (Sources.noteStem unicode title (some day) true) ∧
      Sources.isoDate day ++ [' '] <+: Sources.noteStem unicode title (some day) true := by
  obtain ⟨hlength, hall⟩ := isoDate_spec hday
  obtain ⟨hclean, hne⟩ : Clean (sanitizeStem unicode title "Untitled".toList) ∧ _ :=
    clean_sanitizeStem ⟨clean_untitled, by decide⟩
  have hchars : (Sources.isoDate day ++ [' ']).length = 11 := by
    rw [List.length_append, hlength, List.length_singleton]
  have hbytes : utf8Length (Sources.isoDate day ++ [' ']) = 11 := by
    rw [utf8Length_append, utf8Length_of_dateChars hall, hlength]
    rfl
  have hroom : 0 < maxStemLength - 11 ∧ 4 ≤ maxStemBytes - 11 := by decide
  have hfit := (hclean.fit_eq hne hroom.1 hroom.2).2
  have hstem : Sources.noteStem unicode title (some day) true =
      (Sources.isoDate day ++ [' ']) ++ fit (sanitizeStem unicode title "Untitled".toList)
        (maxStemLength - 11) (maxStemBytes - 11) := by
    unfold Sources.noteStem
    simp only [if_true, hchars, hbytes, orElse, if_neg hfit]
  have hbudgets := fit_budgets (sanitizeStem unicode title "Untitled".toList)
    (maxStemLength - 11) (maxStemBytes - 11)
  rw [hstem]
  exact ⟨portableName_dated hupper hday (hclean.fit hne hroom.1 hroom.2) hfit hbudgets.1 hbudgets.2,
    List.prefix_append _ _⟩

end Dated

section Levels

variable {unicode : Unicode}

/-- The parts of a folder as it is written. -/
def folderParts (value : Text) : List Text :=
  (value.map fun c => if c = '\\' then '/' else c).splitOn '/'

/-- The levels of a folder path. -/
def levels (folder : Text) : List Text :=
  if folder = [] then [] else folder.splitOn '/'

theorem Clean.not_dots {s : Text} (h : Clean s) : s ≠ ".".toList ∧ s ≠ "..".toList := by
  refine ⟨?_, ?_⟩
  · rintro rfl
    exact absurd (h.head '.' rfl) (by decide)
  · rintro rfl
    exact absurd (h.head '.' rfl) (by decide)

theorem sanitizeStem_nil_iff {part : Text} :
    sanitizeStem unicode part [] = [] ↔ cleaned unicode part = [] := by
  by_cases hnil : cleaned unicode part = []
  · simp [sanitizeStem_of_nil hnil, hnil]
  · simp [hnil, (clean_sanitizeStem_of_ne [] hnil).2]

/-- The levels of a folder made portable are its parts made portable, but for those with nothing
to keep. -/
theorem mem_levels_sanitizeFolder {value segment : Text} :
    segment ∈ levels (sanitizeFolder unicode value) ↔
      ∃ part ∈ folderParts value, cleaned unicode part ≠ [] ∧
        segment = sanitizeStem unicode part [] := by
  have hkept : ∀ segment, segment ∈ ((folderParts value).map fun part =>
      sanitizeStem unicode part []).filter
        (fun part => part != [] && part != ".".toList && part != "..".toList) ↔
      ∃ part ∈ folderParts value, cleaned unicode part ≠ [] ∧
        segment = sanitizeStem unicode part [] := by
    intro segment
    rw [List.mem_filter, List.mem_map]
    constructor
    · rintro ⟨⟨part, hpart, rfl⟩, hne⟩
      simp only [Bool.and_eq_true, bne_iff_ne] at hne
      exact ⟨part, hpart, fun hnil => hne.1.1 (sanitizeStem_nil_iff.2 hnil), rfl⟩
    · rintro ⟨part, hpart, hnil, rfl⟩
      have hdots := (clean_sanitizeStem_of_ne [] hnil).1.not_dots
      simp only [Bool.and_eq_true, bne_iff_ne]
      exact ⟨⟨part, hpart, rfl⟩, ⟨(clean_sanitizeStem_of_ne [] hnil).2, hdots.1⟩, hdots.2⟩
  have hfolder : sanitizeFolder unicode value = ['/'].intercalate (((folderParts value).map fun part =>
      sanitizeStem unicode part []).filter
        (fun part => part != [] && part != ".".toList && part != "..".toList)) := rfl
  rw [hfolder, ← hkept]
  generalize hsegments : ((folderParts value).map fun part => sanitizeStem unicode part []).filter
        (fun part => part != [] && part != ".".toList && part != "..".toList) = segments at hkept ⊢
  have hsplit : levels (['/'].intercalate segments) = segments := by
    cases segments with
    | nil => rfl
    | cons first rest =>
      obtain ⟨part, -, hnil, rfl⟩ := (hkept first).1 List.mem_cons_self
      have hne := (clean_sanitizeStem_of_ne [] hnil).2
      rw [levels, if_neg, List.splitOn_intercalate]
      · intro segment hmem hslash
        obtain ⟨part, -, hpart, rfl⟩ := (hkept segment).1 hmem
        exact absurd ((clean_sanitizeStem_of_ne [] hpart).1.allowed '/' hslash) (by decide)
      · exact List.cons_ne_nil _ _
      · intro hempty
        cases rest with
        | nil => exact hne (by simpa using hempty)
        | cons second rest => exact hne (by simp_all [List.intercalate])
  rw [hsplit]

end Levels

section Portability

variable {unicode : Unicode}

/-- **Portability**: every generated name fits, a dated stem is portable behind its whole day, and
the others are where the cleaned value is clear. -/
theorem generated_portable_iff (hupper : CaseMapping unicode.upper) :
    (∀ value, FittingName (sanitizeStem unicode value "Untitled".toList) ∧
      (PortableName unicode (sanitizeStem unicode value "Untitled".toList) ↔
        Clear unicode (cleaned unicode value))) ∧
    (∀ title day, RealDay day →
      PortableName unicode (Sources.noteStem unicode title (some day) true) ∧
        Sources.isoDate day ++ [' '] <+: Sources.noteStem unicode title (some day) true) ∧
    ∀ value,
      (∀ segment ∈ levels (sanitizeFolder unicode value),
        FittingName segment ∧ segment ≠ ".".toList ∧ segment ≠ "..".toList) ∧
      ((∀ segment ∈ levels (sanitizeFolder unicode value), PortableName unicode segment) ↔
        ∀ part ∈ folderParts value, Clear unicode (cleaned unicode part)) := by
  refine ⟨?_, fun title day hday => portableName_noteStem hupper title hday, ?_⟩
  · intro value
    have huntitled := portableName_untitled hupper
    exact ⟨fittingName_sanitizeStem fun _ => huntitled.toFittingName,
      portableName_sanitizeStem_iff hupper fun _ => huntitled⟩
  · intro value
    refine ⟨?_, ?_⟩
    · intro segment hsegment
      obtain ⟨part, -, hnil, rfl⟩ := mem_levels_sanitizeFolder.1 hsegment
      exact ⟨fittingName_sanitizeStem fun h => absurd h hnil,
        (clean_sanitizeStem_of_ne [] hnil).1.not_dots⟩
    · constructor
      · intro h part hpart
        by_cases hnil : cleaned unicode part = []
        · rw [hnil]
          exact clear_nil hupper
        · exact (portableName_sanitizeStem_iff hupper fun h => absurd h hnil).1
            (h _ (mem_levels_sanitizeFolder.2 ⟨part, hpart, hnil, rfl⟩))
      · intro h segment hsegment
        obtain ⟨part, hpart, hnil, rfl⟩ := mem_levels_sanitizeFolder.1 hsegment
        exact (portableName_sanitizeStem_iff hupper fun h => absurd h hnil).2 (h part hpart)

end Portability

section Sample

open Coppermind.Notes.Folders (ascii)

theorem toUpper_fixed {c : Char} (h : c ∈ [' ', '.', '(', ')'] ∨ c.isDigit = true) :
    c.toUpper = c := by
  obtain h | h := h
  · exact (by decide : ∀ c ∈ [' ', '.', '(', ')'], Char.toUpper c = c) c h
  · exact (by decide : ∀ c ∈ "0123456789".toList, Char.toUpper c = c) c (mem_digits_of_isDigit h)

theorem toUpper_dot {c : Char} (h : c.toUpper = '.') : c = '.' := by
  by_cases hlow : 'a'.val ≤ c.val ∧ c.val ≤ 'z'.val
  · have hall : ∀ n < 123, 97 ≤ n → (Char.ofNat n).toUpper ≠ '.' := by decide
    have hhigh : c.toNat ≤ 122 := hlow.2
    refine absurd ?_ (hall c.toNat (by omega) hlow.1)
    rwa [Char.ofNat_toNat]
  · have hself : c.toUpper = c := dif_neg hlow
    rwa [hself] at h

/-- The tables on ASCII map case. -/
theorem ascii_upper : CaseMapping ascii.upper where
  append := fun s t => List.map_append
  ne_nil := fun c => List.cons_ne_nil _ _
  fixed := by
    intro c hc
    change [c.toUpper] = [c]
    rw [toUpper_fixed hc]
  dot := by
    intro c hc
    exact toUpper_dot (List.mem_singleton.1 hc).symm

theorem generated_portable_ascii :
    PortableName ascii (sanitizeStem ascii "Q3: plan/rev <draft>?".toList "Untitled".toList) ∧
      PortableName ascii (Sources.noteStem ascii "CON".toList (some ⟨2026, 9, 8⟩) true) := by
  have hsample := generated_portable_iff ascii_upper
  exact ⟨(hsample.1 _).2.2 (by decide +kernel), (hsample.2.1 _ _ (by unfold RealDay; decide)).1⟩

/-- A device name behind which so many dots stand that the suffix is cut away. -/
def dotsBehindDevice : Text := "CON".toList ++ List.replicate 117 '.' ++ ['x']

/-- A title whose name is the one of a device, and the suffix behind an extension. -/
theorem device_name_generated :
    sanitizeStem ascii dotsBehindDevice "Untitled".toList = "CON".toList ∧
      sanitizeStem ascii "com1.md".toList "Untitled".toList = "com1.md (name)".toList ∧
      ¬ PortableName ascii (sanitizeStem ascii dotsBehindDevice "Untitled".toList) ∧
      ¬ PortableName ascii (sanitizeStem ascii "com1.md".toList "Untitled".toList) ∧
      ¬ ∀ segment ∈ levels (sanitizeFolder ascii "Work/com1.md".toList),
        PortableName ascii segment := by
  have hdots : sanitizeStem ascii dotsBehindDevice "Untitled".toList = "CON".toList := by
    decide +kernel
  have hname : sanitizeStem ascii "com1.md".toList "Untitled".toList =
      "com1.md (name)".toList := by decide +kernel
  have hfolder : levels (sanitizeFolder ascii "Work/com1.md".toList) =
      ["Work".toList, "com1.md (name)".toList] := by decide +kernel
  refine ⟨hdots, hname, ?_, ?_, ?_⟩
  · rw [hdots]
    exact fun h => h.device (by decide +kernel)
  · rw [hname]
    exact fun h => h.device (by decide +kernel)
  · rw [hfolder]
    exact fun h => (h _ (List.mem_cons_of_mem _ List.mem_cons_self)).device (by decide +kernel)

end Sample

end Coppermind.Naming
