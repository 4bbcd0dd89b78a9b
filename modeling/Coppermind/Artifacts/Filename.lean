import Coppermind.Lib.Bounded
import Coppermind.Artifacts.Store
import Coppermind.Naming.Unique

/-!
# Which artifact filenames can be created

`artifact_filename` sanitises the two halves of a filename for themselves and `unique_filename`
puts a counter between them.  The result is free, without what Windows forbids and without a dot or
a space at its end; the characters of the halves are budgeted but not their bytes, and the cut of
the stem can lay a device name bare.
-/

namespace Coppermind.Artifacts

open scoped Coppermind.Lib.Bounded
open Coppermind.Lib Coppermind.Lib.Text Coppermind.Naming

section Statement

variable (env : Env)

/-- A name that can be created in a folder whose names, folded, are `lowered`. -/
structure CreatableName (lowered : List Text) (name : Text) : Prop where
  bytes : utf8Length name ≤ 255
  allowed : ∀ c ∈ name, isForbidden c = false
  last : ∀ c ∈ name.getLast?, isDotOrSpace c = false
  device : env.unicode.upper (beforeDot name) ∉ reserved
  free : env.unicode.casefold name ∉ lowered

/-- The sanitised stem of a filename. -/
def stemHalf (filename : Text) : Text :=
  sanitizeStem env.unicode (splitExtension filename).1 "artifact".toList

/-- The sanitised extension of a filename. -/
def extensionHalf (filename : Text) : Text :=
  let extension := (splitExtension filename).2
  if extension = [] then [] else sanitizeStem env.unicode extension []

/-- An extension with its dot. -/
def dotted (extension : Text) : Text := if extension = [] then [] else '.' :: extension

/-- The characters an extension leaves for the stem. -/
def charsLeft (filename : Text) : Nat :=
  max (maxStemLength - (dotted (extensionHalf env filename)).length) 1

/-- A beginning of a text, of at most so many characters and with no dot or space at its end. -/
def Begins (chars : Nat) (text beginning : Text) : Prop :=
  beginning <+: text ∧ beginning.length ≤ chars ∧
    ∀ c ∈ beginning.getLast?, isDotOrSpace c = false

/-- So many characters of a text start with a device name, and a dot follows, or nothing but dots
and spaces. -/
def BaresDevice (chars : Nat) (text : Text) : Prop :=
  ∃ device rest, text = device ++ rest ∧ device.length ≤ chars ∧
    env.unicode.upper device ∈ reserved ∧
    (rest.head? = some '.' ∨ ∀ c ∈ rest.take (chars - device.length), isDotOrSpace c = true)

/-- The two halves leave room for each other, and for so many bytes of a counter. -/
def Fits (filename : Text) (counter : Nat) : Prop :=
  ∀ beginning, Begins (charsLeft env filename) (stemHalf env filename) beginning →
    utf8Length beginning + utf8Length (dotted (extensionHalf env filename)) + counter ≤ 255

/-- The cut of the stem by the characters of the extension leaves a device in front. -/
def InFront (filename : Text) : Prop :=
  BaresDevice env (charsLeft env filename) (stemHalf env filename)

/-- The filename has one dot at most once its stem is cut. -/
def OneDot (filename : Text) : Prop :=
  ∀ beginning, Begins (charsLeft env filename) (stemHalf env filename) beginning →
    beginning.count '.' + (dotted (extensionHalf env filename)).count '.' ≤ 1

/-- The two halves leave room for each other, and for a counter where their name is taken, and
there is no device in front: a counter keeps the device apart where the name has one dot. -/
structure Roomy (filename : Text) (lowered : List Text) : Prop where
  free : env.unicode.casefold (artifactFilename env filename) ∉ lowered →
    Fits env filename 0 ∧ ¬InFront env filename
  taken : env.unicode.casefold (artifactFilename env filename) ∈ lowered →
    (∃ n, 2 ≤ n ∧
      env.unicode.casefold (numberedFilename (artifactFilename env filename) n) ∉ lowered ∧
      Fits env filename (counterTail n).length) ∧
    (InFront env filename → OneDot env filename)

/-- What is left of the stem once it is cut. -/
def keptStem (filename : Text) : Text :=
  ((stemHalf env filename).take (charsLeft env filename)).rdropWhile isDotOrSpace

end Statement

section Halves

variable {env : Env}

theorem clean_artifact : Clean "artifact".toList where
  allowed := by decide
  spaces := by decide
  head := by decide
  last := by decide

theorem clean_nil : Clean [] where
  allowed := nofun
  spaces := nofun
  head := nofun
  last := nofun

theorem clean_extensionHalf (filename : Text) : Clean (extensionHalf env filename) := by
  unfold extensionHalf
  simp only
  split
  · exact clean_nil
  · by_cases hnil : cleaned env.unicode (splitExtension filename).2 = []
    · rw [sanitizeStem_of_nil hnil]
      exact clean_nil
    · exact (clean_sanitizeStem_of_ne [] hnil).1

theorem clean_keptStem (filename : Text) :
    Clean (keptStem env filename) ∧ keptStem env filename ≠ [] := by
  obtain ⟨hclean, hne⟩ : Clean (stemHalf env filename) ∧ _ :=
    clean_sanitizeStem ⟨clean_artifact, by decide⟩
  refine hclean.beginning (List.take_prefix _ _) ?_
  rw [Ne, List.take_eq_nil_iff, not_or]
  unfold charsLeft
  exact ⟨by omega, hne⟩

/-- **The filename** is its two halves joined. -/
theorem artifactFilename_eq (filename : Text) : artifactFilename env filename =
    keptStem env filename ++ dotted (extensionHalf env filename) := by
  obtain ⟨hclean, hne⟩ := @clean_keptStem env filename
  have hstrip := strip_eq_self hclean.spaces hclean.head hclean.last
  have hreserve : (if extensionHalf env filename = [] then 0
      else (extensionHalf env filename).length + 1) =
        (dotted (extensionHalf env filename)).length := by
    unfold dotted
    split <;> simp
  unfold artifactFilename
  change (if extensionHalf env filename = [] then orElse (strip (((stemHalf env filename).take
      (max (maxStemLength - if extensionHalf env filename = [] then 0
        else (extensionHalf env filename).length + 1) 1)).rdropWhile isDotOrSpace)) _
    else orElse (strip (((stemHalf env filename).take
      (max (maxStemLength - if extensionHalf env filename = [] then 0
        else (extensionHalf env filename).length + 1) 1)).rdropWhile isDotOrSpace)) _ ++
          '.' :: extensionHalf env filename) = _
  rw [hreserve]
  change (if extensionHalf env filename = [] then orElse (strip (keptStem env filename)) _
    else orElse (strip (keptStem env filename)) _ ++ '.' :: extensionHalf env filename) = _
  rw [hstrip, orElse, if_neg hne, dotted]
  split
  · rw [List.append_nil]
  · rfl

/-- Two clean halves joined. -/
theorem clean_append_dotted {stem extension : Text} (hstem : Clean stem) (hne : stem ≠ [])
    (hextension : Clean extension) : Clean (stem ++ dotted extension) := by
  unfold dotted
  split
  · rwa [List.append_nil]
  · next hext =>
    refine ⟨?_, ?_, ?_, ?_⟩
    · intro c hc
      obtain hc | hc := List.mem_append.1 hc
      · exact hstem.allowed c hc
      · obtain rfl | hc := List.mem_cons.1 hc
        · decide
        · exact hextension.allowed c hc
    · intro c hc
      obtain hc | hc := List.mem_append.1 hc
      · exact hstem.spaces c hc
      · obtain rfl | hc := List.mem_cons.1 hc
        · decide
        · exact hextension.spaces c hc
    · rw [List.head?_append_of_ne_nil stem hne]
      exact hstem.head
    · rw [List.getLast?_append_of_ne_nil _ (List.cons_ne_nil _ _)]
      obtain ⟨d, t, rfl⟩ := List.exists_cons_of_ne_nil hext
      rw [List.getLast?_cons_cons]
      exact hextension.last

theorem beforeDot_append_dot (s t : Text) : beforeDot (s ++ '.' :: t) = beforeDot s := by
  by_cases hdot : '.' ∈ s
  · exact beforeDot_append_of_mem hdot
  · have hall : ∀ c ∈ s, (c != '.') = true := by
      intro c hc
      rw [bne_iff_ne]
      rintro rfl
      exact hdot hc
    rw [beforeDot_of_notMem hdot, beforeDot, List.takeWhile_append_of_pos hall,
      List.takeWhile_cons_of_neg (by decide), List.append_nil]

theorem beforeDot_append_dotted (stem extension : Text) :
    beforeDot (stem ++ dotted extension) = beforeDot stem := by
  unfold dotted
  split
  · rw [List.append_nil]
  · exact beforeDot_append_dot _ _

/-- What holds of every beginning is what holds of the longest, where shorter ones only gain. -/
theorem forall_begins_iff {chars : Nat} {text : Text} {P : Text → Prop}
    (hshorter : ∀ s t, s <+: t → P t → P s) :
    (∀ beginning, Begins chars text beginning → P beginning) ↔
      P ((text.take chars).rdropWhile isDotOrSpace) := by
  constructor
  · intro h
    apply h
    have htake := List.rdropWhile_prefix isDotOrSpace (text.take chars)
    exact ⟨htake.trans (List.take_prefix _ _), htake.length_le.trans (List.length_take_le _ _),
      fun c hc => isDotOrSpace_of_mem_getLast?_rdropWhile hc⟩
  · rintro h beginning ⟨hbegins, hlength, hlast⟩
    apply hshorter _ _ (prefix_rdropWhile ?_ hlast) h
    rw [List.prefix_take_iff]
    exact ⟨hbegins, hlength⟩

theorem beforeDot_append_self {s t : Text} (hs : '.' ∉ s) (ht : t = [] ∨ t.head? = some '.') :
    beforeDot (s ++ t) = s := by
  obtain rfl | ht := ht
  · rw [List.append_nil, beforeDot_of_notMem hs]
  · obtain ⟨t, rfl⟩ := List.head?_eq_some_iff.1 ht
    rw [beforeDot_append_dot, beforeDot_of_notMem hs]

theorem take_append_of_le {chars : Nat} {s t : Text} (h : s.length ≤ chars) :
    (s ++ t).take chars = s ++ t.take (chars - s.length) := by
  rw [List.take_append, List.take_of_length_le h]

/-- The cut lays a device bare where so many characters start with one that stands alone. -/
theorem baresDevice_iff (hupper : CaseMapping env.unicode.upper) {chars : Nat} {text : Text} :
    BaresDevice env chars text ↔
      env.unicode.upper (beforeDot ((text.take chars).rdropWhile isDotOrSpace)) ∈ reserved := by
  have hsplit : (text.take chars).rdropWhile isDotOrSpace ++
      (text.take chars).rtakeWhile isDotOrSpace = text.take chars :=
    List.rdropWhile_append_rtakeWhile
  have hcut : ∀ c ∈ (text.take chars).rtakeWhile isDotOrSpace, isDotOrSpace c = true :=
    fun c hc => List.mem_rtakeWhile_imp hc
  constructor
  · rintro ⟨device, rest, rfl, hlength, hdevice, hrest⟩
    have hdot := (device_shape hupper hdevice).2.1
    rw [take_append_of_le hlength] at hsplit ⊢
    obtain ⟨kept, hkept⟩ : device <+:
        (device ++ rest.take (chars - device.length)).rdropWhile isDotOrSpace :=
      prefix_rdropWhile (List.prefix_append _ _) (last_of_device hupper hdevice)
    rw [← hkept, beforeDot_append_self hdot]
    · exact hdevice
    · rw [← hkept, List.append_assoc, List.append_cancel_left_eq] at hsplit
      obtain hhead | hall := hrest
      · cases kept with
        | nil => exact .inl rfl
        | cons c kept =>
          right
          obtain ⟨t, rfl⟩ := List.head?_eq_some_iff.1 hhead
          cases hleft : chars - device.length with
          | zero =>
            rw [hleft] at hsplit
            cases hsplit
          | succ n =>
            rw [hleft, List.take_succ_cons, List.cons_append] at hsplit
            rw [(List.cons.inj hsplit).1, List.head?_cons]
      · left
        by_contra hne
        have hlast : ∀ c ∈ kept.getLast?, isDotOrSpace c = false := by
          intro c hc
          apply isDotOrSpace_of_mem_getLast?_rdropWhile
          rw [← hkept, List.getLast?_append_of_ne_nil _ hne]
          exact hc
        have hmem := List.getLast_mem hne
        have hfalse := hlast _ (List.getLast?_eq_some_getLast hne)
        rw [hall _ (by rw [← hsplit]; exact List.mem_append_left _ hmem)] at hfalse
        cases hfalse
  · intro hdevice
    generalize (text.take chars).rdropWhile isDotOrSpace = kept at hsplit hdevice
    generalize (text.take chars).rtakeWhile isDotOrSpace = cut at hsplit hcut
    have hkept : beforeDot kept ++ kept.dropWhile (· != '.') = kept :=
      List.takeWhile_append_dropWhile
    refine ⟨beforeDot kept, kept.dropWhile (· != '.') ++ cut ++ text.drop chars, ?_, ?_, hdevice, ?_⟩
    · rw [← List.append_assoc, ← List.append_assoc, hkept, hsplit, List.take_append_drop]
    · have hlength := congrArg List.length hsplit
      have hshort := (beforeDot_begins kept).length_le
      rw [List.length_append] at hlength
      have hchars := List.length_take_le chars text
      omega
    · have hrest : kept.dropWhile (· != '.') = [] ∨
          (kept.dropWhile (· != '.')).head? = some '.' := by
        by_cases hnil : kept.dropWhile (· != '.') = []
        · exact .inl hnil
        · right
          rw [List.head?_eq_some_head hnil]
          simpa using List.head_dropWhile_not (· != '.') hnil
      obtain hnil | hhead := hrest
      · -- What stands behind the device within the cut is what the cut drops.
        right
        rw [hnil, List.append_nil] at hkept
        rw [hnil, List.nil_append, hkept]
        intro c hc
        apply hcut
        have hlength : kept.length ≤ chars := by
          have htotal := congrArg List.length hsplit
          rw [List.length_append] at htotal
          have hchars := List.length_take_le chars text
          omega
        have htake : (kept ++ (cut ++ text.drop chars)).take chars = kept ++ cut := by
          rw [← List.append_assoc, hsplit, List.take_append_drop]
        rw [take_append_of_le hlength, List.append_cancel_left_eq] at htake
        rwa [htake] at hc
      · left
        rw [List.append_assoc, List.head?_append, hhead]
        rfl

theorem fits_iff {filename : Text} {counter : Nat} :
    Fits env filename counter ↔ utf8Length (artifactFilename env filename) + counter ≤ 255 := by
  rw [artifactFilename_eq, utf8Length_append, keptStem]
  apply forall_begins_iff
  intro s t hst ht
  have hle := utf8Length_le_of_sublist hst.sublist
  omega

theorem inFront_iff (hupper : CaseMapping env.unicode.upper) {filename : Text} :
    InFront env filename ↔
      env.unicode.upper (beforeDot (artifactFilename env filename)) ∈ reserved := by
  rw [artifactFilename_eq, beforeDot_append_dotted, keptStem]
  exact baresDevice_iff hupper

theorem oneDot_iff {filename : Text} :
    OneDot env filename ↔ (artifactFilename env filename).count '.' ≤ 1 := by
  rw [artifactFilename_eq, List.count_append, keptStem]
  apply forall_begins_iff
  intro s t hst ht
  have hle := hst.sublist.count_le '.'
  omega

theorem roomy_of_free (hupper : CaseMapping env.unicode.upper) {filename : Text}
    {lowered : List Text}
    (h : env.unicode.casefold (artifactFilename env filename) ∉ lowered) :
    Roomy env filename lowered ↔ utf8Length (artifactFilename env filename) ≤ 255 ∧
      env.unicode.upper (beforeDot (artifactFilename env filename)) ∉ reserved := by
  rw [← inFront_iff hupper, ← Nat.add_zero (utf8Length _), ← fits_iff]
  exact ⟨fun hroomy => hroomy.free h, fun hfits => ⟨fun _ => hfits, fun htaken => absurd htaken h⟩⟩

theorem roomy_of_taken (hupper : CaseMapping env.unicode.upper) {filename : Text}
    {lowered : List Text}
    (h : env.unicode.casefold (artifactFilename env filename) ∈ lowered) :
    Roomy env filename lowered ↔
      (∃ n, 2 ≤ n ∧
        env.unicode.casefold (numberedFilename (artifactFilename env filename) n) ∉ lowered ∧
        utf8Length (artifactFilename env filename) + (counterTail n).length ≤ 255) ∧
      (env.unicode.upper (beforeDot (artifactFilename env filename)) ∈ reserved →
        (artifactFilename env filename).count '.' ≤ 1) := by
  simp only [← inFront_iff hupper, ← fits_iff, ← oneDot_iff]
  exact ⟨fun hroomy => hroomy.taken h, fun hfits => ⟨fun hfree => absurd h hfree, fun _ => hfits⟩⟩

end Halves

section Counter

theorem rpartition?_spec {c : Char} {t : Text} (h : c ∈ t) : ∃ before after,
    rpartition? c t = some (before, after) ∧ t = before ++ c :: after ∧ c ∉ after := by
  have hne : t.reverse.dropWhile (· != c) ≠ [] := by
    rw [Ne, List.dropWhile_eq_nil_iff]
    intro hall
    simpa using hall c (List.mem_reverse.2 h)
  have hhead : (t.reverse.dropWhile (· != c)).head hne = c := by
    simpa using List.head_dropWhile_not (· != c) hne
  refine ⟨_, _, if_pos h, ?_, ?_⟩
  · have hsplit : t.reverse = t.reverse.takeWhile (· != c) ++
        c :: (t.reverse.dropWhile (· != c)).tail := by
      conv_lhs => rw [← @List.takeWhile_append_dropWhile _ (· != c) t.reverse]
      rw [← List.cons_head_tail hne, hhead, List.tail_cons]
    have hboth := congrArg List.reverse hsplit
    rwa [List.reverse_reverse, List.reverse_append, List.reverse_cons, List.append_assoc] at hboth
  · intro hmem
    simpa using List.mem_takeWhile_imp (List.mem_reverse.1 hmem)

/-- Where a filename is cut for its counter. -/
theorem splitExtension_cases (name : Text) :
    (∃ stem extension, stem ≠ [] ∧ name = stem ++ '.' :: extension ∧ '.' ∉ extension ∧
      splitExtension name = (stem, extension)) ∨
    splitExtension name = (name, []) ∧ ('.' ∉ name ∨ name.head? = some '.') := by
  by_cases hdot : '.' ∈ name
  · obtain ⟨before, after, hcut, hname, hafter⟩ := rpartition?_spec hdot
    rw [splitExtension, hcut]
    by_cases hbefore : before = []
    · right
      rw [hname, hbefore]
      exact ⟨if_pos rfl, .inr rfl⟩
    · left
      exact ⟨before, after, hbefore, hname, hafter, if_neg hbefore⟩
  · right
    rw [splitExtension, rpartition?, if_neg hdot]
    exact ⟨rfl, .inl hdot⟩

/-- The counter of a clean name stands in front of its last dot. -/
theorem numberedFilename_eq {name : Text} (h : Clean name) : ∃ stem rest, name = stem ++ rest ∧
    (∀ n, numberedFilename name n = stem ++ counterTail n ++ rest) ∧
    (rest = [] ∧ '.' ∉ name ∨
      ∃ extension, extension ≠ [] ∧ '.' ∉ extension ∧ rest = '.' :: extension) := by
  obtain ⟨stem, extension, -, hname, hdot, hsplit⟩ | ⟨hsplit, hdot⟩ := splitExtension_cases name
  · have hext : extension ≠ [] := by
      rintro rfl
      have hlast := h.last '.' (by rw [hname]; simp)
      cases hlast
    refine ⟨stem, '.' :: extension, hname, ?_, .inr ⟨extension, hext, hdot, rfl⟩⟩
    intro n
    rw [numberedFilename, hsplit]
    simp only [if_neg hext, counterTail, List.append_assoc]
    rfl
  · refine ⟨name, [], (List.append_nil _).symm, ?_, .inl ⟨rfl, ?_⟩⟩
    · intro n
      rw [numberedFilename, hsplit, List.append_nil]
      simp only [if_true, counterTail, List.append_assoc]
      rfl
    · obtain hdot | hhead := hdot
      · exact hdot
      · exact absurd (h.head '.' hhead) (by decide)

theorem counterTail_ne_nil (n : Nat) : counterTail n ≠ [] := by
  simp [counterTail]

theorem allowed_counterTail {n : Nat} {c : Char} (h : c ∈ counterTail n) : isForbidden c = false := by
  obtain h | h := mem_counterTail h
  · exact (by decide : ∀ c ∈ [' ', '.', '(', ')'], isForbidden c = false) c h
  · exact (by decide : ∀ c ∈ "0123456789".toList, isForbidden c = false) c (mem_digits_of_isDigit h)

theorem dot_notMem_counterTail (n : Nat) : '.' ∉ counterTail n := by
  intro hmem
  obtain hmem | hmem := List.mem_append.1 hmem
  · obtain hmem | hmem := List.mem_append.1 hmem
    · exact absurd hmem (by decide)
    · exact absurd (isDigit_of_mem_toString hmem) (by decide)
  · exact absurd hmem (by decide)

theorem utf8Length_numberedFilename {name : Text} (h : Clean name) (n : Nat) :
    utf8Length (numberedFilename name n) = utf8Length name + (counterTail n).length := by
  obtain ⟨stem, rest, hname, hnumbered, -⟩ := numberedFilename_eq h
  rw [hnumbered, hname, utf8Length_append, utf8Length_append, utf8Length_append,
    utf8Length_counterTail]
  omega

theorem allowed_numberedFilename {name : Text} (h : Clean name) (n : Nat) :
    ∀ c ∈ numberedFilename name n, isForbidden c = false := by
  obtain ⟨stem, rest, hname, hnumbered, -⟩ := numberedFilename_eq h
  intro c hc
  rw [hnumbered] at hc
  obtain hc | hc := List.mem_append.1 hc
  · obtain hc | hc := List.mem_append.1 hc
    · exact h.allowed c (hname ▸ List.mem_append_left _ hc)
    · exact allowed_counterTail hc
  · exact h.allowed c (hname ▸ List.mem_append_right _ hc)

theorem last_numberedFilename {name : Text} (h : Clean name) (n : Nat) :
    ∀ c ∈ (numberedFilename name n).getLast?, isDotOrSpace c = false := by
  obtain ⟨stem, rest, hname, hnumbered, hrest⟩ := numberedFilename_eq h
  rw [hnumbered]
  obtain ⟨rfl, -⟩ | ⟨extension, -, -, rfl⟩ := hrest
  · intro c hc
    rw [List.append_nil, List.getLast?_append_of_ne_nil _ (counterTail_ne_nil n), counterTail,
      List.getLast?_append_of_ne_nil _ (by decide)] at hc
    obtain rfl := Option.some.inj hc
    decide
  · rw [List.getLast?_append_of_ne_nil _ (List.cons_ne_nil _ _)]
    have hlast := h.last
    rwa [hname, List.getLast?_append_of_ne_nil _ (List.cons_ne_nil _ _)] at hlast

/-- A counter stands between a device name and the last dot, and behind all dots but that. -/
theorem device_numberedFilename_iff {unicode : Unicode} (hupper : CaseMapping unicode.upper)
    {name : Text} (h : Clean name) (n : Nat) :
    unicode.upper (beforeDot (numberedFilename name n)) ∈ reserved ↔
      unicode.upper (beforeDot name) ∈ reserved ∧ 2 ≤ name.count '.' := by
  obtain ⟨stem, rest, hname, hnumbered, hrest⟩ := numberedFilename_eq h
  rw [hnumbered]
  by_cases hdot : '.' ∈ stem
  · obtain ⟨-, hnone⟩ | ⟨extension, -, -, rfl⟩ := hrest
    · exact absurd (hname ▸ List.mem_append_left _ hdot) hnone
    · rw [List.append_assoc, beforeDot_append_of_mem hdot, hname, beforeDot_append_of_mem hdot,
        List.count_append, List.count_cons_self]
      have hcount := List.count_pos_iff.2 hdot
      exact ⟨fun hdevice => ⟨hdevice, by omega⟩, fun hboth => hboth.1⟩
  · have hnot : ¬ unicode.upper (beforeDot (stem ++ counterTail n ++ rest)) ∈ reserved := by
      intro hdevice
      apply (device_shape hupper hdevice).2.2.1
      have hnodot : '.' ∉ stem ++ counterTail n := by
        rw [List.mem_append, not_or]
        exact ⟨hdot, dot_notMem_counterTail n⟩
      have hspace : ' ' ∈ stem ++ counterTail n :=
        List.mem_append_right _ (List.mem_append_left _ (List.mem_append_left _ (by decide)))
      obtain ⟨rfl, -⟩ | ⟨extension, -, -, rfl⟩ := hrest
      · rwa [List.append_nil, beforeDot_of_notMem hnodot]
      · rwa [beforeDot_append_dot, beforeDot_of_notMem hnodot]
    have hcount : name.count '.' ≤ 1 := by
      rw [hname, List.count_append, List.count_eq_zero.2 hdot]
      obtain ⟨rfl, -⟩ | ⟨extension, -, hext, rfl⟩ := hrest
      · simp
      · rw [List.count_cons_self, List.count_eq_zero.2 hext]
    exact ⟨fun hdevice => absurd hdevice hnot, fun hboth => absurd hboth.2 (by omega)⟩

theorem casefold_numberedFilename_inj {unicode : Unicode} (hfold : CaseMapping unicode.casefold)
    {name : Text} (h : Clean name) {m n : Nat}
    (heq : unicode.casefold (numberedFilename name m) = unicode.casefold (numberedFilename name n)) :
    m = n := by
  obtain ⟨stem, rest, -, hnumbered, -⟩ := numberedFilename_eq h
  rw [hnumbered, hnumbered, hfold.append, hfold.append, hfold.append, hfold.append,
    hfold.fixed_text fun c hc => mem_counterTail hc,
    hfold.fixed_text fun c hc => mem_counterTail hc] at heq
  exact counterTail_inj (List.append_cancel_left (List.append_cancel_right heq))

end Counter

section Unique

variable {env : Env} {lowered : List Text} {name : Text}

/-- The bounded loop is the loop of `unique_filename` once a free variant is in its reach. -/
theorem search_firstFree {fuel start n : Nat} (hn : start ≤ n) (hfuel : n ≤ start + fuel)
    (hfree : env.unicode.casefold (numberedFilename name n) ∉ lowered) :
    Search env.unicode.casefold (numberedFilename name) lowered start
      (firstFree env lowered name fuel start) := by
  induction fuel generalizing start with
  | zero =>
    obtain rfl : n = start := by omega
    exact .free hfree
  | succ fuel ih =>
    rw [firstFree]
    by_cases htaken : env.unicode.casefold (numberedFilename name start) ∈ lowered
    · rw [if_pos htaken]
      have hne : n ≠ start := by
        rintro rfl
        exact hfree htaken
      exact .taken htaken (ih (by omega) (by omega))
    · rw [if_neg htaken]
      exact .free htaken

/-- **The loop** of `unique_filename` ends, at the first variant that is free. -/
theorem uniqueFilename_taken (hfold : CaseMapping env.unicode.casefold) (h : Clean name)
    {taken : List Text} (htaken : env.unicode.casefold name ∈ taken.map env.unicode.casefold) :
    Search env.unicode.casefold (numberedFilename name) (taken.map env.unicode.casefold) 2
      (uniqueFilename env name taken) := by
  obtain ⟨n, hlow, hhigh, hfree⟩ := @exists_free env.unicode.casefold (numberedFilename name)
    (taken.map env.unicode.casefold) (fun m n heq => casefold_numberedFilename_inj hfold h heq) 2
  rw [uniqueFilename]
  simp only [if_pos htaken]
  exact search_firstFree hlow (by rwa [List.length_map] at hhigh) hfree

theorem uniqueFilename_free (hfold : CaseMapping env.unicode.casefold) (h : Clean name)
    (taken : List Text) :
    env.unicode.casefold (uniqueFilename env name taken) ∉ taken.map env.unicode.casefold := by
  by_cases htaken : env.unicode.casefold name ∈ taken.map env.unicode.casefold
  · obtain ⟨n, -, hname, hfree, -⟩ := (uniqueFilename_taken hfold h htaken).first
    rwa [hname]
  · rw [uniqueFilename]
    simp only [if_neg htaken]
    exact htaken

theorem clean_artifactFilename (filename : Text) : Clean (artifactFilename env filename) := by
  rw [artifactFilename_eq]
  exact clean_append_dotted (clean_keptStem filename).1 (clean_keptStem filename).2
    (clean_extensionHalf filename)

end Unique

section Creatable

variable {env : Env}

/-- **Creatable filenames**: the search ends, what it returns is free, without what Windows forbids
and without a dot or a space at its end, and it can be created exactly where its halves leave room
and no device stands in front. -/
theorem uniqueFilename_creatable_iff (hupper : CaseMapping env.unicode.upper)
    (hfold : CaseMapping env.unicode.casefold) (filename : Text) (taken : List Text) :
    (env.unicode.casefold (artifactFilename env filename) ∈ taken.map env.unicode.casefold →
      Search env.unicode.casefold (numberedFilename (artifactFilename env filename))
        (taken.map env.unicode.casefold) 2
        (uniqueFilename env (artifactFilename env filename) taken)) ∧
    ((∀ c ∈ uniqueFilename env (artifactFilename env filename) taken, isForbidden c = false) ∧
      (∀ c ∈ (uniqueFilename env (artifactFilename env filename) taken).getLast?,
        isDotOrSpace c = false) ∧
      env.unicode.casefold (uniqueFilename env (artifactFilename env filename) taken) ∉
        taken.map env.unicode.casefold) ∧
    (CreatableName env (taken.map env.unicode.casefold)
        (uniqueFilename env (artifactFilename env filename) taken) ↔
      Roomy env filename (taken.map env.unicode.casefold)) := by
  have hclean := @clean_artifactFilename env filename
  by_cases htaken : env.unicode.casefold (artifactFilename env filename) ∈
      taken.map env.unicode.casefold
  · rw [roomy_of_taken hupper htaken]
    generalize artifactFilename env filename = name at hclean htaken
    have hsearch := uniqueFilename_taken hfold hclean htaken
    obtain ⟨n, hlow, hname, hfree, hbefore⟩ := hsearch.first
    refine ⟨fun _ => hsearch, ?_, ?_⟩
    · rw [hname]
      exact ⟨allowed_numberedFilename hclean n, last_numberedFilename hclean n, hfree⟩
    · rw [hname]
      constructor
      · intro h
        refine ⟨⟨n, hlow, hfree, ?_⟩, ?_⟩
        · rw [← utf8Length_numberedFilename hclean]
          exact h.bytes
        · intro hdevice
          by_contra hcount
          exact h.device ((device_numberedFilename_iff hupper hclean n).2 ⟨hdevice, by omega⟩)
      · rintro ⟨⟨m, hm, hmfree, hbytes⟩, hdots⟩
        have hle : n ≤ m := by
          by_contra hlt
          exact hmfree (hbefore m hm (by omega))
        have htail := length_counterTail_mono hle
        refine ⟨?_, allowed_numberedFilename hclean n, last_numberedFilename hclean n, ?_, hfree⟩
        · rw [utf8Length_numberedFilename hclean]
          omega
        · intro hdevice
          obtain ⟨hfront, hcount⟩ := (device_numberedFilename_iff hupper hclean n).1 hdevice
          have := hdots hfront
          omega
  · rw [roomy_of_free hupper htaken]
    generalize artifactFilename env filename = name at hclean htaken
    have hself : uniqueFilename env name taken = name := by
      rw [uniqueFilename]
      exact if_neg htaken
    rw [hself]
    refine ⟨fun h => absurd h htaken, ⟨hclean.allowed, hclean.last, htaken⟩, ?_⟩
    exact ⟨fun h => ⟨h.bytes, h.device⟩,
      fun h => ⟨h.1, hclean.allowed, hclean.last, h.2, htaken⟩⟩

end Creatable

section Sample

open Coppermind.Notes.Folders (ascii)

/-- An installation in ASCII. -/
def asciiEnv : Env where
  unicode := ascii
  sha256 _ := []
  mediaType _ _ _ := "application/octet-stream".toList
  extract _ _ := ([], .unsupported)
  extractorVersion := "1".toList
  artifactsFolder := "Artifacts".toList
  artifactMaxBytes := 1000
  localMonth _ := ("2026".toList, "2026-01".toList)

/-- A filename of 111 characters, three bytes each but for the dot. -/
def wideFilename : Text :=
  List.replicate 80 '会' ++ '.' :: List.replicate 30 '会'

theorem deck_creatable :
    CreatableName asciiEnv (["Deck.pptx".toList].map ascii.casefold)
      (uniqueFilename asciiEnv (artifactFilename asciiEnv "deck.pptx".toList)
        ["Deck.pptx".toList]) := by
  have htaken : asciiEnv.unicode.casefold (artifactFilename asciiEnv "deck.pptx".toList) ∈
      ["Deck.pptx".toList].map asciiEnv.unicode.casefold := by decide +kernel
  apply (uniqueFilename_creatable_iff ascii_upper ascii_casefold "deck.pptx".toList
    ["Deck.pptx".toList]).2.2.2
  rw [roomy_of_taken ascii_upper htaken]
  exact ⟨⟨2, le_rfl, by decide +kernel⟩, fun _ => by decide +kernel⟩

/-- Two halves of many bytes, and a device in front of two dots. -/
theorem uncreatable_filenames :
    wideFilename.length ≤ 255 ∧
      ¬ CreatableName asciiEnv [] (uniqueFilename asciiEnv (artifactFilename asciiEnv wideFilename) []) ∧
      uniqueFilename asciiEnv (artifactFilename asciiEnv "CON.tar.gz".toList) [] =
        "CON.tar (name).gz".toList ∧
      ¬ CreatableName asciiEnv []
        (uniqueFilename asciiEnv (artifactFilename asciiEnv "CON.tar.gz".toList) []) := by
  have hdevice : uniqueFilename asciiEnv (artifactFilename asciiEnv "CON.tar.gz".toList) [] =
      "CON.tar (name).gz".toList := by decide +kernel
  refine ⟨by decide, ?_, hdevice, ?_⟩
  · exact fun h => absurd h.bytes (by decide +kernel)
  · rw [hdevice]
    exact fun h => h.device (by decide +kernel)

end Sample

end Coppermind.Artifacts
