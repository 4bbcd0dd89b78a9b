import Coppermind.Lib.Text

/-!
# Portable names

The names the store writes have to survive on every device the notes filesystem syncs to.
`sanitizeStem` and `sanitizeFolder` make a name portable; what they take from the Unicode
tables of the language is collected in `Unicode`.
-/

namespace Coppermind.Naming

open Coppermind.Lib Coppermind.Lib.Text

/-- The Unicode tables behind the language's strings. -/
structure Unicode where
  /-- `unicodedata.normalize("NFC", text)`. -/
  nfc : Text → Text
  upper : Text → Text
  casefold : Text → Text

/-- `_FORBIDDEN`: what Windows forbids in a path component, and the control range. -/
def isForbidden (c : Char) : Bool :=
  c ∈ ['<', '>', ':', '"', '/', '\\', '|', '?', '*'] || c.toNat < 0x20

/-- `_WHITESPACE.sub(" ", text)`. -/
def collapseSpace : Text → Text
  | [] => []
  | c :: t =>
    if isSpace c then
      match t with
      | d :: _ => if isSpace d then collapseSpace t else ' ' :: collapseSpace t
      | [] => [' ']
    else c :: collapseSpace t

/-- `_RESERVED`: the names of Windows devices. -/
def reserved : List Text :=
  ["CON".toList, "PRN".toList, "AUX".toList, "NUL".toList] ++
    ["1", "2", "3", "4", "5", "6", "7", "8", "9"].flatMap fun n =>
      ["COM".toList ++ n.toList, "LPT".toList ++ n.toList]

def maxStemLength : Nat := 120

def maxStemBytes : Nat := 255 - 3

/-- `len(text.encode("utf-8"))`. -/
def utf8Length (t : Text) : Nat :=
  (t.map Char.utf8Size).sum

/-- `while stem and len(stem.encode("utf-8")) > max_bytes: stem = stem[:-1]`, on the
reversed stem. -/
def dropToBytes (maxBytes : Nat) : Text → Text
  | [] => []
  | c :: t => if utf8Length (c :: t) > maxBytes then dropToBytes maxBytes t else c :: t

def isDotOrSpace (c : Char) : Bool :=
  c == '.' || c == ' '

/-- `_fit`: the stem within both budgets, never splitting a character. -/
def fit (stem : Text) (maxChars maxBytes : Nat) : Text :=
  if maxChars = 0 ∨ maxBytes = 0 then []
  else
    strip (((dropToBytes maxBytes (stem.take maxChars).reverse).reverse).rdropWhile isDotOrSpace)

def orElse (t fallback : Text) : Text :=
  if t = [] then fallback else t

/-- `stem.strip(". ")`. -/
def stripDotsSpaces (t : Text) : Text :=
  (t.dropWhile isDotOrSpace).rdropWhile isDotOrSpace

/-- `stem.split(".")[0]`. -/
def beforeDot (t : Text) : Text :=
  t.takeWhile (· != '.')

/-- `sanitize_stem`: a portable file or folder name, without an extension. -/
def sanitizeStem (unicode : Unicode) (value fallback : Text) : Text :=
  let stem := (unicode.nfc value).map fun c => if isForbidden c then ' ' else c
  let stem := strip (stripDotsSpaces (strip (collapseSpace stem)))
  if stem = [] then fallback
  else
    let upper := unicode.upper stem
    let stem :=
      if upper ∈ reserved ∨ beforeDot upper ∈ reserved then stem ++ " (name)".toList else stem
    orElse (fit stem maxStemLength maxStemBytes) fallback

/-- `sanitize_folder`: a portable relative folder path, one sanitised segment per level. -/
def sanitizeFolder (unicode : Unicode) (value : Text) : Text :=
  let parts := (value.map fun c => if c = '\\' then '/' else c).splitOn '/'
  let segments := parts.map fun part => sanitizeStem unicode part []
  ['/'].intercalate (segments.filter fun part =>
    part != [] && part != ".".toList && part != "..".toList)

/-- `text.rpartition(c)`, where `c` occurs. -/
def rpartition? (c : Char) (t : Text) : Option (Text × Text) :=
  if c ∈ t then
    some ((t.reverse.dropWhile (· != c)).tail.reverse, (t.reverse.takeWhile (· != c)).reverse)
  else none

/-- A filename cut at its last dot; a name that only starts with one has no extension. -/
def splitExtension (filename : Text) : Text × Text :=
  match rpartition? '.' filename with
  | some (stem, extension) => if stem = [] then (filename, []) else (stem, extension)
  | none => (filename, [])

/-- One level of a portable path. -/
structure PortablePart (part : Text) : Prop where
  ne_nil : part ≠ []
  ne_dot : part ≠ ".".toList
  ne_dots : part ≠ "..".toList
  stripped : strip part = part
  allowed : ∀ c ∈ part, isForbidden c = false

section Portable

theorem strip_strip (t : Text) : strip (strip t) = strip t :=
  trim_idempotent isSpace t

theorem mem_of_mem_strip {c : Char} {t : Text} (h : c ∈ strip t) : c ∈ t :=
  (List.dropWhile_sublist _).subset ((List.rdropWhile_prefix _ _).subset h)

theorem mem_collapseSpace {c : Char} {t : Text} (h : c ∈ collapseSpace t) : c = ' ' ∨ c ∈ t := by
  induction t with
  | nil => simp [collapseSpace] at h
  | cons d t ih =>
    have hrest : c ∈ collapseSpace t → c = ' ' ∨ c ∈ d :: t := by
      intro hc
      rcases ih hc with hspace | hmem
      · exact .inl hspace
      · exact .inr (List.mem_cons_of_mem _ hmem)
    unfold collapseSpace at h
    by_cases hd : isSpace d = true
    · rw [if_pos hd] at h
      cases t with
      | nil => exact .inl (by simpa using h)
      | cons e t =>
        by_cases he : isSpace e = true
        · simp only [he, if_true] at h
          exact hrest h
        · simp only [he, Bool.false_eq_true, if_false, List.mem_cons] at h
          rcases h with hspace | hc
          · exact .inl hspace
          · exact hrest hc
    · rw [if_neg hd] at h
      rcases List.mem_cons.1 h with rfl | hc
      · exact .inr List.mem_cons_self
      · exact hrest hc

theorem dropToBytes_suffix (maxBytes : Nat) (t : Text) : dropToBytes maxBytes t <:+ t := by
  induction t with
  | nil => exact List.suffix_refl _
  | cons c t ih =>
    unfold dropToBytes
    split
    · exact ih.trans (List.suffix_cons c t)
    · exact List.suffix_refl _

theorem mem_of_mem_fit {c : Char} {t : Text} {maxChars maxBytes : Nat}
    (h : c ∈ fit t maxChars maxBytes) : c ∈ t := by
  unfold fit at h
  split at h
  · cases h
  · have hcut := (List.rdropWhile_prefix _ _).subset (mem_of_mem_strip h)
    have htaken := (dropToBytes_suffix _ _).subset (List.mem_reverse.1 hcut)
    exact List.mem_of_mem_take (List.mem_reverse.1 htaken)

theorem strip_fit (t : Text) (maxChars maxBytes : Nat) :
    strip (fit t maxChars maxBytes) = fit t maxChars maxBytes := by
  unfold fit
  split
  · rfl
  · rw [strip_strip]

@[simp] theorem orElse_nil (t : Text) : orElse t [] = t := by
  unfold orElse
  split
  · next h => exact h.symm
  · rfl

variable (unicode : Unicode)

theorem strip_sanitizeStem (value : Text) :
    strip (sanitizeStem unicode value []) = sanitizeStem unicode value [] := by
  unfold sanitizeStem
  simp only [orElse_nil]
  split
  · rfl
  · rw [strip_fit]

theorem allowed_of_mem_sanitizeStem {c : Char} {value : Text}
    (h : c ∈ sanitizeStem unicode value []) : isForbidden c = false := by
  have hsuffix : (" (name)".toList.all fun c => !isForbidden c) = true := by decide
  have hstem : ∀ t : Text,
      c ∈ strip (stripDotsSpaces (strip (collapseSpace
        (t.map fun c => if isForbidden c then ' ' else c)))) → isForbidden c = false := by
    intro t hc
    have hdots := mem_of_mem_strip hc
    have hstripped := (List.dropWhile_sublist _).subset ((List.rdropWhile_prefix _ _).subset hdots)
    rcases mem_collapseSpace (mem_of_mem_strip hstripped) with rfl | hmem
    · decide
    · obtain ⟨d, -, rfl⟩ := List.mem_map.1 hmem
      split
      · decide
      · next hd => exact Bool.eq_false_iff.2 hd
  replace hstem := hstem (unicode.nfc value)
  unfold sanitizeStem at h
  simp only at h
  generalize strip (stripDotsSpaces _) = stem at h hstem
  by_cases hnil : stem = []
  · rw [if_pos hnil] at h
    exact absurd h List.not_mem_nil
  · rw [if_neg hnil, orElse_nil] at h
    have hfit := mem_of_mem_fit h
    by_cases hreserved : unicode.upper stem ∈ reserved ∨ beforeDot (unicode.upper stem) ∈ reserved
    · rw [if_pos hreserved] at hfit
      rcases List.mem_append.1 hfit with hc | hname
      · exact hstem hc
      · simpa using List.all_eq_true.1 hsuffix c hname
    · rw [if_neg hreserved] at hfit
      exact hstem hfit

/-- Every level of a folder path made portable is portable. -/
theorem portablePart_of_mem_sanitizeFolder {value : Text} (hne : sanitizeFolder unicode value ≠ [])
    {part : Text} (h : part ∈ (sanitizeFolder unicode value).splitOn '/') : PortablePart part := by
  unfold sanitizeFolder at hne h
  simp only at hne h
  generalize hsegments : (((value.map fun c => if c = '\\' then '/' else c).splitOn '/').map
    fun part => sanitizeStem unicode part []) = segments at hne h
  have hparts : ∀ segment ∈ segments.filter
      (fun part => part != [] && part != ".".toList && part != "..".toList),
      PortablePart segment := by
    intro segment hmem
    obtain ⟨hsegment, hkept⟩ := List.mem_filter.1 hmem
    rw [← hsegments] at hsegment
    obtain ⟨part, -, rfl⟩ := List.mem_map.1 hsegment
    simp only [Bool.and_eq_true, bne_iff_ne] at hkept
    exact ⟨hkept.1.1, hkept.1.2, hkept.2, strip_sanitizeStem unicode part,
      fun c hc => allowed_of_mem_sanitizeStem unicode hc⟩
  rw [List.splitOn_intercalate] at h
  · exact hparts part h
  · intro segment hmem hslash
    exact absurd ((hparts segment hmem).allowed '/' hslash) (by decide)
  · intro hnil
    rw [hnil] at hne
    exact hne rfl

end Portable

end Coppermind.Naming
