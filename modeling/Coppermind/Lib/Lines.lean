import Coppermind.Lib.PyStr

/-!
# The lines of a string of code points

`linesOf` cuts a string where `str.splitlines` does and keeps beside each line the break that ends
it, so that the string can be put together again.  What a writer that joins lines with line feeds
needs is at the end: a line that holds no break, closed by a line feed, is cut off as it stands.
-/

namespace Coppermind.Lib.PyStr

/-- A line and the break that ends it, empty where the string ends first. -/
structure Line where
  content : PyStr
  ending : PyStr
deriving DecidableEq

def lf : Nat := 0x0a

def cr : Nat := 0x0d

/-- The line boundaries of `str.splitlines`. -/
def isLineBreak (c : Nat) : Bool :=
  c ∈ [0x0a, 0x0b, 0x0c, 0x0d, 0x1c, 0x1d, 0x1e, 0x85, 0x2028, 0x2029]

/-- The lines of a string, with their breaks. -/
def linesOf : PyStr → List Line
  | [] => []
  | c :: s =>
    if c = cr ∧ s.head? = some lf then
      match linesOf s with
      | [] => []
      | line :: lines => ⟨[], cr :: line.ending⟩ :: lines
    else if isLineBreak c then ⟨[], [c]⟩ :: linesOf s
    else
      match linesOf s with
      | [] => [⟨[c], []⟩]
      | line :: lines => ⟨c :: line.content, line.ending⟩ :: lines

/-- `text.splitlines()`. -/
def splitlines (s : PyStr) : List PyStr := (linesOf s).map (·.content)

/-- A line as it stands in its string. -/
def Line.text (line : Line) : PyStr := line.content ++ line.ending

variable {a b s : PyStr} {c : Nat} {line : Line}

theorem linesOf_lf_cons (s : PyStr) : linesOf (lf :: s) = ⟨[], [lf]⟩ :: linesOf s := by
  rw [linesOf, if_neg (by simp [lf, cr]), if_pos (by decide)]

theorem linesOf_crlf (s : PyStr) : linesOf (cr :: lf :: s) = ⟨[], [cr, lf]⟩ :: linesOf s := by
  rw [linesOf, if_pos ⟨rfl, rfl⟩, linesOf_lf_cons]

theorem linesOf_break (h : isLineBreak c = true) (hcut : ¬(c = cr ∧ s.head? = some lf)) :
    linesOf (c :: s) = ⟨[], [c]⟩ :: linesOf s := by
  rw [linesOf, if_neg hcut, if_pos h]

theorem ne_cr_of_noBreak (h : isLineBreak c = false) : c ≠ cr := by
  rintro rfl
  cases h

theorem linesOf_noBreak (h : isLineBreak c = false) : linesOf (c :: s) =
    match linesOf s with
    | [] => [⟨[c], []⟩]
    | line :: lines => ⟨c :: line.content, line.ending⟩ :: lines := by
  rw [linesOf, if_neg fun hcut => ne_cr_of_noBreak h hcut.1, if_neg (by simp [h])]

/-- The three ways a string begins: with a CR LF, with another break, or within a line. -/
theorem cons_cases (c : Nat) (s : PyStr) :
    (c = cr ∧ ∃ s', s = lf :: s') ∨
      (isLineBreak c = true ∧ ¬(c = cr ∧ s.head? = some lf)) ∨ isLineBreak c = false := by
  by_cases hcut : c = cr ∧ s.head? = some lf
  · left
    obtain ⟨hc, hs⟩ := hcut
    exact ⟨hc, List.head?_eq_some_iff.1 hs⟩
  · right
    cases hbreak : isLineBreak c with
    | true => exact Or.inl ⟨rfl, hcut⟩
    | false => exact Or.inr rfl

/-- The lines, each with its break, are the string. -/
theorem flatMap_linesOf (s : PyStr) : (linesOf s).flatMap Line.text = s := by
  induction hn : s.length using Nat.strong_induction_on generalizing s with
  | _ n ih =>
    cases s with
    | nil => rfl
    | cons c s =>
      obtain ⟨rfl, s', rfl⟩ | ⟨hbreak, hcut⟩ | hbreak := cons_cases c s
      · have hrest := ih s'.length (by simp at hn; omega) s' rfl
        simp [linesOf_crlf, Line.text, hrest]
      · have hrest := ih s.length (by simp at hn; omega) s rfl
        simp [linesOf_break hbreak hcut, Line.text, hrest]
      · have hrest := ih s.length (by simp at hn; omega) s rfl
        rw [linesOf_noBreak hbreak]
        cases hs : linesOf s with
        | nil =>
          rw [hs] at hrest
          simp [Line.text, ← hrest]
        | cons line lines =>
          rw [hs] at hrest
          simpa [Line.text] using hrest

/-- What a line may be: no break within it, and one break or none after it. -/
structure Line.WellFormed (line : Line) : Prop where
  content : ∀ c ∈ line.content, isLineBreak c = false
  ending : line.ending = [] ∨ line.ending = [cr, lf] ∨ ∃ c, line.ending = [c]

theorem wellFormed_of_mem (h : line ∈ linesOf s) : line.WellFormed := by
  induction hn : s.length using Nat.strong_induction_on generalizing s line with
  | _ n ih =>
    cases s with
    | nil => cases h
    | cons c s =>
      have hrest : ∀ line ∈ linesOf s, line.WellFormed :=
        fun line hline => ih s.length (by simp at hn; omega) hline rfl
      obtain ⟨rfl, s', rfl⟩ | ⟨hbreak, hcut⟩ | hbreak := cons_cases c s
      · rw [linesOf_crlf] at h
        obtain rfl | h := List.mem_cons.1 h
        · exact ⟨by simp, Or.inr (Or.inl rfl)⟩
        · exact ih s'.length (by simp at hn; omega) h rfl
      · rw [linesOf_break hbreak hcut] at h
        obtain rfl | h := List.mem_cons.1 h
        · exact ⟨by simp, Or.inr (Or.inr ⟨c, rfl⟩)⟩
        · exact hrest line h
      · rw [linesOf_noBreak hbreak] at h
        cases hs : linesOf s with
        | nil =>
          rw [hs] at h
          obtain rfl := List.mem_singleton.1 h
          exact ⟨by simpa using hbreak, Or.inl rfl⟩
        | cons first lines =>
          rw [hs] at h hrest
          obtain rfl | h := List.mem_cons.1 h
          · have hfirst := hrest first List.mem_cons_self
            exact ⟨by simpa [hbreak] using hfirst.content, hfirst.ending⟩
          · exact hrest line (List.mem_cons_of_mem _ h)

/-- **A line that is closed by a line feed** is cut off as it stands. -/
theorem linesOf_line (h : ∀ c ∈ a, isLineBreak c = false) :
    linesOf (a ++ lf :: s) = ⟨a, [lf]⟩ :: linesOf s := by
  induction a with
  | nil => exact linesOf_lf_cons s
  | cons c a ih =>
    have hc : isLineBreak c = false := h c List.mem_cons_self
    rw [List.cons_append, linesOf_noBreak hc, ih fun d hd => h d (List.mem_cons_of_mem _ hd)]

/-- A cut after a line feed is a cut between two lines. -/
theorem linesOf_append_lf (a b : PyStr) :
    linesOf (a ++ lf :: b) = linesOf (a ++ [lf]) ++ linesOf b := by
  induction hn : a.length using Nat.strong_induction_on generalizing a with
  | _ n ih =>
    cases a with
    | nil =>
      have hlf : linesOf [lf] = [⟨[], [lf]⟩] := by decide
      rw [List.nil_append, List.nil_append, linesOf_lf_cons, hlf, List.singleton_append]
    | cons c a =>
      have hrest := ih a.length (by simp at hn; omega) a rfl
      obtain ⟨rfl, a', rfl⟩ | ⟨hbreak, hcut⟩ | hbreak := cons_cases c a
      · have hrest := ih a'.length (by simp at hn; omega) a' rfl
        simp only [List.cons_append, linesOf_crlf, hrest]
      · by_cases hcr : c = cr ∧ a = []
        · obtain ⟨rfl, rfl⟩ := hcr
          have hcrlf : linesOf [cr, lf] = [⟨[], [cr, lf]⟩] := by decide
          simp only [List.cons_append, List.nil_append, linesOf_crlf, hcrlf]
        · have hhead : ∀ t, ¬(c = cr ∧ (a ++ lf :: t).head? = some lf) := by
            rintro t ⟨rfl, hhead⟩
            cases a with
            | nil => exact hcr ⟨rfl, rfl⟩
            | cons d a => exact hcut ⟨rfl, hhead⟩
          simp only [List.cons_append, linesOf_break hbreak (hhead b),
            linesOf_break hbreak (hhead []), hrest]
      · simp only [List.cons_append, linesOf_noBreak hbreak, hrest]
        cases hs : linesOf (a ++ [lf]) with
        | nil =>
          have hflat := flatMap_linesOf (a ++ [lf])
          rw [hs] at hflat
          simp at hflat
        | cons line lines => rfl

theorem splitlines_line (h : ∀ c ∈ a, isLineBreak c = false) :
    splitlines (a ++ lf :: s) = a :: splitlines s := by
  rw [splitlines, linesOf_line h, List.map_cons, splitlines]

theorem splitlines_append_lf (a b : PyStr) :
    splitlines (a ++ lf :: b) = splitlines (a ++ [lf]) ++ splitlines b := by
  rw [splitlines, linesOf_append_lf, List.map_append, splitlines, splitlines]

/-- Lines that hold no break, each closed by a line feed, are cut off one after the other. -/
theorem splitlines_flatMap {lines : List PyStr}
    (h : ∀ line ∈ lines, ∀ c ∈ line, isLineBreak c = false) :
    splitlines (lines.flatMap (· ++ [lf]) ++ s) = lines ++ splitlines s := by
  induction lines with
  | nil => rfl
  | cons line lines ih =>
    have hline := h line List.mem_cons_self
    have hrest := ih fun l hl => h l (List.mem_cons_of_mem _ hl)
    rw [List.flatMap_cons, List.append_assoc, List.append_assoc, List.singleton_append,
      splitlines_line hline, hrest, List.cons_append]

/-- Joining with line feeds and one more behind closes every line with one. -/
theorem intercalate_lf_append {lines : List PyStr} (h : lines ≠ []) :
    [lf].intercalate lines ++ [lf] = lines.flatMap (· ++ [lf]) := by
  induction lines with
  | nil => exact absurd rfl h
  | cons line lines ih =>
    cases lines with
    | nil => simp
    | cons next lines =>
      rw [List.flatMap_cons, ← ih (by simp), List.intercalate_cons_cons]
      simp

end Coppermind.Lib.PyStr
