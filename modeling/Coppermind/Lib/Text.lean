import Mathlib.Algebra.Group.Int.Defs
import Mathlib.Algebra.Group.Nat.Defs
import Mathlib.Algebra.GroupWithZero.Nat
import Mathlib.Data.Char
import Mathlib.Data.List.DropRight
import Mathlib.Data.List.Infix
import Mathlib.Data.List.Lex

/-!
# Text as a list of characters, cut into lines

`splitLines` is the universal line splitter: it keeps line endings, reads CR LF
as one ending and breaks at every character of `isLineBreak`.  The facts about
it are the ones a writer that splices text between lines needs: the lines join
back to the text, every line but the last ends in a break, and cutting after a
break commutes with splitting unless the cut falls inside a CR LF.
-/

namespace Coppermind.Lib

abbrev Text := List Char

instance Text.lawfulBEq : LawfulBEq Text := inferInstance

namespace Text

def cr : Char := '\r'

def lf : Char := '\n'

/-- The line boundaries of `str.splitlines`. -/
def isLineBreak (c : Char) : Bool :=
  c.toNat ∈ [0x0a, 0x0b, 0x0c, 0x0d, 0x1c, 0x1d, 0x1e, 0x85, 0x2028, 0x2029]

/-- The characters `str.isspace` accepts. -/
def isSpace (c : Char) : Bool :=
  c.toNat ∈ [0x09, 0x0a, 0x0b, 0x0c, 0x0d, 0x1c, 0x1d, 0x1e, 0x1f, 0x20, 0x85, 0xa0, 0x1680,
    0x2000, 0x2001, 0x2002, 0x2003, 0x2004, 0x2005, 0x2006, 0x2007, 0x2008, 0x2009, 0x200a,
    0x2028, 0x2029, 0x202f, 0x205f, 0x3000]

/-- `bool(text.strip())`: some character is not white space. -/
def notBlank (t : Text) : Bool :=
  t.any fun c => !isSpace c

/-- What a text file is read as: each line ending as a line feed. -/
def newlines : Text → Text
  | '\r' :: '\n' :: rest => '\n' :: newlines rest
  | '\r' :: rest => '\n' :: newlines rest
  | c :: rest => c :: newlines rest
  | [] => []

def lstripSpace (t : Text) : Text :=
  t.dropWhile isSpace

def strip (t : Text) : Text :=
  (t.dropWhile isSpace).rdropWhile isSpace

def isCrLf (c : Char) : Bool :=
  c == cr || c == lf

/-- `text.rstrip("\r\n")`. -/
def rstripCrLf (t : Text) : Text :=
  t.rdropWhile isCrLf

/-- `text.lstrip("\r")`. -/
def lstripCr (t : Text) : Text :=
  t.dropWhile (· == cr)

/-- `text.removeprefix("\n")`. -/
def removeLf : Text → Text
  | c :: t => if c = lf then t else c :: t
  | [] => []

/-- `text.replace("\n", ending)`. -/
def replaceLf (t ending : Text) : Text :=
  t.flatMap fun c => if c = lf then ending else [c]

/-- `text.split("\n", 1)[1] if "\n" in text else ""`. -/
def afterLf (t : Text) : Text :=
  (t.dropWhile (· != lf)).tail

/-- Whether `c` continues onto the line that starts with the next character: a
character that is no break, or the CR of a CR LF. -/
def joins (c : Char) (next : Text) : Bool :=
  !isLineBreak c || (c == cr && next.head? == some lf)

/-- `text.splitlines(keepends=True)`. -/
def splitLines : Text → List Text
  | [] => []
  | c :: t =>
    match splitLines t with
    | [] => [[c]]
    | line :: lines => if joins c line then (c :: line) :: lines else [c] :: line :: lines

/-- The text is empty or its last character is a line break. -/
def EndsLine (t : Text) : Prop :=
  ∀ c, t.getLast? = some c → isLineBreak c = true

section Trim

variable {α : Type} (p : α → Bool)

/-- What was cut at both ends has nothing left to cut there. -/
theorem trim_idempotent (l : List α) :
    ((((l.dropWhile p).rdropWhile p).dropWhile p).rdropWhile p) =
      (l.dropWhile p).rdropWhile p := by
  generalize htrim : (l.dropWhile p).rdropWhile p = trimmed
  have hfront : trimmed.dropWhile p = trimmed := by
    rw [List.dropWhile_eq_self_iff]
    intro hlen
    obtain ⟨rest, hcut⟩ := List.rdropWhile_prefix p (l.dropWhile p)
    rw [htrim] at hcut
    have hdropped : l.dropWhile p ≠ [] := by
      intro hnil
      rw [hnil, List.append_eq_nil_iff] at hcut
      exact List.ne_nil_of_length_pos hlen hcut.1
    have hhead : trimmed[0] = (l.dropWhile p).head hdropped := by
      rw [List.head_eq_getElem]
      simp only [← hcut]
      rw [List.getElem_append_left hlen]
    rw [hhead, List.head_dropWhile_not p hdropped]
    exact Bool.false_ne_true
  rw [hfront, ← htrim, List.rdropWhile_idempotent]

/-- A text that neither starts nor ends in a cut character is kept. -/
theorem trim_eq_self {l : List α} (hhead : ∀ c ∈ l.head?, p c = false)
    (hlast : ∀ c ∈ l.getLast?, p c = false) : (l.dropWhile p).rdropWhile p = l := by
  have hfront : l.dropWhile p = l := by
    cases l with
    | nil => rfl
    | cons c l => rw [List.dropWhile_cons_of_neg (by rw [hhead c rfl]; exact Bool.false_ne_true)]
  rw [hfront, List.rdropWhile_eq_self_iff]
  intro hne
  rw [hlast _ (List.getLast?_eq_some_getLast hne)]
  exact Bool.false_ne_true

end Trim

section Lines

theorem lineBreak_lf : isLineBreak lf = true := by decide

theorem lineBreak_cr : isLineBreak cr = true := by decide

@[simp] theorem splitLines_nil : splitLines [] = [] := rfl

theorem splitLines_cons (c : Char) (t : Text) :
    splitLines (c :: t) =
      match splitLines t with
      | [] => [[c]]
      | line :: lines => if joins c line then (c :: line) :: lines else [c] :: line :: lines := by
  rw [splitLines]

theorem splitLines_eq_nil {t : Text} : splitLines t = [] ↔ t = [] := by
  cases t with
  | nil => simp
  | cons c t =>
    rw [splitLines_cons]
    cases splitLines t with
    | nil => simp
    | cons line lines => by_cases h : joins c line <;> simp [h]

/-- The lines of a text, joined, are the text. -/
@[simp] theorem flatten_splitLines (t : Text) : (splitLines t).flatten = t := by
  induction t with
  | nil => rfl
  | cons c t ih =>
    rw [splitLines_cons]
    cases hs : splitLines t with
    | nil =>
      have ht : t = [] := splitLines_eq_nil.1 hs
      simp [ht]
    | cons line lines =>
      rw [hs] at ih
      simp only [List.flatten_cons] at ih
      by_cases h : joins c line <;> simp [h, ← ih]

theorem head_of_splitLines {t : Text} {line : Text} {lines : List Text}
    (h : splitLines t = line :: lines) : line.head? = t.head? := by
  cases t with
  | nil => simp at h
  | cons c t =>
    rw [splitLines_cons] at h
    cases hs : splitLines t with
    | nil => rw [hs] at h; simp at h; simp [← h.1]
    | cons line' lines' =>
      rw [hs] at h
      by_cases hj : joins c line'
      · simp only [hj, ite_true, List.cons.injEq] at h; simp [← h.1]
      · simp only [hj, Bool.false_eq_true, ite_false, List.cons.injEq] at h; simp [← h.1]

theorem line_ne_nil {t line : Text} (h : line ∈ splitLines t) : line ≠ [] := by
  induction t generalizing line with
  | nil => simp at h
  | cons c t ih =>
    rw [splitLines_cons] at h
    cases hs : splitLines t with
    | nil => rw [hs] at h; simp at h; simp [h]
    | cons line' lines' =>
      rw [hs] at h ih
      by_cases hj : joins c line'
      · simp only [hj, ite_true, List.mem_cons] at h
        rcases h with rfl | h
        · simp
        · exact ih (List.mem_cons_of_mem _ h)
      · simp only [hj, Bool.false_eq_true, ite_false, List.mem_cons] at h
        rcases h with rfl | h
        · simp
        · exact ih (List.mem_cons.2 h)

/-- Cutting after a line break commutes with splitting, unless the cut falls
between the two characters of a CR LF. -/
theorem splitLines_append {a b : Text} (ha : EndsLine a)
    (hcut : ¬(a.getLast? = some cr ∧ b.head? = some lf)) :
    splitLines (a ++ b) = splitLines a ++ splitLines b := by
  induction a with
  | nil => rfl
  | cons c a ih =>
    cases a with
    | nil =>
      rw [List.singleton_append, splitLines_cons]
      cases hs : splitLines b with
      | nil => simp [splitLines]
      | cons line lines =>
        have hc : isLineBreak c = true := ha c rfl
        have hj : joins c line = false := by
          have hhead := head_of_splitLines hs
          by_cases hcr : c = cr
          · have hb : b.head? ≠ some lf := fun hb => hcut ⟨by simp [hcr], hb⟩
            simp [joins, hc, hhead, hb]
          · simp [joins, hc, hcr]
        simp [hj, splitLines]
    | cons c' a =>
      have hlast : (c :: c' :: a).getLast? = (c' :: a).getLast? := by simp
      have ih := ih (fun d hd => ha d (hlast ▸ hd)) (hlast ▸ hcut)
      rw [List.cons_append, splitLines_cons c (c' :: a ++ b), ih, splitLines_cons c (c' :: a)]
      cases hs : splitLines (c' :: a) with
      | nil => exact absurd (splitLines_eq_nil.1 hs) (by simp)
      | cons line lines => by_cases hj : joins c line <;> simp [hj]

/-- A cut inside a CR LF moves the LF onto the last line before it. -/
theorem splitLines_append_crlf {a b : Text} (ha : a.getLast? = some cr)
    (hb : b.head? = some lf) :
    ∃ before line after, splitLines a = before ++ [line] ∧
      splitLines b = [lf] :: after ∧
      splitLines (a ++ b) = before ++ (line ++ [lf]) :: after := by
  obtain ⟨b, rfl⟩ : ∃ b', b = lf :: b' := by
    cases b with
    | nil => simp at hb
    | cons d b => exact ⟨b, by simpa using hb⟩
  have hsb : splitLines (lf :: b) = [lf] :: splitLines b := by
    have := splitLines_append (a := [lf]) (b := b) (by rintro c ⟨⟩; exact lineBreak_lf)
      (by rintro ⟨h, -⟩; exact absurd h (by decide))
    simpa [splitLines] using this
  induction a with
  | nil => simp at ha
  | cons c a ih =>
    cases a with
    | nil =>
      obtain rfl : c = cr := by simpa using ha
      refine ⟨[], [cr], splitLines b, rfl, hsb, ?_⟩
      rw [List.singleton_append, splitLines_cons, hsb]
      rfl
    | cons c' a =>
      obtain ⟨before, line, after, h1, h2, h3⟩ := ih (by simpa using ha)
      rw [List.cons_append, splitLines_cons c (c' :: a ++ lf :: b), h3, splitLines_cons c (c' :: a), h1]
      cases before with
      | nil =>
        by_cases hj : joins c line
        · have hj' : joins c (line ++ [lf]) = true := by
            have hne : line ≠ [] := line_ne_nil (by rw [h1]; simp)
            obtain ⟨d, line, rfl⟩ := List.exists_cons_of_ne_nil hne
            exact hj
          exact ⟨[], c :: line, after, by simp [hj], h2, by simp [hj']⟩
        · have hj' : joins c (line ++ [lf]) = false := by
            have hne : line ≠ [] := line_ne_nil (by rw [h1]; simp)
            obtain ⟨d, line, rfl⟩ := List.exists_cons_of_ne_nil hne
            exact Bool.eq_false_iff.2 hj
          exact ⟨[[c]], line, after, by simp [hj], h2, by simp [hj']⟩
      | cons first before =>
        by_cases hj : joins c first
        · exact ⟨(c :: first) :: before, line, after, by simp [hj], h2, by simp [hj]⟩
        · exact ⟨[c] :: first :: before, line, after, by simp [hj], h2, by simp [hj]⟩

/-- A property of lines that a final LF does not change holds of every line of
two joined texts when it holds of every line of each, the first ending a line. -/
theorem forall_splitLines_append {p : Text → Prop} (hp : ∀ line, p line → p (line ++ [lf]))
    {a b : Text} (hends : EndsLine a) (ha : ∀ line ∈ splitLines a, p line)
    (hb : ∀ line ∈ splitLines b, p line) : ∀ line ∈ splitLines (a ++ b), p line := by
  by_cases hcut : a.getLast? = some cr ∧ b.head? = some lf
  · obtain ⟨before, line, after, h1, h2, h3⟩ := splitLines_append_crlf hcut.1 hcut.2
    rw [h1] at ha
    rw [h2] at hb
    rw [h3]
    intro l hl
    rcases List.mem_append.1 hl with hl | hl
    · exact ha l (List.mem_append_left _ hl)
    · rcases List.mem_cons.1 hl with rfl | hl
      · exact hp _ (ha line (by simp))
      · exact hb l (List.mem_cons_of_mem _ hl)
  · rw [splitLines_append hends hcut]
    intro l hl
    rcases List.mem_append.1 hl with hl | hl
    · exact ha l hl
    · exact hb l hl

theorem endsLine_append {a b : Text} (ha : EndsLine a) (hb : EndsLine b) : EndsLine (a ++ b) := by
  intro c hc
  rw [List.getLast?_append] at hc
  cases hl : b.getLast? with
  | none => rw [hl] at hc; exact ha c (by simpa using hc)
  | some d => rw [hl] at hc; exact hb c (hl.trans (by simpa using hc))

/-- Wherever the lines of a text are cut in two, both halves are the lines of
their own text, and the first half ends its line if anything follows. -/
theorem splitLines_cut {t : Text} {before after : List Text} (h : splitLines t = before ++ after) :
    splitLines before.flatten = before ∧ splitLines after.flatten = after ∧
      (after ≠ [] → EndsLine before.flatten) := by
  induction t generalizing before with
  | nil =>
    obtain ⟨rfl, rfl⟩ : before = [] ∧ after = [] := by simpa using h.symm
    simp
  | cons c t ih =>
    cases before with
    | nil =>
      rw [List.nil_append] at h
      refine ⟨rfl, ?_, fun _ d hd => by simp at hd⟩
      rw [← h, flatten_splitLines]
    | cons first before =>
      rw [splitLines_cons] at h
      cases hs : splitLines t with
      | nil =>
        rw [hs] at h
        obtain ⟨rfl, rfl, rfl⟩ : first = [c] ∧ before = [] ∧ after = [] := by
          simpa [eq_comm] using h
        simp [splitLines]
      | cons line lines =>
        rw [hs] at h
        by_cases hj : joins c line
        · simp only [hj, ite_true, List.cons_append, List.cons.injEq] at h
          obtain ⟨rfl, rfl⟩ := h
          obtain ⟨h1, h2, h3⟩ := @ih (line :: before) hs
          refine ⟨?_, h2, fun hne d hd => ?_⟩
          · rw [List.flatten_cons, List.cons_append, splitLines_cons, ← List.flatten_cons, h1]
            simp [hj]
          · have hline : line ≠ [] := line_ne_nil (by rw [hs]; simp)
            obtain ⟨e, line, rfl⟩ := List.exists_cons_of_ne_nil hline
            exact h3 hne d (by simpa using hd)
        · simp only [hj, Bool.false_eq_true, ite_false, List.cons_append, List.cons.injEq] at h
          obtain ⟨rfl, h⟩ := h
          obtain ⟨h1, h2, h3⟩ := ih (hs.trans h)
          have hc : isLineBreak c = true := by
            simp only [joins, Bool.or_eq_true, not_or] at hj
            simpa using hj.1
          refine ⟨?_, h2, fun hne => ?_⟩
          · rw [List.flatten_cons, List.singleton_append, splitLines_cons, h1]
            cases before with
            | nil => rfl
            | cons l ls =>
              obtain ⟨rfl, -⟩ : line = l ∧ _ := by simpa using h
              simp [hj]
          · rw [List.flatten_cons]
            exact endsLine_append (by rintro d ⟨⟩; exact hc) (h3 hne)

/-- The cut behind the first line. -/
theorem splitLines_cut_head {t line : Text} {after : List Text}
    (h : splitLines t = line :: after) :
    splitLines line = [line] ∧ splitLines after.flatten = after ∧ (after ≠ [] → EndsLine line) := by
  have hcut : splitLines t = [line] ++ after := h
  obtain ⟨hline, hafter, hends⟩ := splitLines_cut hcut
  rw [List.flatten_singleton] at hline hends
  exact ⟨hline, hafter, hends⟩

end Lines

end Text

end Coppermind.Lib
