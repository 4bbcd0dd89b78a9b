import Coppermind.Lib.Text

/-!
# Splitting a note into its frontmatter block and its body

`split` is the one reader of the delimiters.  `findClosingDelimiter` compares
whole lines, whatever ends them, but `split` then ends the closing line at the
next line feed, so the two disagree about a closing line that ends in a bare
carriage return.

`bodyOf` is the reading the splitter is measured against: each delimiter line
ends at its own ending, and the body is everything after the closing one.
`split_closed` says what `split` reports of a text with a closed block.
-/

namespace Coppermind.Frontmatter

open Coppermind.Lib Coppermind.Lib.Text

def delimiter : Text := ['-', '-', '-']

/-- `FrontmatterError`: the parser's category and, when it knows one, a position. -/
structure FrontmatterError where
  message : String
  category : String
  line : Option Nat := none
  column : Option Nat := none
  deriving DecidableEq

def neverClosed : FrontmatterError :=
  { message := "frontmatter block is never closed", category := "unterminated_block" }

/-- `line.rstrip("\r\n") == DELIMITER`. -/
def isDelimiterLine (line : Text) : Bool :=
  line.rstripCrLf == delimiter

/-- The loop of `_find_closing_delimiter`, `offset` characters into the text. -/
def closingFrom : Nat → List Text → Option Nat
  | _, [] => none
  | offset, line :: lines =>
    if isDelimiterLine line then some offset else closingFrom (offset + line.length) lines

def findClosingDelimiter (text : Text) : Option Nat :=
  closingFrom 0 (splitLines text)

/-- What follows the delimiter a text starts with, when a line ending does. -/
def opening? : Text → Option Text
  | '-' :: '-' :: '-' :: c :: rest => if isCrLf c then some (c :: rest) else none
  | _ => none

/-- What `_split` reports; no `openingLength` stands for its negative length. -/
structure Split where
  block : Text
  body : Text
  openingLength : Option Nat
  deriving DecidableEq

def split (text : Text) : Except FrontmatterError Split :=
  match opening? text with
  | none => .ok ⟨[], text, none⟩
  | some rest =>
    let rest := rest.lstripCr.removeLf
    let openingLength := text.length - rest.length
    match findClosingDelimiter rest with
    | none => .error neverClosed
    | some fin => .ok ⟨rest.take fin, afterLf (rest.drop fin), some openingLength⟩

/-- An opening delimiter line: the delimiter and a line ending. -/
def isOpeningLine (line : Text) : Bool :=
  isDelimiterLine line && line != delimiter

/-- The body of a text, each delimiter line ended by its own line ending: the
whole text when it opens no block, none when the block is never closed. -/
def bodyOf (text : Text) : Option Text :=
  match splitLines text with
  | [] => some []
  | first :: lines =>
    if isOpeningLine first then
      match lines.dropWhile (!isDelimiterLine ·) with
      | [] => none
      | _ :: after => some after.flatten
    else some text

/-- The text opens a frontmatter block. -/
def opensBlock (text : Text) : Bool :=
  (opening? text).isSome

/-- No line of the text is a delimiter line. -/
def NoDelimiter (text : Text) : Prop :=
  ∀ line ∈ splitLines text, isDelimiterLine line = false

section Delimiters

theorem isDelimiterLine_append_lf (line : Text) :
    isDelimiterLine (line ++ [lf]) = isDelimiterLine line := by
  unfold isDelimiterLine rstripCrLf
  rw [List.rdropWhile_concat_pos _ _ _ (by decide)]

theorem rstripCrLf_eq_nil {t : Text} (h : ∀ c ∈ t, isCrLf c = true) : t.rstripCrLf = [] :=
  List.rdropWhile_eq_nil_iff.2 h

theorem isDelimiterLine_of_crLf {t : Text} (h : ∀ c ∈ t, isCrLf c = true) :
    isDelimiterLine t = false := by
  rw [isDelimiterLine, rstripCrLf_eq_nil h]
  rfl

theorem noDelimiter_append {a b : Text} (hends : EndsLine a) (ha : NoDelimiter a)
    (hb : NoDelimiter b) : NoDelimiter (a ++ b) :=
  forall_splitLines_append (p := fun line => isDelimiterLine line = false)
    (fun line h => by rw [isDelimiterLine_append_lf]; exact h) hends ha hb

theorem rstripCrLf_append {t ending : Text} (h : ∀ c ∈ ending, isCrLf c = true) :
    (t ++ ending).rstripCrLf = t.rstripCrLf := by
  unfold rstripCrLf
  induction ending using List.reverseRecOn with
  | nil => rw [List.append_nil]
  | append_singleton ending c ih =>
    rw [← List.append_assoc, List.rdropWhile_concat_pos _ _ _ (h c (by simp))]
    exact ih fun d hd => h d (List.mem_append_left _ hd)

/-- A delimiter line is the delimiter and characters of a line ending. -/
theorem isDelimiterLine_iff {line : Text} :
    isDelimiterLine line = true ↔
      ∃ ending, line = delimiter ++ ending ∧ ∀ c ∈ ending, isCrLf c = true := by
  unfold isDelimiterLine
  rw [beq_iff_eq]
  constructor
  · intro h
    refine ⟨line.rtakeWhile isCrLf, ?_, fun c hc => List.mem_rtakeWhile_imp hc⟩
    rw [← h, rstripCrLf, List.rdropWhile_append_rtakeWhile]
  · rintro ⟨ending, rfl, hending⟩
    rw [rstripCrLf_append hending]
    decide

/-- One line of line-ending characters is one line ending, or nothing. -/
theorem lineEnding_cases {ending : Text} (hending : ∀ c ∈ ending, isCrLf c = true)
    (hone : (splitLines ending).length ≤ 1) :
    ending = [] ∨ ending = [lf] ∨ ending = [cr] ∨ ending = [cr, lf] := by
  have cases_of (c : Char) (h : isCrLf c = true) : c = cr ∨ c = lf := by
    simpa [isCrLf] using h
  match ending, hending, hone with
  | [], _, _ => exact .inl rfl
  | [c], h, _ =>
    rcases cases_of c (h c (by simp)) with rfl | rfl
    · exact .inr (.inr (.inl rfl))
    · exact .inr (.inl rfl)
  | c :: d :: t, h, hone =>
    have hlf : ∀ t : Text, splitLines (lf :: t) = [lf] :: splitLines t := fun t => by
      simpa [splitLines] using splitLines_append (a := [lf]) (b := t)
        (by rintro c ⟨⟩; exact lineBreak_lf) (by rintro ⟨h, -⟩; exact absurd h (by decide))
    rcases cases_of c (h c (by simp)) with rfl | rfl
    · rcases cases_of d (h d (by simp)) with rfl | rfl
      · -- a second CR starts a second line
        have := splitLines_append (a := [cr]) (b := cr :: t)
          (by rintro c ⟨⟩; exact lineBreak_cr) (by rintro ⟨-, h⟩; simp [cr, lf] at h)
        have hne : splitLines (cr :: t) ≠ [] := fun h => by simpa using splitLines_eq_nil.1 h
        rw [List.singleton_append] at this
        rw [this, List.length_append] at hone
        have hpos : 0 < (splitLines (cr :: t)).length := List.length_pos_iff.2 hne
        have : (splitLines [cr]).length = 1 := rfl
        omega
      · rw [splitLines_cons, hlf] at hone
        have ht : splitLines t = [] := by
          have : joins cr [lf] = true := by decide
          simpa [this] using hone
        rw [splitLines_eq_nil.1 ht]
        exact .inr (.inr (.inr rfl))
    · rw [hlf] at hone
      have : splitLines (d :: t) = [] := by simpa using hone
      simpa using splitLines_eq_nil.1 this

/-- Splitting starts at the line ending when the text before it breaks no line. -/
theorem splitLines_delimiter_append {t line : Text} {lines : List Text}
    (h : splitLines t = line :: lines) :
    splitLines (delimiter ++ t) = (delimiter ++ line) :: lines := by
  have hj : ∀ line : Text, joins '-' line = true := fun line => by
    have : isLineBreak '-' = false := by decide
    simp [joins, this]
  simp only [delimiter, List.cons_append, List.nil_append]
  rw [splitLines_cons, splitLines_cons, splitLines_cons, h]
  simp [hj]

/-- A line of a text is a single line of its own. -/
theorem splitLines_line {t line : Text} (h : line ∈ splitLines t) : splitLines line = [line] := by
  obtain ⟨before, after, h⟩ := List.append_of_mem h
  obtain ⟨-, h2, -⟩ := splitLines_cut h
  exact (splitLines_cut_head h2).1

/-- The four delimiter lines. -/
theorem delimiterLine_cases {t line : Text} (hmem : line ∈ splitLines t)
    (hline : isDelimiterLine line = true) :
    line = delimiter ∨ line = delimiter ++ [lf] ∨ line = delimiter ++ [cr] ∨
      line = delimiter ++ [cr, lf] := by
  obtain ⟨ending, rfl, hending⟩ := isDelimiterLine_iff.1 hline
  cases hs : splitLines ending with
  | nil => left; rw [splitLines_eq_nil.1 hs, List.append_nil]
  | cons l ls =>
    have hone : ls = [] := by
      have := splitLines_line hmem
      rw [splitLines_delimiter_append hs] at this
      simpa using (List.cons.inj this).2
    have := lineEnding_cases hending (by rw [hs, hone]; simp)
    rcases this with rfl | rfl | rfl | rfl <;> simp

end Delimiters

section Closing

theorem closingFrom_eq_some {offset fin : Nat} {lines : List Text} :
    closingFrom offset lines = some fin ↔
      ∃ before line after, lines = before ++ line :: after ∧ isDelimiterLine line = true ∧
        (∀ l ∈ before, isDelimiterLine l = false) ∧ fin = offset + before.flatten.length := by
  induction lines generalizing offset with
  | nil => simp [closingFrom]
  | cons first lines ih =>
    rw [closingFrom]
    by_cases hfirst : isDelimiterLine first = true
    · rw [if_pos hfirst]
      constructor
      · rintro ⟨⟩
        exact ⟨[], first, lines, rfl, hfirst, by simp, by simp⟩
      · rintro ⟨before, line, after, h, hline, hbefore, rfl⟩
        cases before with
        | nil => simp
        | cons b before =>
          obtain ⟨rfl, -⟩ := List.cons.inj h
          rw [hbefore first (by simp)] at hfirst
          cases hfirst
    · rw [if_neg hfirst, ih]
      constructor
      · rintro ⟨before, line, after, rfl, hline, hbefore, rfl⟩
        refine ⟨first :: before, line, after, rfl, hline, ?_, by simp; omega⟩
        intro l hl
        rcases List.mem_cons.1 hl with rfl | hl
        · exact Bool.eq_false_iff.2 hfirst
        · exact hbefore l hl
      · rintro ⟨before, line, after, h, hline, hbefore, rfl⟩
        cases before with
        | nil =>
          obtain ⟨rfl, -⟩ := List.cons.inj h
          exact absurd hline hfirst
        | cons b before =>
          obtain ⟨rfl, rfl⟩ := List.cons.inj h
          exact ⟨before, line, after, rfl, hline, fun l hl => hbefore l (by simp [hl]),
            by simp; omega⟩

theorem closingFrom_eq_none {offset : Nat} {lines : List Text} :
    closingFrom offset lines = none ↔ ∀ l ∈ lines, isDelimiterLine l = false := by
  induction lines generalizing offset with
  | nil => simp [closingFrom]
  | cons first lines ih =>
    rw [closingFrom]
    by_cases hfirst : isDelimiterLine first = true
    · simp [hfirst]
    · simp [hfirst, ih]

/-- Past lines that close nothing, the first closing line is the next one. -/
theorem findClosingDelimiter_append {block closing body : Text} (hends : EndsLine block)
    (hblock : NoDelimiter block) (hclosing : isDelimiterLine closing = true)
    (hcut : splitLines (closing ++ body) = closing :: splitLines body) :
    findClosingDelimiter (block ++ (closing ++ body)) = some block.length := by
  refine closingFrom_eq_some.2 ⟨splitLines block, closing, splitLines body, ?_, hclosing, hblock, ?_⟩
  · rw [splitLines_append hends, hcut]
    rintro ⟨-, h⟩
    obtain ⟨ending, rfl, -⟩ := isDelimiterLine_iff.1 hclosing
    exact absurd h (by simp [delimiter, lf])
  · simp

end Closing

section Scan

/-- The text starts with a delimiter line. -/
def startsDelimiter (t : Text) : Bool :=
  match t with
  | '-' :: '-' :: '-' :: rest => rest.head?.all isCrLf
  | _ => false

/-- Character by character: no delimiter line starts after a line break, nor at
the front when `start` says a line starts there. -/
def scanClean : Bool → Text → Bool
  | _, [] => true
  | start, c :: t => !(start && startsDelimiter (c :: t)) && scanClean (isLineBreak c) t

theorem startsDelimiter_cons_of_ne {c : Char} (hc : c ≠ '-') (t : Text) :
    startsDelimiter (c :: t) = false := by
  unfold startsDelimiter
  split
  · next h => exact absurd (List.cons.inj h).1 hc
  · rfl

theorem isDelimiterLine_cons_of_ne {c : Char} (hc : c ≠ '-') (t : Text) :
    isDelimiterLine (c :: t) = false := by
  refine Bool.eq_false_iff.2 fun h => ?_
  obtain ⟨ending, h, -⟩ := isDelimiterLine_iff.1 h
  exact hc (List.cons.inj h).1

/-- A line-ending character at the front makes the first line all line ending. -/
theorem first_line_crLf {c : Char} {t line : Text} {lines : List Text} (hc : isCrLf c = true)
    (h : splitLines (c :: t) = line :: lines) : ∀ d ∈ line, isCrLf d = true := by
  have hbreak : isLineBreak c = true := by
    have : c = cr ∨ c = lf := by simpa [isCrLf] using hc
    rcases this with rfl | rfl
    · exact lineBreak_cr
    · exact lineBreak_lf
  rw [splitLines_cons] at h
  cases hs : splitLines t with
  | nil =>
    rw [hs] at h
    obtain ⟨rfl, -⟩ := List.cons.inj h
    simpa using hc
  | cons next rest =>
    rw [hs] at h
    by_cases hj : joins c next = true
    · -- only a CR joins the next line, and then only one that starts with LF
      simp only [joins, hbreak, Bool.not_true, Bool.false_or, Bool.and_eq_true, beq_iff_eq] at hj
      obtain ⟨t, rfl⟩ : ∃ t', t = lf :: t' := by
        have hhead := head_of_splitLines hs
        rw [hj.2] at hhead
        cases t with
        | nil => simp at hhead
        | cons d t => exact ⟨t, by simpa using hhead.symm⟩
      have hlf : splitLines (lf :: t) = [lf] :: splitLines t := by
        simpa [splitLines] using splitLines_append (a := [lf]) (b := t)
          (by rintro c ⟨⟩; exact lineBreak_lf) (by rintro ⟨h, -⟩; exact absurd h (by decide))
      obtain ⟨rfl, -⟩ := List.cons.inj (hlf.symm.trans hs)
      have hj' : joins c [lf] = true := by simp [joins, hj.1]
      simp only [hj', ite_true, List.cons.injEq] at h
      intro d hd
      rw [← h.1] at hd
      rcases List.mem_cons.1 hd with rfl | hd
      · exact hc
      · obtain rfl := List.mem_singleton.1 hd
        decide
    · simp only [hj, Bool.false_eq_true, ite_false, List.cons.injEq] at h
      rw [← h.1]
      simpa using hc

/-- A text starts with a delimiter line when its first line is one. -/
theorem isDelimiterLine_first {t line : Text} {lines : List Text}
    (h : splitLines t = line :: lines) : isDelimiterLine line = startsDelimiter t := by
  have hmem : line ∈ splitLines t := by rw [h]; simp
  have ht : t = line ++ lines.flatten := by rw [← flatten_splitLines t, h]; simp
  rw [Bool.eq_iff_iff]
  constructor
  · intro hline
    obtain ⟨ending, rfl, hending⟩ := isDelimiterLine_iff.1 hline
    cases ending with
    | cons c ending =>
      rw [ht]
      simp [startsDelimiter, delimiter, hending c (by simp)]
    | nil =>
      -- a line with no ending is the last one
      have hnil : lines = [] := by
        by_contra hne
        have hends := (splitLines_cut_head h).2.2 hne
        have := hends '-' (by simp [delimiter])
        exact absurd this (by decide)
      rw [ht, hnil]
      rfl
  · intro hstart
    unfold startsDelimiter at hstart
    split at hstart
    · next rest =>
      have hsplit : ∀ l ls, splitLines rest = l :: ls → line = delimiter ++ l := fun l ls hs => by
        have := splitLines_delimiter_append hs
        exact (List.cons.inj (h.symm.trans this)).1
      cases hs : splitLines rest with
      | nil =>
        obtain rfl := splitLines_eq_nil.1 hs
        have : line = delimiter := (List.cons.inj (h.symm.trans (by decide :
          splitLines ['-', '-', '-'] = [delimiter]))).1
        rw [this]
        decide
      | cons l ls =>
        rw [hsplit l ls hs, isDelimiterLine_iff]
        refine ⟨l, rfl, ?_⟩
        cases rest with
        | nil => simp at hs
        | cons c rest => exact first_line_crLf (by simpa using hstart) hs
    · cases hstart

/-- The scan reads the lines: from the start of a line all of them, else all but
the one it is inside of. -/
theorem scanClean_iff {start : Bool} {t : Text} :
    scanClean start t = true ↔
      ∀ line ∈ (if start then splitLines t else (splitLines t).tail),
        isDelimiterLine line = false := by
  induction t generalizing start with
  | nil => cases start <;> simp [scanClean]
  | cons c t ih =>
    have hfirst : ∀ line lines, splitLines (c :: t) = line :: lines →
        (scanClean start (c :: t) = true ↔
          (start = true → isDelimiterLine line = false) ∧ scanClean (isLineBreak c) t = true) := by
      intro line lines h
      rw [scanClean, isDelimiterLine_first h]
      cases start <;> simp
    rw [splitLines_cons] at hfirst ⊢
    cases hs : splitLines t with
    | nil =>
      obtain rfl := splitLines_eq_nil.1 hs
      rw [hs] at hfirst
      rw [hfirst [c] [] rfl]
      cases start <;> simp [scanClean]
    | cons line lines =>
      rw [hs] at hfirst ih
      by_cases hj : joins c line = true
      · simp only [hj, ite_true] at hfirst ⊢
        rw [hfirst (c :: line) lines rfl, ih]
        by_cases hc : isLineBreak c = true
        · -- a CR LF: the joined line was no delimiter line either
          have hlf : line.head? = some lf := by
            simp only [joins, hc, Bool.not_true, Bool.false_or, Bool.and_eq_true, beq_iff_eq] at hj
            exact hj.2
          have hline : isDelimiterLine line = false := by
            obtain ⟨d, l, rfl⟩ : ∃ d l, line = d :: l := by
              cases line with
              | nil => simp at hlf
              | cons d l => exact ⟨d, l, rfl⟩
            obtain rfl : d = lf := by simpa using hlf
            exact isDelimiterLine_cons_of_ne (by decide) l
          cases start <;> simp [hc, hline]
        · cases start <;> simp [hc]
      · have hc : isLineBreak c = true := by
          simp only [joins, Bool.or_eq_true, not_or] at hj
          simpa using hj.1
        simp only [hj, Bool.false_eq_true, ite_false] at hfirst ⊢
        rw [hfirst [c] (line :: lines) rfl, ih]
        cases start <;> simp [hc]

theorem noDelimiter_iff_scanClean {t : Text} : NoDelimiter t ↔ scanClean true t = true := by
  rw [scanClean_iff]
  simp [NoDelimiter]

theorem startsDelimiter_replaceLf (t : Text) :
    startsDelimiter (replaceLf t [cr, lf]) = startsDelimiter t := by
  have hcons : ∀ (c : Char) (t : Text), c ≠ lf →
      replaceLf (c :: t) [cr, lf] = c :: replaceLf t [cr, lf] := fun c t hc => by
    simp [replaceLf, hc]
  have hlf : ∀ t : Text, replaceLf (lf :: t) [cr, lf] = cr :: lf :: replaceLf t [cr, lf] :=
    fun t => by simp [replaceLf]
  -- the first character that is no dash decides both sides alike
  have hstop : ∀ (c : Char) (t : Text), c ≠ '-' → ∀ k : Text → Text,
      (∀ d u, d ≠ '-' → startsDelimiter (k (d :: u)) = false) →
      startsDelimiter (k (replaceLf (c :: t) [cr, lf])) = startsDelimiter (k (c :: t)) := by
    intro c t hc k hk
    by_cases h : c = lf
    · rw [h, hlf, hk cr _ (by decide), hk lf _ (by decide)]
    · rw [hcons c t h, hk c _ hc, hk c _ hc]
  have hk1 : ∀ d u, d ≠ '-' → startsDelimiter ('-' :: d :: u) = false := by
    intro d u hd
    unfold startsDelimiter
    split
    · next h => simp at h; exact absurd h.1 hd
    · rfl
  have hk2 : ∀ d u, d ≠ '-' → startsDelimiter ('-' :: '-' :: d :: u) = false := by
    intro d u hd
    unfold startsDelimiter
    split
    · next h => simp at h; exact absurd h.1 hd
    · rfl
  match t with
  | [] => rfl
  | c :: t =>
    by_cases hc : c = '-'
    · subst hc
      rw [hcons _ _ (by decide)]
      match t with
      | [] => rfl
      | c :: t =>
        by_cases hc : c = '-'
        · subst hc
          rw [hcons _ _ (by decide)]
          match t with
          | [] => rfl
          | c :: t =>
            by_cases hc : c = '-'
            · subst hc
              rw [hcons _ _ (by decide)]
              match t with
              | [] => rfl
              | c :: t =>
                by_cases h : c = lf
                · subst h
                  rw [hlf]
                  rfl
                · rw [hcons c t h]
                  rfl
            · exact hstop c t hc ('-' :: '-' :: ·) hk2
        · exact hstop c t hc ('-' :: ·) hk1
    · exact hstop c t hc id fun d u hd => startsDelimiter_cons_of_ne hd u

/-- Writing a text's line feeds as CR LF makes no delimiter line. -/
theorem noDelimiter_replaceLf {t : Text} (h : NoDelimiter t) : NoDelimiter (replaceLf t [cr, lf]) := by
  have key : ∀ start, scanClean start (replaceLf t [cr, lf]) = scanClean start t := by
    clear h
    induction t with
    | nil => intro; rfl
    | cons c t ih =>
      intro start
      by_cases hc : c = lf
      · have : replaceLf (c :: t) [cr, lf] = cr :: lf :: replaceLf t [cr, lf] := by
          simp [replaceLf, hc]
        rw [this, hc, scanClean, scanClean, scanClean, ih,
          startsDelimiter_cons_of_ne (by decide), startsDelimiter_cons_of_ne (by decide),
          startsDelimiter_cons_of_ne (by decide), lineBreak_lf]
        simp
      · have hr : replaceLf (c :: t) [cr, lf] = c :: replaceLf t [cr, lf] := by
          simp [replaceLf, hc]
        rw [scanClean, ← startsDelimiter_replaceLf (c :: t), hr, scanClean, ih]
  rw [noDelimiter_iff_scanClean, key]
  exact noDelimiter_iff_scanClean.1 h

end Scan

section Opening

theorem opening?_eq_some {text rest : Text} :
    opening? text = some rest ↔
      text = delimiter ++ rest ∧ ∃ c t, rest = c :: t ∧ isCrLf c = true := by
  constructor
  · intro h
    unfold opening? at h
    split at h
    · next c t =>
      split at h
      · next hc =>
        obtain rfl := Option.some.inj h
        exact ⟨rfl, c, t, rfl, hc⟩
      · cases h
    · cases h
  · rintro ⟨rfl, c, t, rfl, hc⟩
    simp [opening?, delimiter, hc]

/-- What `_split` strips off the opening line: all its carriage returns and one
line feed, a run of line-ending characters that a following LF does not extend. -/
theorem exists_ending {text rest : Text} (h : opening? text = some rest) :
    ∃ ending, text = (delimiter ++ ending) ++ rest.lstripCr.removeLf ∧ ending ≠ [] ∧
      (∀ c ∈ ending, isCrLf c = true) ∧
      ¬(ending.getLast? = some cr ∧ (removeLf (lstripCr rest)).head? = some lf) := by
  obtain ⟨rfl, c, t, hrest, hc⟩ := opening?_eq_some.1 h
  have hjoin : rest.takeWhile (· == cr) ++ rest.lstripCr = rest := List.takeWhile_append_dropWhile
  have hcrs : ∀ d ∈ rest.takeWhile (· == cr), isCrLf d = true := fun d hd => by
    have : d = cr := by simpa using List.mem_takeWhile_imp hd
    simp [isCrLf, this]
  cases hd : rest.lstripCr with
  | nil =>
    rw [hd, List.append_nil] at hjoin
    refine ⟨rest.takeWhile (· == cr), by rw [hjoin]; simp [removeLf], ?_, hcrs, by simp [removeLf]⟩
    rw [hjoin, hrest]
    simp
  | cons e d =>
    have he : e ≠ cr := by
      have := List.head?_dropWhile_not (· == cr) rest
      rw [show rest.dropWhile (· == cr) = e :: d from hd] at this
      simpa using this
    rw [hd] at hjoin
    by_cases hlf : e = lf
    · subst hlf
      refine ⟨rest.takeWhile (· == cr) ++ [lf], ?_, by simp, ?_, ?_⟩
      · simp [removeLf, hjoin]
      · intro c hc
        rcases List.mem_append.1 hc with hc | hc
        · exact hcrs c hc
        · obtain rfl := List.mem_singleton.1 hc
          decide
      · rintro ⟨h, -⟩
        rw [List.getLast?_append] at h
        simp [cr, lf] at h
    · refine ⟨rest.takeWhile (· == cr), by simp [removeLf, hlf, hjoin], ?_, hcrs, ?_⟩
      · intro hnil
        rw [hnil, hrest, List.nil_append] at hjoin
        obtain ⟨rfl, -⟩ := List.cons.inj hjoin
        have : e = cr ∨ e = lf := by simpa [isCrLf] using hc
        exact this.elim he hlf
      · rintro ⟨-, h⟩
        simp [removeLf, hlf] at h

theorem endsLine_of_crLf {ending : Text} (hne : ending ≠ []) (h : ∀ c ∈ ending, isCrLf c = true)
    (t : Text) : EndsLine (t ++ ending) := by
  intro c hc
  rw [List.getLast?_append_of_ne_nil _ hne] at hc
  have : c = cr ∨ c = lf := by simpa [isCrLf] using h c (List.mem_of_getLast? hc)
  rcases this with rfl | rfl
  · exact lineBreak_cr
  · exact lineBreak_lf

/-- The lines of an opened text: the opening line, blank lines of line-ending
characters, then the lines `_find_closing_delimiter` reads. -/
theorem splitLines_opened {text rest : Text} (h : opening? text = some rest) :
    ∃ first blanks, splitLines text = first :: (blanks ++ splitLines rest.lstripCr.removeLf) ∧
      isOpeningLine first = true ∧ ∀ line ∈ blanks, isDelimiterLine line = false := by
  obtain ⟨ending, htext, hne, hcrlf, hcut⟩ := exists_ending h
  obtain ⟨first, blanks, hs⟩ : ∃ first blanks, splitLines ending = first :: blanks := by
    cases hs : splitLines ending with
    | nil => exact absurd (splitLines_eq_nil.1 hs) hne
    | cons first blanks => exact ⟨first, blanks, rfl⟩
  have hmem : ∀ line ∈ splitLines ending, ∀ c ∈ line, isCrLf c = true := fun line hline c hc =>
    hcrlf c (by rw [← flatten_splitLines ending]; exact List.mem_flatten.2 ⟨line, hline, hc⟩)
  refine ⟨delimiter ++ first, blanks, ?_, ?_, fun line hline => ?_⟩
  · rw [htext, splitLines_append (endsLine_of_crLf hne hcrlf delimiter) ?_,
      splitLines_delimiter_append hs]
    · rfl
    · rintro ⟨h1, h2⟩
      exact hcut ⟨by rwa [List.getLast?_append_of_ne_nil _ hne] at h1, h2⟩
  · have hfirst : first ≠ [] := line_ne_nil (by rw [hs]; simp)
    have hdel : isDelimiterLine (delimiter ++ first) = true :=
      isDelimiterLine_iff.2 ⟨first, rfl, hmem first (by rw [hs]; simp)⟩
    simp [isOpeningLine, hdel, hfirst]
  · exact isDelimiterLine_of_crLf (hmem line (by rw [hs]; simp [hline]))

theorem bodyOf_opened {text rest : Text} (h : opening? text = some rest) :
    bodyOf text =
      match (splitLines rest.lstripCr.removeLf).dropWhile (!isDelimiterLine ·) with
      | [] => none
      | _ :: after => some after.flatten := by
  obtain ⟨first, blanks, hs, hfirst, hblanks⟩ := splitLines_opened h
  rw [bodyOf, hs]
  simp only [hfirst, ite_true]
  rw [List.dropWhile_append_of_pos fun line hline => by simp [hblanks line hline]]

theorem bodyOf_unopened {text : Text} (h : opensBlock text = false) : bodyOf text = some text := by
  unfold bodyOf
  cases hs : splitLines text with
  | nil => simp [splitLines_eq_nil.1 hs]
  | cons first lines =>
    by_cases hfirst : isOpeningLine first = true
    · simp only [isOpeningLine, Bool.and_eq_true, bne_iff_ne] at hfirst
      obtain ⟨ending, rfl, hending⟩ := isDelimiterLine_iff.1 hfirst.1
      cases ending with
      | nil => exact absurd (List.append_nil _) hfirst.2
      | cons c ending =>
        have htext : text = delimiter ++ (c :: ending ++ lines.flatten) := by
          rw [← flatten_splitLines text, hs]
          simp
        have : opening? text = some (c :: ending ++ lines.flatten) :=
          opening?_eq_some.2 ⟨htext, c, _, rfl, hending c (by simp)⟩
        simp [opensBlock, this] at h
    · simp [hfirst]

end Opening

/-- A text with a closed block, cut at its delimiter lines: `closing` is the
closing line with its own ending and `body` everything after it. -/
structure ClosedAt (text opening block closing body : Text) : Prop where
  text_eq : text = opening ++ (block ++ (closing ++ body))
  opened : ∃ ending, opening = delimiter ++ ending ∧ ending ≠ [] ∧ ∀ c ∈ ending, isCrLf c = true
  block_ends : EndsLine block
  block_clean : NoDelimiter block
  closing_line : isDelimiterLine closing = true
  closing_cut : splitLines (closing ++ body) = closing :: splitLines body
  lines : ∃ first blanks, splitLines text =
    first :: (blanks ++ (splitLines block ++ closing :: splitLines body)) ∧
      ∀ line ∈ blanks, isDelimiterLine line = false
  split_eq : split text = .ok ⟨block, afterLf (closing ++ body), some opening.length⟩

/-- A text that opens a block and has a body closes the block there, and `split`
finds the same closing line. -/
theorem exists_closedAt {text body : Text} (hopen : opensBlock text = true)
    (hbody : bodyOf text = some body) :
    ∃ opening block closing, ClosedAt text opening block closing body := by
  obtain ⟨rest, hrest⟩ := Option.isSome_iff_exists.1 hopen
  rw [bodyOf_opened hrest] at hbody
  cases hd : (splitLines rest.lstripCr.removeLf).dropWhile (!isDelimiterLine ·) with
  | nil => rw [hd] at hbody; cases hbody
  | cons closing after =>
    rw [hd] at hbody
    obtain rfl := Option.some.inj hbody
    obtain ⟨ending, htext, hne, hcrlf, -⟩ := exists_ending hrest
    obtain ⟨first, blanks, hs, -, hblanks⟩ := splitLines_opened hrest
    let before := (splitLines rest.lstripCr.removeLf).takeWhile (!isDelimiterLine ·)
    have hlines : splitLines rest.lstripCr.removeLf = before ++ closing :: after := by
      rw [← hd]
      exact List.takeWhile_append_dropWhile.symm
    have hclosing : isDelimiterLine closing = true := by
      have := List.head?_dropWhile_not (!isDelimiterLine ·) (splitLines rest.lstripCr.removeLf)
      rw [hd] at this
      simpa using this
    have hbefore : ∀ line ∈ before, isDelimiterLine line = false := fun line hline => by
      simpa using List.mem_takeWhile_imp hline
    obtain ⟨hb, ha, hends⟩ := splitLines_cut hlines
    have hafter : splitLines after.flatten = after :=
      (splitLines_cut_head ha).2.1
    have hjoin : removeLf (lstripCr rest) = before.flatten ++ (closing ++ after.flatten) := by
      rw [← flatten_splitLines (removeLf (lstripCr rest)), hlines]
      simp
    have hfind : findClosingDelimiter (removeLf (lstripCr rest)) = some before.flatten.length :=
      closingFrom_eq_some.2 ⟨before, closing, after, hlines, hclosing, hbefore, by simp⟩
    refine ⟨delimiter ++ ending, before.flatten, closing, ?_⟩
    exact {
      text_eq := by rw [htext, hjoin]
      opened := ⟨ending, rfl, hne, hcrlf⟩
      block_ends := hends (by simp)
      block_clean := fun line hline => hbefore line (hb ▸ hline)
      closing_line := hclosing
      closing_cut := by rw [hafter, ← List.flatten_cons]; exact ha
      lines := ⟨first, blanks, by rw [hs, hlines, hb, hafter], hblanks⟩
      split_eq := by
        have hlen : text.length - (removeLf (lstripCr rest)).length =
            (delimiter ++ ending).length := by
          rw [htext, @List.length_append _ (delimiter ++ ending)]
          omega
        rw [split, hrest]
        simp only [hfind, hlen]
        rw [hjoin, List.take_left, List.drop_left] }

/-- Putting clean lines between an opening line and a closing one gives a text
whose body is what follows the closing line. -/
theorem bodyOf_joined {ending block closing body : Text} (hending : ending ∈ [[lf], [cr, lf]])
    (hends : EndsLine block) (hclean : NoDelimiter block) (hclosing : isDelimiterLine closing = true)
    (hcut : splitLines (closing ++ body) = closing :: splitLines body) :
    bodyOf (delimiter ++ ending ++ (block ++ (closing ++ body))) = some body := by
  have hopening : splitLines (delimiter ++ ending) = [delimiter ++ ending] ∧
      isOpeningLine (delimiter ++ ending) = true ∧ EndsLine (delimiter ++ ending) ∧
      (delimiter ++ ending).getLast? ≠ some cr := by
    rcases List.mem_cons.1 hending with rfl | hending
    · exact ⟨by decide, by decide, by rintro c ⟨⟩; exact lineBreak_lf, by decide⟩
    · obtain rfl := List.mem_singleton.1 hending
      exact ⟨by decide, by decide, by rintro c ⟨⟩; exact lineBreak_lf, by decide⟩
  obtain ⟨h1, h2, h3, h4⟩ := hopening
  have hlines : splitLines (block ++ (closing ++ body)) =
      splitLines block ++ closing :: splitLines body := by
    rw [splitLines_append hends, hcut]
    rintro ⟨-, h⟩
    obtain ⟨_, rfl, -⟩ := isDelimiterLine_iff.1 hclosing
    exact absurd h (by simp [delimiter, lf])
  rw [bodyOf, splitLines_append h3 (fun h => h4 h.1), h1, hlines, List.singleton_append]
  simp only [h2, ite_true]
  rw [List.dropWhile_append_of_pos fun line hline => by simp [hclean line hline],
    List.dropWhile_cons_of_neg (by simp [hclosing])]
  simp

end Coppermind.Frontmatter
