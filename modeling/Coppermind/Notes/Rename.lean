import Coppermind.Frontmatter.BodyBytes
import Coppermind.Notes.Row

/-!
# The bytes of a renamed note

`_renamed_bytes` gives the first heading of the body a new title, or puts a heading in front, and
leaves the frontmatter as it is. It cuts the body into lines at every separator of `str.splitlines`
but restores only LF and CR LF behind the heading, and it puts a heading right behind whatever ends
the frontmatter.
-/

namespace Coppermind.Notes

open Coppermind.Lib Coppermind.Lib.Text Coppermind.Frontmatter

/-- `value.split()`. -/
def words (t : Text) : List Text := (t.splitOnP isSpace).filter (· ≠ [])

/-- `RenameNote.normalize_title` and the bound of its field: none where the title is refused. -/
def normalizeTitle (value : Text) : Option Text :=
  if value.any fun c => c = cr || c = lf || c.toNat = 0 then none
  else
    let title := [' '].intercalate (words value)
    if title = [] then none else some title

def isHeading (line : Text) : Bool := ['#', ' '].isPrefixOf line

/-- `# {title}`. -/
def headingOf (title : Text) : Text := '#' :: ' ' :: title

/-- The line ending that the new heading keeps. -/
def keptEnding (line : Text) : Text :=
  if [cr, lf].isSuffixOf line then [cr, lf] else if [lf].isSuffixOf line then [lf] else []

/-- The lines with the first heading replaced; none where there is no heading. -/
def retitled (title : Text) : List Text → Option (List Text)
  | [] => none
  | line :: rest =>
    if isHeading line then some ((headingOf title ++ keptEnding line) :: rest)
    else (retitled title rest).map (line :: ·)

/-- `new_body`. -/
def renamedBody (title body : Text) : Text :=
  match retitled title (splitLines body) with
  | some lines => lines.flatten
  | none => ((headingOf title ++ [lf, lf]) :: splitLines body).flatten

/-- `_renamed_bytes`. -/
def renamedBytes (current : FileBytes) (title : Text) : Except Raised (FileBytes × Text) :=
  match current with
  | .other _ => .error (.python "UnicodeDecodeError")
  | .utf8 text => do
    let s ← (split text).mapError .frontmatter
    let front := text.take (text.length - s.body.length)
    let newBody := renamedBody title s.body
    return (.utf8 (front ++ newBody), newBody)

/-- What ends a line. -/
def separatorOf (line : Text) : Text :=
  if [cr, lf].isSuffixOf line then [cr, lf]
  else
    match line.getLast? with
    | some c => if isLineBreak c then [c] else []
    | none => []

/-- `new` is `old` with another text in its first heading, or with a heading and a blank line in
front where it has none. -/
def Retitles (title old new : Text) : Prop :=
  (∃ before line after, splitLines old = before ++ line :: after ∧ isHeading line = true ∧
      (∀ l ∈ before, isHeading l = false) ∧
      new = before.flatten ++ (headingOf title ++ separatorOf line) ++ after.flatten) ∨
    (∀ l ∈ splitLines old, isHeading l = false) ∧ new = headingOf title ++ [lf, lf] ++ old

/-- The renamed bytes are read as the same frontmatter block, a body with the title in its heading
and nothing else changed, and the title. -/
def KeepsNote (text title : Text) (s : Split) : Prop :=
  ∃ renamed newBody s', renamedBytes (.utf8 text) title = .ok (.utf8 renamed, newBody) ∧
    split renamed = .ok s' ∧ s'.block = s.block ∧ Retitles title s.body s'.body ∧
    ∀ fileName, titleOf s'.body fileName = PyStr.ofText title

/-- The heading ends in nothing, LF or CR LF; or, where there is none, something stands between the
closing delimiter and the end of the text, or a line feed ends it. -/
def Renamable (text : Text) (s : Split) : Prop :=
  match (splitLines s.body).find? isHeading with
  | some line => separatorOf line ∈ [[], [lf], [cr, lf]]
  | none => s.body ≠ [] ∨ s.openingLength = none ∨ text.getLast? = some lf

instance (text : Text) (s : Split) : Decidable (Renamable text s) := by
  unfold Renamable
  split <;> infer_instance

section Titles

theorem isSpace_of_lineBreak {c : Char} (h : isLineBreak c = true) : isSpace c = true := by
  unfold isLineBreak at h
  unfold isSpace
  simp only [List.mem_cons, List.not_mem_nil, or_false, decide_eq_true_eq] at h ⊢
  omega

theorem mem_splitOnP {p : Char → Bool} {t word : Text} (h : word ∈ t.splitOnP p) :
    ∀ c ∈ word, c ∈ t ∧ p c = false := by
  induction t generalizing word with
  | nil =>
    rw [List.splitOnP_nil, List.mem_singleton] at h
    subst h
    intro c hc
    cases hc
  | cons x t ih =>
    rw [List.splitOnP_cons_eq_if_modifyHead] at h
    intro c hc
    by_cases hx : p x = true
    · rw [if_pos hx] at h
      obtain rfl | h := List.mem_cons.1 h
      · cases hc
      · exact ⟨List.mem_cons_of_mem _ (ih h c hc).1, (ih h c hc).2⟩
    · rw [if_neg hx] at h
      cases hsplit : t.splitOnP p with
      | nil => exact absurd hsplit (List.splitOnP_ne_nil p t)
      | cons first rest =>
        rw [hsplit] at h ih
        obtain rfl | h := List.mem_cons.1 h
        · obtain rfl | hc := List.mem_cons.1 hc
          · exact ⟨List.mem_cons_self, Bool.eq_false_iff.2 hx⟩
          · obtain ⟨hmem, hp⟩ := ih List.mem_cons_self c hc
            exact ⟨List.mem_cons_of_mem _ hmem, hp⟩
        · obtain ⟨hmem, hp⟩ := ih (List.mem_cons_of_mem _ h) c hc
          exact ⟨List.mem_cons_of_mem _ hmem, hp⟩

/-- A word is not empty and has no white space. -/
theorem mem_words {t word : Text} (h : word ∈ words t) :
    word ≠ [] ∧ ∀ c ∈ word, c ∈ t ∧ isSpace c = false := by
  obtain ⟨hmem, hne⟩ := List.mem_filter.1 h
  exact ⟨by simpa using hne, mem_splitOnP hmem⟩

/-- The characters of words joined by blanks. -/
theorem mem_joinWords {ws : List Text} {c : Char} (h : c ∈ [' '].intercalate ws) :
    c = ' ' ∨ ∃ word ∈ ws, c ∈ word := by
  induction ws with
  | nil => cases h
  | cons word ws ih =>
    cases ws with
    | nil =>
      rw [List.intercalate_singleton] at h
      exact Or.inr ⟨word, List.mem_cons_self, h⟩
    | cons next ws =>
      rw [List.intercalate_cons_cons, List.append_assoc, List.mem_append, List.mem_append,
        List.mem_singleton] at h
      obtain h | h | h := h
      · exact Or.inr ⟨word, List.mem_cons_self, h⟩
      · exact Or.inl h
      · obtain h | ⟨w, hw, hc⟩ := ih h
        · exact Or.inl h
        · exact Or.inr ⟨w, List.mem_cons_of_mem _ hw, hc⟩

/-- Words joined by blanks start and end with a character of a word. -/
theorem ends_joinWords {ws : List Text} (hne : ws ≠ []) (hws : ∀ word ∈ ws, word ≠ []) :
    (∃ word ∈ ws, ∃ c ∈ word, ([' '].intercalate ws).head? = some c) ∧
      ∃ word ∈ ws, ∃ c ∈ word, ([' '].intercalate ws).getLast? = some c := by
  induction ws with
  | nil => exact absurd rfl hne
  | cons word ws ih =>
    obtain ⟨first, tail, hword⟩ := List.exists_cons_of_ne_nil (hws word List.mem_cons_self)
    cases ws with
    | nil =>
      rw [List.intercalate_singleton]
      refine ⟨⟨word, List.mem_cons_self, first, ?_, ?_⟩, word, List.mem_cons_self, ?_⟩
      · rw [hword]
        exact List.mem_cons_self
      · rw [hword]
        rfl
      · have hlast := List.getLast?_eq_some_getLast (hws word List.mem_cons_self)
        exact ⟨_, List.mem_of_getLast? hlast, hlast⟩
    | cons next ws =>
      obtain ⟨-, w, hw, c, hc, hlast⟩ := ih (List.cons_ne_nil _ _)
        fun w hw => hws w (List.mem_cons_of_mem _ hw)
      rw [List.intercalate_cons_cons]
      refine ⟨⟨word, List.mem_cons_self, first, ?_, ?_⟩, w, List.mem_cons_of_mem _ hw, c, hc, ?_⟩
      · rw [hword]
        exact List.mem_cons_self
      · rw [hword]
        rfl
      · rw [List.getLast?_append, hlast]
        rfl

/-- What a title that is accepted is: not empty, on one line, without NUL, and without white space
around it. -/
structure IsTitle (title : Text) : Prop where
  ne_nil : title ≠ []
  bare : ∀ c ∈ title, isLineBreak c = false
  noNul : ∀ c ∈ title, c.toNat ≠ 0
  stripped : strip title = title

theorem isTitle_of_normalizeTitle {value title : Text} (h : normalizeTitle value = some title) :
    IsTitle title := by
  unfold normalizeTitle at h
  simp only at h
  split at h
  · cases h
  · next hchars =>
    split at h
    · cases h
    · next hne =>
      obtain rfl := Option.some.inj h
      have hchar : ∀ c ∈ [' '].intercalate (words value), isLineBreak c = false ∧ c.toNat ≠ 0 := by
        intro c hc
        obtain rfl | ⟨word, hword, hc⟩ := mem_joinWords hc
        · decide
        · obtain ⟨hmem, hspace⟩ := (mem_words hword).2 c hc
          refine ⟨?_, ?_⟩
          · by_contra hbreak
            rw [isSpace_of_lineBreak (Bool.of_not_eq_false hbreak)] at hspace
            cases hspace
          · intro hnul
            apply hchars
            rw [List.any_eq_true]
            exact ⟨c, hmem, by simp [hnul]⟩
      have hwords : words value ≠ [] := by
        intro hnil
        rw [hnil] at hne
        exact hne rfl
      obtain ⟨⟨u, hu, c, hc, hhead⟩, w, hw, d, hd, hlast⟩ :=
        ends_joinWords hwords fun word hword => (mem_words hword).1
      have hc := ((mem_words hu).2 c hc).2
      have hd := ((mem_words hw).2 d hd).2
      refine ⟨hne, fun c hc => (hchar c hc).1, fun c hc => (hchar c hc).2, ?_⟩
      generalize [' '].intercalate (words value) = title at hne hhead hlast
      unfold strip
      have hfront : title.dropWhile isSpace = title := by
        obtain ⟨tail, rfl⟩ : ∃ tail, title = c :: tail := List.head?_eq_some_iff.1 hhead
        rw [List.dropWhile_cons_of_neg]
        rw [hc]
        exact Bool.false_ne_true
      rw [hfront, List.rdropWhile_eq_self_iff]
      intro hnil
      rw [List.getLast?_eq_some_getLast hnil] at hlast
      rw [Option.some.inj hlast, hd]
      exact Bool.false_ne_true

end Titles

section Lines

variable {title : Text}

theorem retitled_eq_none {lines : List Text} :
    retitled title lines = none ↔ ∀ l ∈ lines, isHeading l = false := by
  induction lines with
  | nil => simp [retitled]
  | cons line lines ih =>
    rw [retitled]
    by_cases h : isHeading line = true
    · simp [h]
    · simp [h, ih]

/-- The first heading is the one that is replaced. -/
theorem retitled_eq_some {lines lines' : List Text} (h : retitled title lines = some lines') :
    ∃ before line after, lines = before ++ line :: after ∧ isHeading line = true ∧
      (∀ l ∈ before, isHeading l = false) ∧
      lines' = before ++ (headingOf title ++ keptEnding line) :: after := by
  induction lines generalizing lines' with
  | nil => cases h
  | cons line lines ih =>
    rw [retitled] at h
    by_cases hline : isHeading line = true
    · rw [if_pos hline] at h
      obtain rfl := Option.some.inj h
      exact ⟨[], line, lines, rfl, hline, by simp, rfl⟩
    · rw [if_neg hline] at h
      obtain ⟨rest, hrest, rfl⟩ := Option.map_eq_some_iff.1 h
      obtain ⟨before, l, after, rfl, hl, hbefore, rfl⟩ := ih hrest
      refine ⟨line :: before, l, after, rfl, hl, ?_, rfl⟩
      intro k hk
      obtain rfl | hk := List.mem_cons.1 hk
      · exact Bool.eq_false_iff.2 hline
      · exact hbefore k hk

/-- A text without breaks is one line with what ends it. -/
theorem splitLines_bare {t ending : Text} (hne : t ≠ []) (hbare : ∀ c ∈ t, isLineBreak c = false)
    (hending : ending ∈ [[], [lf], [cr, lf]]) : splitLines (t ++ ending) = [t ++ ending] := by
  induction t with
  | nil => exact absurd rfl hne
  | cons c t ih =>
    have hc : ∀ line : Text, joins c line = true := by
      intro line
      unfold joins
      rw [hbare c List.mem_cons_self]
      rfl
    have hrest : splitLines (t ++ ending) = if t ++ ending = [] then [] else [t ++ ending] := by
      by_cases ht : t = []
      · subst ht
        simp only [List.mem_cons, List.not_mem_nil, or_false] at hending
        obtain rfl | rfl | rfl := hending <;> decide
      · rw [ih ht fun d hd => hbare d (List.mem_cons_of_mem _ hd), if_neg]
        simp [ht]
    rw [List.cons_append, splitLines_cons, hrest]
    split
    · next h =>
      split at h
      · next hnil => rw [hnil]
      · cases h
    · next line lines h =>
      split at h
      · cases h
      · cases h
        rw [if_pos (hc _)]

/-- What stands before the ending of a line. -/
def bareLine (line : Text) : Text :=
  if [cr, lf].isSuffixOf line then line.dropLast.dropLast
  else if line.getLast?.any isLineBreak then line.dropLast
  else line

theorem bareLine_begins (line : Text) : bareLine line <+: line := by
  unfold bareLine
  split
  · exact (List.dropLast_prefix _).trans (List.dropLast_prefix _)
  · split
    · exact List.dropLast_prefix _
    · exact List.prefix_refl _

theorem isHeading_bareLine {line : Text} (h : isHeading line = false) :
    isHeading (bareLine line) = false := by
  by_contra hheading
  have hpre : ['#', ' '] <+: bareLine line :=
    List.isPrefixOf_iff_prefix.1 (Bool.of_not_eq_false hheading)
  have hline : isHeading line = true :=
    List.isPrefixOf_iff_prefix.2 (hpre.trans (bareLine_begins line))
  rw [h] at hline
  cases hline

theorem headingOf_bare (htitle : IsTitle title) : ∀ c ∈ headingOf title, isLineBreak c = false := by
  intro c hc
  obtain rfl | hc := List.mem_cons.1 hc
  · decide
  · obtain rfl | hc := List.mem_cons.1 hc
    · decide
    · exact htitle.bare c hc

theorem bareLine_append {t ending : Text} (hbare : ∀ c ∈ t, isLineBreak c = false)
    (hending : ending ∈ [[], [lf], [cr, lf]]) : bareLine (t ++ ending) = t := by
  have hsuffix : ∀ u : Text, (∀ c ∈ u, isLineBreak c = false) → [cr, lf].isSuffixOf u = false := by
    intro u hu
    by_contra h
    have hmem : lf ∈ u :=
      (List.isSuffixOf_iff_suffix.1 (Bool.of_not_eq_false h)).subset (by simp)
    have := hu lf hmem
    rw [lineBreak_lf] at this
    cases this
  simp only [List.mem_cons, List.not_mem_nil, or_false] at hending
  unfold bareLine
  obtain rfl | rfl | rfl := hending
  · rw [List.append_nil, hsuffix t hbare, if_neg Bool.false_ne_true, if_neg]
    cases hlast : t.getLast? with
    | none => exact Bool.false_ne_true
    | some c =>
      rw [Option.any_some, hbare c (List.mem_of_getLast? hlast)]
      exact Bool.false_ne_true
  · have hno : [cr, lf].isSuffixOf (t ++ [lf]) = false := by
      by_contra h
      have hs : [cr] ++ [lf] <:+ t ++ [lf] :=
        List.isSuffixOf_iff_suffix.1 (Bool.of_not_eq_false h)
      obtain ⟨u, hu⟩ := hs
      rw [← List.append_assoc] at hu
      have hcr := (List.append_inj' hu rfl).1
      have hmem : cr ∈ t := by
        rw [← hcr]
        simp
      have := hbare cr hmem
      rw [lineBreak_cr] at this
      cases this
    rw [hno, if_neg Bool.false_ne_true, List.getLast?_append]
    simp only [List.getLast?_singleton, Option.some_or, Option.any_some, lineBreak_lf, if_true,
      List.dropLast_concat]
  · have hyes : [cr, lf].isSuffixOf (t ++ [cr, lf]) = true :=
      List.isSuffixOf_iff_suffix.2 (List.suffix_append _ _)
    rw [if_pos hyes]
    have : t ++ [cr, lf] = t ++ [cr] ++ [lf] := by simp
    rw [this, List.dropLast_concat, List.dropLast_concat]

/-- A text with the title in its first heading has the title. -/
theorem titleOf_heading (htitle : IsTitle title) {front ending rest : Text} (hfront : EndsLine front)
    (hnone : ∀ l ∈ splitLines front, isHeading l = false)
    (hending : ending ∈ [[], [lf], [cr, lf]]) (hrest : ending = [] → rest = [])
    (fileName : PyStr) :
    titleOf (front ++ (headingOf title ++ ending) ++ rest) fileName = PyStr.ofText title := by
  have hheading := splitLines_bare (t := headingOf title) (List.cons_ne_nil _ _)
    (headingOf_bare htitle) hending
  have hlines : splitLines (front ++ (headingOf title ++ ending) ++ rest) =
      splitLines front ++ (headingOf title ++ ending) :: splitLines rest := by
    rw [List.append_assoc, splitLines_append hfront]
    · congr 1
      by_cases hnil : ending = []
      · rw [hrest hnil, List.append_nil, hheading]
        rfl
      · rw [splitLines_append, hheading]
        · rfl
        · intro c hc
          simp only [List.mem_cons, List.not_mem_nil, or_false] at hending
          rw [List.getLast?_append_of_ne_nil _ hnil] at hc
          obtain rfl | rfl | rfl := hending
          · exact absurd rfl hnil
          · obtain rfl := Option.some.inj hc
            exact lineBreak_lf
          · obtain rfl := Option.some.inj hc
            exact lineBreak_lf
        · rintro ⟨hcr, -⟩
          simp only [List.mem_cons, List.not_mem_nil, or_false] at hending
          rw [List.getLast?_append_of_ne_nil _ hnil] at hcr
          obtain rfl | rfl | rfl := hending
          · exact hnil rfl
          · exact absurd hcr (by decide)
          · exact absurd hcr (by decide)
    · rintro ⟨-, h⟩
      exact absurd h (by simp [headingOf, lf])
  have hfind : (bareLines (front ++ (headingOf title ++ ending) ++ rest)).find?
      (fun line => ['#', ' '].isPrefixOf line) = some (headingOf title) := by
    change ((splitLines _).map bareLine).find? isHeading = _
    rw [hlines, List.map_append, List.find?_append, List.map_cons,
      bareLine_append (headingOf_bare htitle) hending]
    have hbefore : ((splitLines front).map bareLine).find? isHeading = none := by
      rw [List.find?_eq_none]
      intro l hl
      obtain ⟨line, hline, rfl⟩ := List.mem_map.1 hl
      rw [isHeading_bareLine (hnone line hline)]
      exact Bool.false_ne_true
    rw [hbefore]
    rfl
  unfold titleOf
  rw [hfind]
  simp only [headingOf, List.drop_succ_cons, List.drop_zero, htitle.stripped]
  unfold storable PyStr.dropNul PyStr.ofText
  rw [List.filter_eq_self]
  intro n hn
  obtain ⟨c, hc, rfl⟩ := List.mem_map.1 hn
  simpa using htitle.noNul c hc

end Lines

section Fronts

variable {text : Text} {s : Split}

theorem removeLf_cons (c : Char) (t : Text) :
    removeLf (c :: t) = if c = lf then t else c :: t := rfl

theorem lstripCr_cr (t : Text) : lstripCr (cr :: t) = lstripCr t := by
  simp [lstripCr]

theorem lstripCr_of_ne {c : Char} (hc : c ≠ cr) (t : Text) : lstripCr (c :: t) = c :: t := by
  simp [lstripCr, hc]

/-- The opening line ends at the end of a suffix. -/
theorem cut_suffix (t : Text) : removeLf (lstripCr t) <:+ t := by
  have hremove : ∀ u : Text, removeLf u <:+ u := by
    intro u
    cases u with
    | nil => exact List.suffix_refl _
    | cons c u =>
      rw [removeLf_cons]
      split
      · exact List.suffix_cons _ _
      · exact List.suffix_refl _
  exact (hremove _).trans (List.dropWhile_suffix _)

/-- The opening line is cut off alike in front of whatever starts with the same character. -/
theorem cut_opening {pre z z' : Text} (hne : z ≠ []) (hhead : z'.head? = z.head?)
    (h : removeLf (lstripCr (pre ++ z)) = z) : removeLf (lstripCr (pre ++ z')) = z' := by
  induction pre with
  | nil =>
    obtain ⟨c, t, rfl⟩ := List.exists_cons_of_ne_nil hne
    obtain ⟨t', rfl⟩ : ∃ t', z' = c :: t' := List.head?_eq_some_iff.1 hhead
    rw [List.nil_append] at h ⊢
    by_cases hcr : c = cr
    · subst hcr
      have hle := (cut_suffix t).length_le
      rw [lstripCr_cr] at h
      rw [h, List.length_cons] at hle
      omega
    · rw [lstripCr_of_ne hcr, removeLf_cons] at h ⊢
      by_cases hlf : c = lf
      · rw [if_pos hlf] at h
        have hlength := congrArg List.length h
        rw [List.length_cons] at hlength
        omega
      · rw [if_neg hlf]
  | cons d pre ih =>
    rw [List.cons_append] at h ⊢
    by_cases hd : d = cr
    · subst hd
      rw [lstripCr_cr] at h ⊢
      exact ih h
    · rw [lstripCr_of_ne hd, removeLf_cons] at h ⊢
      have hlength := congrArg List.length h
      by_cases hlf : d = lf
      · rw [if_pos hlf] at hlength ⊢
        rw [List.length_append] at hlength
        have hpre : pre = [] := List.length_eq_zero_iff.1 (by omega)
        rw [hpre]
        rfl
      · rw [if_neg hlf, List.length_cons, List.length_append] at hlength
        omega

/-- What a text with a block looks like where it is split: the opening line, the block, and the
closing line with everything after it. -/
structure Cut (text : Text) (s : Split) (pre line after : Text) : Prop where
  text_eq : text = delimiter ++ (pre ++ (s.block ++ (line ++ after)))
  pre_crLf : ∃ c t, pre ++ (s.block ++ (line ++ after)) = c :: t ∧ isCrLf c = true
  opening : removeLf (lstripCr (pre ++ (s.block ++ (line ++ after)))) = s.block ++ (line ++ after)
  ends : EndsLine s.block
  clean : NoDelimiter s.block
  closing : isDelimiterLine line = true
  lines : splitLines (line ++ after) = line :: splitLines after
  body : s.body = afterLf (line ++ after)
  openingLength : s.openingLength = some (delimiter ++ pre).length

theorem exists_cut (h : split text = .ok s) (hopen : s.openingLength ≠ none) :
    ∃ pre line after, Cut text s pre line after := by
  cases hopening : opening? text with
  | none =>
    rw [split, hopening] at h
    obtain rfl := Except.ok.inj h
    exact absurd rfl hopen
  | some rest =>
    rw [split, hopening] at h
    simp only at h
    obtain ⟨htext, hcrLf⟩ := opening?_eq_some.1 hopening
    obtain ⟨pre, hpre⟩ := cut_suffix rest
    generalize hz : removeLf (lstripCr rest) = z at h hpre
    cases hfind : findClosingDelimiter z with
    | none =>
      rw [hfind] at h
      cases h
    | some fin =>
      rw [hfind] at h
      obtain rfl := Except.ok.inj h
      obtain ⟨before, line, after, hlines, hline, hbefore, rfl⟩ := closingFrom_eq_some.1 hfind
      obtain ⟨hsplit, hafter, hends⟩ := splitLines_cut hlines
      have hjoin : z = before.flatten ++ (line ++ after.flatten) := by
        rw [← flatten_splitLines z, hlines, List.flatten_append, List.flatten_cons]
      have htake : z.take (0 + before.flatten.length) = before.flatten := by
        rw [Nat.zero_add, hjoin, List.take_left]
      have hdrop : z.drop (0 + before.flatten.length) = line ++ after.flatten := by
        rw [Nat.zero_add, hjoin, List.drop_left]
      have hrest : pre ++ (before.flatten ++ (line ++ after.flatten)) = rest := by
        rw [← hjoin, hpre]
      refine ⟨pre, line, after.flatten, ?_⟩
      constructor
      · rw [htake, hrest, htext]
      · rw [htake, hrest]
        exact hcrLf
      · rw [htake, hrest, hz, hjoin]
      · rw [htake]
        exact hends (List.cons_ne_nil _ _)
      · rw [htake]
        intro l hl
        rw [hsplit] at hl
        exact hbefore l hl
      · exact hline
      · rw [← List.flatten_cons, hafter, (splitLines_cut_head hafter).2.1]
      · rw [hdrop]
      · have hlength : text.length - z.length = (delimiter ++ pre).length := by
          rw [htext, ← hpre, List.length_append, List.length_append, List.length_append]
          omega
        rw [hlength]

/-- **Another body**: what follows the closing line may be replaced. -/
theorem Cut.split_replaced {pre line after after' : Text} (h : Cut text s pre line after)
    (hlines : splitLines (line ++ after') = line :: splitLines after') :
    split (delimiter ++ (pre ++ (s.block ++ (line ++ after')))) =
      .ok ⟨s.block, afterLf (line ++ after'), s.openingLength⟩ := by
  obtain ⟨ending, hline, -⟩ := isDelimiterLine_iff.1 h.closing
  have hne : s.block ++ (line ++ after) ≠ [] := by
    rw [hline]
    simp [delimiter]
  have hhead : (s.block ++ (line ++ after')).head? = (s.block ++ (line ++ after)).head? := by
    rw [hline]
    cases s.block <;> simp [delimiter]
  have hcut := cut_opening hne hhead h.opening
  have hopening : opening? (delimiter ++ (pre ++ (s.block ++ (line ++ after')))) =
      some (pre ++ (s.block ++ (line ++ after'))) := by
    obtain ⟨c, t, hcons, hc⟩ := h.pre_crLf
    apply opening?_eq_some.2
    refine ⟨rfl, c, ?_⟩
    have hfirst : (pre ++ (s.block ++ (line ++ after'))).head? = some c := by
      have hfirst : (pre ++ (s.block ++ (line ++ after))).head? = some c := by
        rw [hcons]
        rfl
      rw [List.head?_append] at hfirst ⊢
      rw [hhead]
      exact hfirst
    obtain ⟨t', ht'⟩ := List.head?_eq_some_iff.1 hfirst
    exact ⟨t', ht', hc⟩
  have hfind := findClosingDelimiter_append h.ends h.clean h.closing hlines
  rw [split, hopening]
  simp only [hcut, hfind, List.take_left, List.drop_left, h.openingLength]
  have hlength : (delimiter ++ (pre ++ (s.block ++ (line ++ after')))).length -
      (s.block ++ (line ++ after')).length = (delimiter ++ pre).length := by
    rw [List.length_append, List.length_append, @List.length_append _ delimiter pre]
    omega
  rw [hlength]

theorem afterLf_eq {w t : Text} (hw : lf ∉ w) : afterLf (w ++ lf :: t) = t := by
  unfold afterLf
  rw [List.dropWhile_append_of_pos]
  · simp
  · intro c hc
    have : c ≠ lf := fun heq => hw (heq ▸ hc)
    simpa using this

/-- A text with a line feed is cut at the first one. -/
theorem exists_lf {t : Text} (h : lf ∈ t) : ∃ w, lf ∉ w ∧ t = w ++ lf :: afterLf t := by
  obtain ⟨w, u, rfl, hw⟩ := List.eq_append_cons_of_mem h
  exact ⟨w, hw, by rw [afterLf_eq hw]⟩

theorem cut_unique {w w' x y : Text} (hw : lf ∉ w) (hw' : lf ∉ w')
    (h : w ++ lf :: x = w' ++ lf :: y) : w = w' ∧ x = y := by
  have hrest : x = y := by
    rw [← afterLf_eq (t := x) hw, h, afterLf_eq hw']
  subst hrest
  exact ⟨List.append_cancel_right h, rfl⟩

theorem splitLines_closing {ending : Text} (hending : ending ∈ [[lf], [cr, lf]]) (t : Text) :
    splitLines (delimiter ++ ending ++ t) = (delimiter ++ ending) :: splitLines t := by
  simp only [List.mem_cons, List.not_mem_nil, or_false] at hending
  rw [splitLines_append]
  · obtain rfl | rfl := hending <;> rfl
  · intro c hc
    obtain rfl | rfl := hending <;> (obtain rfl := Option.some.inj hc; exact lineBreak_lf)
  · rintro ⟨h, -⟩
    obtain rfl | rfl := hending <;> exact absurd h (by decide)

theorem afterLf_of_not_mem {t : Text} (h : lf ∉ t) : afterLf t = [] := by
  unfold afterLf
  have hdrop : t.dropWhile (· != lf) = [] := by
    rw [List.dropWhile_eq_nil_iff]
    intro c hc
    have : c ≠ lf := fun heq => h (heq ▸ hc)
    simpa using this
  rw [hdrop]
  rfl

theorem Cut.line_cases {pre line after : Text} (h : Cut text s pre line after) :
    (line = delimiter ∧ after = []) ∨ line = delimiter ++ [lf] ∨
      (line = delimiter ++ [cr] ∧ after.head? ≠ some lf) ∨ line = delimiter ++ [cr, lf] := by
  have hmem : line ∈ splitLines (line ++ after) := by
    rw [h.lines]
    exact List.mem_cons_self
  obtain hc | hc | hc | hc := delimiterLine_cases hmem h.closing
  · left
    refine ⟨hc, ?_⟩
    by_contra hne
    have hnil : splitLines after ≠ [] := fun hnil => hne (splitLines_eq_nil.1 hnil)
    have hends := (splitLines_cut_head h.lines).2.2 hnil '-' (by rw [hc]; rfl)
    exact absurd hends (by decide)
  · exact Or.inr (Or.inl hc)
  · right
    right
    left
    refine ⟨hc, ?_⟩
    intro hhead
    obtain ⟨t, rfl⟩ : ∃ t, after = lf :: t := List.head?_eq_some_iff.1 hhead
    have hlines := h.lines
    rw [hc, List.append_assoc, List.singleton_append,
      splitLines_delimiter_append (splitLines_crlf t)] at hlines
    have := (List.cons.inj hlines).1
    simp at this
  · exact Or.inr (Or.inr (Or.inr hc))

/-- **The front of a text**, up to its body: any body put behind it is read back, if a line feed
ends the front. -/
theorem Cut.split_front {pre line after : Text} (h : Cut text s pre line after)
    (hlf : lf ∈ line ++ after) (b : Text) :
    split (text.take (text.length - s.body.length) ++ b) = .ok ⟨s.block, b, s.openingLength⟩ := by
  obtain ⟨w, hw, htail⟩ := exists_lf hlf
  rw [← h.body] at htail
  have hfront : text.take (text.length - s.body.length) =
      delimiter ++ (pre ++ (s.block ++ (w ++ [lf]))) := by
    have htext : text = delimiter ++ (pre ++ (s.block ++ (w ++ [lf]))) ++ s.body := by
      rw [h.text_eq, htail]
      simp
    conv => lhs; rw [htext]
    rw [List.length_append, Nat.add_sub_cancel, List.take_left]
  obtain ⟨after', hjoin, hlines⟩ : ∃ after', line ++ after' = w ++ lf :: b ∧
      splitLines (line ++ after') = line :: splitLines after' := by
    obtain ⟨hc, hnil⟩ | hc | ⟨hc, hhead⟩ | hc := h.line_cases
    · rw [hc, hnil] at hlf
      exact absurd hlf (by decide)
    · rw [hc, List.append_assoc, List.singleton_append] at htail
      obtain ⟨rfl, -⟩ := cut_unique (by decide) hw htail
      refine ⟨b, ?_, ?_⟩
      · rw [hc, List.append_assoc]
        rfl
      · rw [hc]
        exact splitLines_closing (by simp) b
    · -- the body of a note closed by a bare carriage return starts behind a later line feed
      obtain ⟨w', hw', hafter⟩ : ∃ w', lf ∉ w' ∧ after = w' ++ lf :: afterLf after := by
        apply exists_lf
        obtain hmem | hmem := List.mem_append.1 hlf
        · rw [hc] at hmem
          exact absurd hmem (by decide)
        · exact hmem
      have hfree : lf ∉ delimiter ++ [cr] ++ w' := by
        intro hmem
        obtain hmem | hmem := List.mem_append.1 hmem
        · exact absurd hmem (by decide)
        · exact hw' hmem
      rw [hc, hafter, ← List.append_assoc] at htail
      obtain ⟨rfl, -⟩ := cut_unique hfree hw htail
      refine ⟨w' ++ lf :: b, by simp [hc], ?_⟩
      rw [hc, splitLines_append]
      · rfl
      · intro c hc
        obtain rfl := Option.some.inj hc
        exact lineBreak_cr
      · rintro ⟨-, h'⟩
        cases w' with
        | nil =>
          rw [hafter] at hhead
          exact hhead rfl
        | cons d w' =>
          obtain rfl := Option.some.inj h'
          exact hw' List.mem_cons_self
    · have heq : delimiter ++ [cr, lf] ++ after = delimiter ++ [cr] ++ lf :: after := by simp
      rw [hc, heq] at htail
      obtain ⟨rfl, -⟩ := cut_unique (by decide) hw htail
      refine ⟨b, ?_, ?_⟩
      · rw [hc]
        simp
      · rw [hc]
        exact splitLines_closing (by simp) b
  have hsplit := h.split_replaced hlines
  rw [hjoin, afterLf_eq hw] at hsplit
  rw [hfront, ← hsplit]
  simp

end Fronts

section Renaming

variable {text title : Text} {s : Split}

theorem renamedBytes_eq (h : split text = .ok s) :
    renamedBytes (.utf8 text) title =
      .ok (.utf8 (text.take (text.length - s.body.length) ++ renamedBody title s.body),
        renamedBody title s.body) := by
  unfold renamedBytes
  simp only [h, Except.mapError, bind, Except.bind]
  rfl

/-- A body behind no frontmatter opens none with a new title. -/
theorem opening_renamedBody (h : opening? text = none) : opening? (renamedBody title text) = none := by
  have hhash : ∀ t : Text, opening? ('#' :: t) = none := fun _ => rfl
  unfold renamedBody
  cases hretitled : retitled title (splitLines text) with
  | none => exact hhash _
  | some lines =>
    obtain ⟨before, line, after, hlines, -, -, rfl⟩ := retitled_eq_some hretitled
    have htext : text = before.flatten ++ (line ++ after.flatten) := by
      rw [← flatten_splitLines text, hlines, List.flatten_append, List.flatten_cons]
    simp only [List.flatten_append, List.flatten_cons]
    generalize before.flatten = front at htext
    cases hnew : opening? (front ++ (headingOf title ++ keptEnding line ++ after.flatten)) with
    | none => rfl
    | some rest =>
      obtain ⟨heq, c, t, rfl, hc⟩ := opening?_eq_some.1 hnew
      obtain ⟨a, ha, hb⟩ | ⟨a, ha, hb⟩ := List.append_eq_append_iff.1 heq
      · -- the front is part of the delimiter
        cases a with
        | nil =>
          rw [List.nil_append] at hb
          have hfirst : '#' = c := (List.cons.inj hb).1
          subst hfirst
          exact absurd hc (by decide)
        | cons d a =>
          have hfirst : '#' = d := (List.cons.inj hb).1
          subst hfirst
          have hmem : '#' ∈ delimiter := by
            rw [ha]
            simp
          exact absurd hmem (by decide)
      · cases a with
        | nil =>
          rw [List.nil_append] at hb
          have hfirst : c = '#' := (List.cons.inj hb).1
          subst hfirst
          exact absurd hc (by decide)
        | cons d a =>
          obtain ⟨rfl, -⟩ := List.cons.inj hb
          have hopen : opening? text = some (c :: a ++ (line ++ after.flatten)) := by
            apply opening?_eq_some.2
            refine ⟨?_, c, _, rfl, hc⟩
            rw [htext, ha, List.append_assoc]
          rw [h] at hopen
          cases hopen

/-- **Where a line feed ends the front**, or there is none, the renamed text has the body that was
written. -/
theorem split_renamed (h : split text = .ok s)
    (hfront : s.body ≠ [] ∨ s.openingLength = none ∨ text.getLast? = some lf) :
    split (text.take (text.length - s.body.length) ++ renamedBody title s.body) =
      .ok ⟨s.block, renamedBody title s.body, s.openingLength⟩ := by
  by_cases hopen : s.openingLength = none
  · have hopening : opening? text = none := by
      cases hopening : opening? text with
      | none => rfl
      | some rest =>
        rw [split, hopening] at h
        simp only at h
        split at h
        · cases h
        · obtain rfl := Except.ok.inj h
          cases hopen
    have hsplit : split text = .ok ⟨[], text, none⟩ := by
      rw [split, hopening]
    obtain rfl := Except.ok.inj (hsplit.symm.trans h)
    simp only [Nat.sub_self, List.take_zero, List.nil_append]
    rw [split, opening_renamedBody hopening]
  · obtain ⟨pre, line, after, hcut⟩ := exists_cut h hopen
    apply hcut.split_front
    obtain hbody | hnone | hlast := hfront
    · by_contra hlf
      rw [hcut.body, afterLf_of_not_mem hlf] at hbody
      exact hbody rfl
    · exact absurd hnone hopen
    · rw [hcut.text_eq] at hlast
      have hne : line ++ after ≠ [] := by
        obtain ⟨ending, hline, -⟩ := isDelimiterLine_iff.1 hcut.closing
        rw [hline]
        simp [delimiter]
      rw [← List.append_assoc, ← List.append_assoc, List.getLast?_append_of_ne_nil _ hne] at hlast
      exact List.mem_of_getLast? hlast

/-- The two ways a body gets its title. -/
theorem renamedBody_cases (title body : Text) :
    (∃ before line after, splitLines body = before ++ line :: after ∧ isHeading line = true ∧
      (∀ l ∈ before, isHeading l = false) ∧
      renamedBody title body =
        before.flatten ++ (headingOf title ++ keptEnding line) ++ after.flatten) ∨
    (∀ l ∈ splitLines body, isHeading l = false) ∧
      renamedBody title body = headingOf title ++ [lf, lf] ++ body := by
  unfold renamedBody
  cases hretitled : retitled title (splitLines body) with
  | none =>
    right
    refine ⟨retitled_eq_none.1 hretitled, ?_⟩
    rw [List.flatten_cons, flatten_splitLines]
  | some lines =>
    left
    obtain ⟨before, line, after, hlines, hline, hbefore, rfl⟩ := retitled_eq_some hretitled
    refine ⟨before, line, after, hlines, hline, hbefore, ?_⟩
    simp only [List.flatten_append, List.flatten_cons, List.append_assoc]

theorem find_heading {lines before after : List Text} {line : Text}
    (hlines : lines = before ++ line :: after) (hline : isHeading line = true)
    (hbefore : ∀ l ∈ before, isHeading l = false) : lines.find? isHeading = some line := by
  have hnone : before.find? isHeading = none := by
    rw [List.find?_eq_none]
    intro l hl
    rw [hbefore l hl]
    exact Bool.false_ne_true
  rw [hlines, List.find?_append, hnone, Option.none_or, List.find?_cons_of_pos hline]

theorem find_no_heading {lines : List Text} (h : ∀ l ∈ lines, isHeading l = false) :
    lines.find? isHeading = none := by
  rw [List.find?_eq_none]
  intro l hl
  rw [h l hl]
  exact Bool.false_ne_true

/-- The first heading of a list of lines is in one place. -/
theorem heading_unique {lines before before' after after' : List Text} {line line' : Text}
    (hlines : lines = before ++ line :: after) (hline : isHeading line = true)
    (hbefore : ∀ l ∈ before, isHeading l = false) (hlines' : lines = before' ++ line' :: after')
    (hline' : isHeading line' = true) (hbefore' : ∀ l ∈ before', isHeading l = false) :
    before = before' ∧ line = line' ∧ after = after' := by
  subst hlines
  induction before generalizing before' with
  | nil =>
    cases before' with
    | nil =>
      obtain ⟨rfl, rfl⟩ := List.cons.inj hlines'
      exact ⟨rfl, rfl, rfl⟩
    | cons l before' =>
      obtain ⟨rfl, -⟩ := List.cons.inj hlines'
      rw [hbefore' _ List.mem_cons_self] at hline
      cases hline
  | cons l before ih =>
    cases before' with
    | nil =>
      obtain ⟨rfl, -⟩ := List.cons.inj hlines'
      rw [hbefore _ List.mem_cons_self] at hline'
      cases hline'
    | cons l' before' =>
      obtain ⟨rfl, hrest⟩ := List.cons.inj hlines'
      obtain ⟨rfl, hsame⟩ := ih (fun k hk => hbefore k (List.mem_cons_of_mem _ hk))
        (fun k hk => hbefore' k (List.mem_cons_of_mem _ hk)) hrest
      exact ⟨rfl, hsame⟩

/-- The ending a heading keeps is its own where that is one of the endings a note may have. -/
theorem keptEnding_eq {line : Text} (h : separatorOf line ∈ [[], [lf], [cr, lf]]) :
    keptEnding line = separatorOf line := by
  unfold keptEnding separatorOf at *
  by_cases hcrlf : [cr, lf].isSuffixOf line = true
  · rw [if_pos hcrlf, if_pos hcrlf]
  · rw [if_neg hcrlf] at h ⊢
    rw [if_neg hcrlf]
    have hlast : [lf].isSuffixOf line = true ↔ line.getLast? = some lf := by
      rw [List.isSuffixOf_iff_suffix]
      constructor
      · rintro ⟨t, rfl⟩
        simp
      · intro hlast
        obtain ⟨t, rfl⟩ := List.getLast?_eq_some_iff.1 hlast
        exact List.suffix_append _ _
    cases hc : line.getLast? with
    | none =>
      rw [if_neg]
      rw [hlast, hc]
      simp
    | some c =>
      rw [hc] at h
      by_cases hbreak : isLineBreak c = true
      · simp only [hbreak, if_true] at h ⊢
        have hlf : c = lf := by simpa using h
        rw [hlf] at hc ⊢
        rw [if_pos (hlast.2 hc)]
      · simp only [if_neg hbreak]
        rw [if_neg]
        rw [hlast, hc]
        intro heq
        rw [Option.some.inj heq] at hbreak
        exact hbreak lineBreak_lf

theorem keptEnding_mem (line : Text) : keptEnding line ∈ [[], [lf], [cr, lf]] := by
  unfold keptEnding
  split
  · simp
  · split <;> simp

/-- A line that others follow has what ends it. -/
theorem separatorOf_ne_nil {line : Text} (hne : line ≠ []) (hends : EndsLine line) :
    separatorOf line ≠ [] := by
  unfold separatorOf
  split
  · simp
  · rw [List.getLast?_eq_some_getLast hne]
    simp only
    rw [if_pos (hends _ (List.getLast?_eq_some_getLast hne))]
    simp

/-- A heading right behind the closing delimiter, or behind a bare carriage return, is not read
back. -/
theorem not_keeps_of_unended (htitle : IsTitle title) {pre line after : Text}
    (hcut : Cut text s pre line after) (hlf : lf ∉ line ++ after) {s' : Split}
    (hs' : split (text ++ (headingOf title ++ [lf, lf])) = .ok s') (hblock : s'.block = s.block)
    (hbody : s'.body = headingOf title ++ [lf, lf]) : False := by
  have htext : text ++ (headingOf title ++ [lf, lf]) = delimiter ++ (pre ++ (s.block ++
      (line ++ (after ++ (headingOf title ++ [lf, lf]))))) := by
    conv => lhs; rw [hcut.text_eq]
    simp
  obtain ⟨hline, hafter⟩ | hline | ⟨hline, hhead⟩ | hline := hcut.line_cases
  · -- the closing line is none any more
    rw [hline, hafter] at htext
    have hopen : s'.openingLength ≠ none := by
      intro hnone
      have hopening : (opening? (text ++ (headingOf title ++ [lf, lf]))).isSome = true := by
        obtain ⟨c, t, hcons, hc⟩ := hcut.pre_crLf
        rw [hcut.text_eq, List.append_assoc, hcons]
        simp [delimiter, opening?, hc]
      obtain ⟨rest, hrest⟩ := Option.isSome_iff_exists.1 hopening
      rw [split, hrest] at hs'
      simp only at hs'
      split at hs'
      · cases hs'
      · obtain rfl := Except.ok.inj hs'
        cases hnone
    obtain ⟨pre', line', after', hcut'⟩ := exists_cut hs' hopen
    have hrest : pre' ++ (s'.block ++ (line' ++ after')) =
        pre ++ (s.block ++ (delimiter ++ ([] ++ (headingOf title ++ [lf, lf])))) :=
      List.append_cancel_left (hcut'.text_eq.symm.trans htext)
    have hne : s.block ++ (line ++ after) ≠ [] := by
      rw [hline]
      simp [delimiter]
    have hhead : (s.block ++ (delimiter ++ ([] ++ (headingOf title ++ [lf, lf])))).head? =
        (s.block ++ (line ++ after)).head? := by
      rw [hline]
      cases s.block <;> simp [delimiter]
    have hopening := cut_opening hne hhead hcut.opening
    rw [← hrest, hcut'.opening, hblock] at hopening
    have htail := List.append_cancel_left hopening
    obtain ⟨ending, hline', hending⟩ := isDelimiterLine_iff.1 hcut'.closing
    rw [hline', List.append_assoc] at htail
    have htail := List.append_cancel_left htail
    cases ending with
    | cons c ending =>
      have hfirst : c = '#' := (List.cons.inj htail).1
      subst hfirst
      exact absurd (hending '#' List.mem_cons_self) (by decide)
    | nil =>
      obtain ⟨-, hnil⟩ | h | ⟨h, -⟩ | h := hcut'.line_cases
      · rw [hnil] at htail
        cases htail
      · rw [hline'] at h
        exact absurd h (by decide)
      · rw [hline'] at h
        exact absurd h (by decide)
      · rw [hline'] at h
        exact absurd h (by decide)
  · rw [hline] at hlf
    exact hlf (by simp)
  · -- the body starts behind the first line feed, which is the one behind the heading
    have hlines : splitLines (line ++ (after ++ (headingOf title ++ [lf, lf]))) =
        line :: splitLines (after ++ (headingOf title ++ [lf, lf])) := by
      rw [hline, splitLines_append]
      · rfl
      · intro c hc
        obtain rfl := Option.some.inj hc
        exact lineBreak_cr
      · rintro ⟨-, h⟩
        cases after with
        | nil => exact absurd h (by simp [headingOf, lf])
        | cons d after => exact hhead h
    have hsplit := hcut.split_replaced hlines
    rw [← htext, hs'] at hsplit
    have hbody' : s'.body = [lf] := by
      rw [Except.ok.inj hsplit]
      have hfree : lf ∉ line ++ (after ++ headingOf title) := by
        intro hmem
        rw [← List.append_assoc] at hmem
        obtain hmem | hmem := List.mem_append.1 hmem
        · exact hlf hmem
        · have := headingOf_bare htitle lf hmem
          rw [lineBreak_lf] at this
          cases this
      have hjoin : line ++ (after ++ (headingOf title ++ [lf, lf])) =
          line ++ (after ++ headingOf title) ++ lf :: [lf] := by simp
      simp only [hjoin]
      exact afterLf_eq hfree
    rw [hbody] at hbody'
    have := congrArg List.length hbody'
    simp [headingOf] at this
  · rw [hline] at hlf
    exact hlf (by simp)

theorem keepsNote_iff (htitle : IsTitle title) (h : split text = .ok s) :
    KeepsNote text title s ↔ Renamable text s := by
  constructor
  · rintro ⟨renamed, newBody, s', hrenamed, hs', hblock, hretitles, -⟩
    rw [renamedBytes_eq h] at hrenamed
    obtain ⟨hrenamed, -⟩ := Prod.mk.inj (Except.ok.inj hrenamed)
    obtain rfl := FileBytes.utf8.inj hrenamed
    unfold Renamable
    obtain ⟨before, line, after, hlines, hline, hbefore, hnew⟩ | ⟨hnone, hnew⟩ :=
      renamedBody_cases title s.body
    · rw [find_heading hlines hline hbefore]
      have hbody : s.body ≠ [] := by
        intro hnil
        rw [hnil] at hlines
        cases before <;> cases hlines
      rw [split_renamed h (Or.inl hbody)] at hs'
      obtain rfl := Except.ok.inj hs'
      obtain ⟨before', line', after', hlines', hline', hbefore', hnew'⟩ | ⟨hnone, -⟩ := hretitles
      · obtain ⟨rfl, rfl, rfl⟩ := heading_unique hlines hline hbefore hlines' hline' hbefore'
        rw [hnew] at hnew'
        have hending := List.append_cancel_left
          (List.append_cancel_left (List.append_cancel_right hnew'))
        change separatorOf line ∈ _
        rw [← hending]
        exact keptEnding_mem line
      · rw [hnone line (by rw [hlines]; simp)] at hline
        cases hline
    · rw [find_no_heading hnone]
      by_contra hunended
      obtain ⟨hbody, hopen, hlast⟩ : s.body = [] ∧ s.openingLength ≠ none ∧
          text.getLast? ≠ some lf := by
        simpa only [not_or, not_not] using hunended
      obtain ⟨pre, line, after, hcut⟩ := exists_cut h hopen
      have hlf : lf ∉ line ++ after := by
        intro hmem
        obtain ⟨w, -, htail⟩ := exists_lf hmem
        apply hlast
        rw [hcut.text_eq, htail, ← hcut.body, hbody]
        simp
      obtain ⟨before, line', after', hlines, -⟩ | ⟨-, hnew'⟩ := hretitles
      · rw [hbody] at hlines
        cases before <;> cases hlines
      · rw [hnew, hbody, List.append_nil, List.length_nil, Nat.sub_zero, List.take_length] at hs'
        rw [hbody, List.append_nil] at hnew'
        exact not_keeps_of_unended htitle hcut hlf hs' hblock hnew'
  · intro hrenamable
    have hfront : s.body ≠ [] ∨ s.openingLength = none ∨ text.getLast? = some lf := by
      unfold Renamable at hrenamable
      cases hfind : (splitLines s.body).find? isHeading with
      | some line =>
        left
        intro hnil
        rw [hnil] at hfind
        cases hfind
      | none =>
        rw [hfind] at hrenamable
        exact hrenamable
    refine ⟨_, _, _, renamedBytes_eq h, split_renamed h hfront, rfl, ?_, ?_⟩
    · obtain ⟨before, line, after, hlines, hline, hbefore, hnew⟩ | hnone :=
        renamedBody_cases title s.body
      · left
        refine ⟨before, line, after, hlines, hline, hbefore, ?_⟩
        unfold Renamable at hrenamable
        rw [find_heading hlines hline hbefore] at hrenamable
        rw [← keptEnding_eq hrenamable]
        exact hnew
      · exact Or.inr hnone
    · intro fileName
      change titleOf (renamedBody title s.body) fileName = _
      obtain ⟨before, line, after, hlines, hline, hbefore, hnew⟩ | ⟨hnone, hnew⟩ :=
        renamedBody_cases title s.body
      · unfold Renamable at hrenamable
        rw [find_heading hlines hline hbefore] at hrenamable
        obtain ⟨hfrontLines, hrestLines, hends⟩ := splitLines_cut hlines
        rw [hnew]
        apply titleOf_heading htitle (hends (List.cons_ne_nil _ _)) ?_ (keptEnding_mem line)
        · intro hnil
          by_contra hafter
          have hne : after ≠ [] := by
            rintro rfl
            exact hafter rfl
          rw [keptEnding_eq hrenamable] at hnil
          have hmem : line ∈ splitLines s.body := by
            rw [hlines]
            simp
          exact separatorOf_ne_nil (line_ne_nil hmem)
            ((splitLines_cut_head hrestLines).2.2 hne) hnil
        · rw [hfrontLines]
          exact hbefore
      · have hjoin : renamedBody title s.body =
            [] ++ (headingOf title ++ [lf]) ++ (lf :: s.body) := by
          rw [hnew]
          simp
        rw [hjoin]
        apply titleOf_heading htitle
        · intro c hc
          cases hc
        · intro l hl
          cases hl
        · simp
        · intro hnil
          cases hnil

end Renaming

/-- **Exactly where the heading ends in nothing, LF or CR LF**, or, without a heading, something or
a line feed stands behind the closing delimiter, a rename leaves the frontmatter block, every other
line and every separator as they are and gives the note its title. -/
theorem rename_keeps_iff {value title text : Text} {s : Split}
    (htitle : normalizeTitle value = some title) (h : split text = .ok s) :
    KeepsNote text title s ↔ Renamable text s :=
  keepsNote_iff (isTitle_of_normalizeTitle htitle) h

/-- A note with a heading behind its frontmatter. -/
def plainNote : Text := "---\na: 1\n---\nfirst\n# Old\nlast\n".toList

theorem rename_keeps_iff_plain :
    KeepsNote plainNote "New title".toList
        ⟨"a: 1\n".toList, "first\n# Old\nlast\n".toList, some 4⟩ ↔
      Renamable plainNote ⟨"a: 1\n".toList, "first\n# Old\nlast\n".toList, some 4⟩ :=
  @rename_keeps_iff " New  title ".toList "New title".toList _ _ (by decide) (by decide)

/-- A heading ended by a vertical tab loses it; a heading put behind a closing delimiter without a
line feed opens the block again. -/
theorem rename_breaks_notes :
    ¬KeepsNote "# Old\x0brest\n".toList "New".toList ⟨[], "# Old\x0brest\n".toList, none⟩ ∧
      ¬KeepsNote "---\na: 1\n---".toList "New".toList ⟨"a: 1\n".toList, [], some 4⟩ := by
  have htitle : IsTitle "New".toList :=
    @isTitle_of_normalizeTitle "New".toList _ (by decide)
  constructor
  · rw [keepsNote_iff htitle (by decide)]
    decide
  · rw [keepsNote_iff htitle (by decide)]
    decide

end Coppermind.Notes
