import Coppermind.Frontmatter.BodyBytes

/-!
# Where adoption puts the keys it adds

`fillMissing` with keys the block does not carry: the dump of them is put in right before the
closing delimiter line, in the line ending of the opening one, or in a block of its own in front of
a text that has none. `split` then finds the same delimiter lines and the same body.
-/

namespace Coppermind.Frontmatter

open Coppermind.Lib Coppermind.Lib.Text

/-- The changes as the mapping that is dumped. -/
def additionsOf (changes : Changes) : Mapping :=
  ⟨none, changes.map fun change => (.str change.1, change.2)⟩

/-- A text of lines that each end in `ending`. -/
def LinesEndIn (ending t : Text) : Prop :=
  ∃ lines : List Text, (∀ line ∈ lines, lf ∉ line) ∧ t = lines.flatMap (· ++ ending)

/-- `result` is `text` and a dump of additions put in at one place, where a reader finds it. -/
def Spliced (text : Text) (found : Readable) (added result : Text) : Prop :=
  match found.position with
  | none =>
    result = delimiter ++ [lf] ++ added ++ (delimiter ++ [lf]) ++ text ∧
      split result = .ok ⟨found.block ++ added, found.body, some (delimiter ++ [lf]).length⟩ ∧
      LinesEndIn [lf] added
  | some (openingLength, closingOffset) =>
    let insertion := openingLength + closingOffset
    let fragment := added.replaceLf (openingEnding text openingLength)
    result = text.take insertion ++ fragment ++ text.drop insertion ∧
      (∃ closing, (splitLines (text.drop insertion)).head? = some closing ∧
        isDelimiterLine closing = true) ∧
      split result = .ok ⟨found.block ++ fragment, found.body, some openingLength⟩ ∧
      LinesEndIn (openingEnding text openingLength) fragment

section Lines

/-- A text that ends in a line feed is lines that end in one. -/
theorem linesEndIn_replaceLf {t ending : Text} (h : t.getLast? = some lf) :
    LinesEndIn ending (t.replaceLf ending) := by
  obtain ⟨t, rfl⟩ := List.getLast?_eq_some_iff.1 h
  have hcut : ∃ line lines, (∀ l ∈ line :: lines, lf ∉ l) ∧
      replaceLf (t ++ [lf]) ending = (line :: lines).flatMap (· ++ ending) := by
    clear h
    induction t with
    | nil => exact ⟨[], [], by simp, by simp [replaceLf]⟩
    | cons c t ih =>
      obtain ⟨line, lines, hfree, heq⟩ := ih
      by_cases hc : c = lf
      · refine ⟨[], line :: lines, ?_, ?_⟩
        · intro l hl
          obtain rfl | hl := List.mem_cons.1 hl
          · exact List.not_mem_nil
          · exact hfree l hl
        · rw [List.cons_append, replaceLf, List.flatMap_cons, if_pos hc, ← replaceLf, heq]
          rfl
      · refine ⟨c :: line, lines, ?_, ?_⟩
        · intro l hl
          obtain rfl | hl := List.mem_cons.1 hl
          · exact List.not_mem_cons_of_ne_of_not_mem (Ne.symm hc) (hfree line List.mem_cons_self)
          · exact hfree l (List.mem_cons_of_mem _ hl)
        · rw [List.cons_append, replaceLf, List.flatMap_cons, if_neg hc, ← replaceLf, heq]
          rfl
  obtain ⟨line, lines, hfree, heq⟩ := hcut
  exact ⟨line :: lines, hfree, heq⟩

end Lines

section Reading

variable {text opening block closing body : Text}

/-- A text put together from an opening line, clean lines and a closing line is split where it was
joined. -/
theorem split_joined {ending : Text} (hending : ending ∈ delimiterEndings) (hends : EndsLine block)
    (hclean : NoDelimiter block) (hclosing : isDelimiterLine closing = true)
    (hcut : splitLines (closing ++ body) = closing :: splitLines body) :
    split (delimiter ++ ending ++ (block ++ (closing ++ body))) =
      .ok ⟨block, afterLf (closing ++ body), some (delimiter ++ ending).length⟩ := by
  have hfind := findClosingDelimiter_append hends hclean hclosing hcut
  generalize closing ++ body = rest at hfind
  have hopening : opening? (delimiter ++ ending ++ (block ++ rest)) =
      some (ending ++ (block ++ rest)) ∧
      removeLf (lstripCr (ending ++ (block ++ rest))) = block ++ rest := by
    obtain rfl | hending := List.mem_cons.1 hending
    · exact ⟨rfl, rfl⟩
    · obtain rfl := List.mem_singleton.1 hending
      exact ⟨rfl, rfl⟩
  unfold split
  rw [hopening.1]
  simp only [hopening.2, hfind, List.take_left, List.drop_left]
  have hlength : (delimiter ++ ending ++ (block ++ rest)).length - (block ++ rest).length =
      (delimiter ++ ending).length := by
    rw [@List.length_append _ (delimiter ++ ending)]
    omega
  rw [hlength]

theorem readableBlock_split {found : Readable} (h : readableBlock text = .ok found) :
    ∃ s, split text = .ok s ∧ found.block = s.block ∧ found.body = s.body ∧
      (found.position = none ↔ s.openingLength = none) := by
  unfold readableBlock at h
  cases hs : split text with
  | error e =>
    rw [hs] at h
    cases h
  | ok s =>
    refine ⟨s, rfl, ?_⟩
    simp only [hs, bind, Except.bind] at h
    cases hopening : s.openingLength with
    | none =>
      rw [hopening] at h
      obtain rfl := Except.ok.inj h
      exact ⟨rfl, rfl, by simp⟩
    | some n =>
      rw [hopening] at h
      simp only at h
      split at h
      · cases h
      · split at h
        · cases h
        · obtain rfl := Except.ok.inj h
          exact ⟨rfl, rfl, by simp⟩

/-- A text that is split has a body. -/
theorem exists_bodyOf {s : Split} (hopen : opensBlock text = true) (h : split text = .ok s) :
    ∃ body, bodyOf text = some body := by
  obtain ⟨rest, hrest⟩ := Option.isSome_iff_exists.1 hopen
  rw [bodyOf_opened hrest]
  split
  · next hnone =>
    have hall : findClosingDelimiter (removeLf (lstripCr rest)) = none := by
      apply closingFrom_eq_none.2
      intro line hline
      have := List.dropWhile_eq_nil_iff.1 hnone line hline
      simpa using this
    rw [split, hrest] at h
    simp only [hall] at h
    cases h
  · exact ⟨_, rfl⟩

end Reading

section Filling

variable {lib : RoundTrip} {text added : Text} {changes : Changes} {found : Readable}
  {m m' : Mapping} {indent : Indent}

/-- Keys that the block does not carry are all appended. -/
theorem fillMissing_eq_appended (hread : readableBlock text = .ok found)
    (hparse : parseBlock lib found.block = .ok m)
    (hnew : ∀ change ∈ changes, m.entries.has change.1 = false) :
    fillMissing lib text changes = appended lib text changes found := by
  have hcarries : carriesAny lib found.block changes = .ok false := by
    unfold carriesAny
    split
    · rfl
    · rw [hparse]
      have hnone : (changes.any fun change => m.entries.has change.1) = false := by
        rw [List.any_eq_false]
        intro change hchange
        rw [hnew change hchange]
        exact Bool.false_ne_true
      simp only [bind, Except.bind, hnone]
      rfl
  unfold fillMissing
  simp only [hread, Except.mapError, bind, Except.bind, hcarries, Bool.and_false,
    Bool.false_eq_true, if_false]

/-- **Additions go in front of the closing line**: where the delimiters are accepted and the block
loads, without any of the keys, the result is the text with the dump of them put in there, or in a
block of its own in front of a text without one, and it reads back as the old block followed by the
additions and the same body. -/
theorem fillMissing_splices (lib : RoundTrip) {text added : Text} {changes : Changes}
    {found : Readable} {m m' : Mapping} {indent : Indent} (hchanges : changes ≠ [])
    (hread : readableBlock text = .ok found) (hparse : parseBlock lib found.block = .ok m)
    (hload : loadBlock lib found.block = .ok (m', indent))
    (hnew : ∀ change ∈ changes, m.entries.has change.1 = false ∧ m'.entries.has change.1 = false)
    (hdump : dump lib indent (additionsOf changes) = .ok added) (hlast : added.getLast? = some lf)
    (hclean : NoDelimiter added) :
    ∃ result, fillMissing lib text changes = .ok result ∧ Spliced text found added result := by
  rw [fillMissing_eq_appended hread hparse fun change hchange => (hnew change hchange).1]
  have hne : added ≠ [] := by
    rintro rfl
    cases hlast
  obtain ⟨s, hs, hblock, hbody, hposition⟩ := readableBlock_split hread
  cases hopen : opensBlock text with
  | false =>
    have hnone : opening? text = none := by
      apply Option.not_isSome_iff_eq_none.1
      rw [← opensBlock, hopen]
      exact Bool.false_ne_true
    have hsplit : split text = .ok ⟨[], text, none⟩ := by
      rw [split, hnone]
    obtain rfl := Except.ok.inj (hsplit.symm.trans hs)
    obtain ⟨block, body, position⟩ := found
    obtain rfl : position = none := hposition.2 rfl
    obtain rfl : block = [] := hblock
    obtain rfl : body = text := hbody
    have hhouse : indent = .house := by
      have hempty : loadBlock lib [] = .ok (.empty, .house) := rfl
      rw [hempty] at hload
      exact (Prod.mk.inj (Except.ok.inj hload)).2.symm
    subst hhouse
    refine ⟨delimiter ++ [lf] ++ added ++ (delimiter ++ [lf]) ++ body, ?_, rfl, ?_, ?_⟩
    · rw [appended, compose, composeAt]
      change (dump lib .house (additionsOf changes) >>= _) = _
      rw [hdump]
      simp only [bind, Except.bind, if_neg hne, hlast, if_true, pure, Except.pure,
        List.append_assoc]
    · have hcut : splitLines (delimiter ++ [lf] ++ body) =
          (delimiter ++ [lf]) :: splitLines body := by
        rw [splitLines_append (endsLine_of_lf (by simp)) (by simp [cr, lf, delimiter])]
        rfl
      rw [List.append_assoc, List.append_assoc (delimiter ++ [lf])]
      exact split_joined List.mem_cons_self (endsLine_of_lf hlast) hclean (by decide) hcut
    · have hlines := @linesEndIn_replaceLf added [lf] hlast
      rwa [replaceLf_lf] at hlines
  | true =>
    obtain ⟨body, hbodyOf⟩ := exists_bodyOf hopen hs
    obtain ⟨opening, block, closing, h⟩ := exists_closedAt hopen hbodyOf
    obtain ⟨rfl, ending, hending, hopening, hread'⟩ := h.readableBlock_ok hread
    obtain rfl := Except.ok.inj (h.split_eq.symm.trans hs)
    have hafter : body = afterLf (closing ++ body) := hbody
    have hadditions : (changes.filter fun change => !m'.entries.has change.1) = changes := by
      apply List.filter_eq_self.2
      intro change hchange
      rw [(hnew change hchange).2]
      rfl
    refine ⟨opening ++ block ++ added.replaceLf ending ++ (closing ++ body), ?_, ?_, ?_, ?_, ?_⟩
    · rw [appended]
      simp only [hload, bind, Except.bind, hadditions, if_neg hchanges]
      have hdump' : dump lib indent
          ⟨none, changes.map fun change => (.str change.1, change.2)⟩ = .ok added := hdump
      rw [hdump']
      simp only [hread', pure, Except.pure, h.take_closing, h.drop_closing]
    · rw [h.take_closing, h.drop_closing, hread']
    · rw [h.drop_closing, h.closing_cut]
      exact ⟨closing, rfl, h.closing_line⟩
    · have hends := endsLine_append h.block_ends
        (endsLine_of_lf (getLast?_replaceLf hending hlast))
      have hlines := noDelimiter_append h.block_ends h.block_clean
        (noDelimiter_replaceLf_of_mem hending hclean)
      have hjoined := split_joined hending hends hlines h.closing_line h.closing_cut
      rw [hread', List.append_assoc opening, List.append_assoc opening, hopening]
      rw [← hafter] at hjoined
      simpa only [List.append_assoc] using hjoined
    · rw [hread']
      exact linesEndIn_replaceLf hlast

end Filling

/-- A library that knows the one block `a: 1` and how `reviewed` is dumped alone. -/
def flushLibrary : RoundTrip :=
  { sampleLibrary with
    load := fun block => .ok (.mapping ⟨some block, [(.str ['a'], .int 1)]⟩)
    loadGuessIndent := fun block =>
      .ok (.mapping ⟨some block, [(.str ['a'], .int 1)]⟩, none, none)
    dump := fun _ _ => .ok "reviewed: true\n".toList }

def returnedText : Text := "---\r\na: 1\r\n---\r\nkept".toList

def returnedBlock : Readable := ⟨"a: 1\r\n".toList, "kept".toList, some (5, 6)⟩

theorem fillMissing_splices_sample :
    ∃ result, fillMissing flushLibrary returnedText reviewedChange = .ok result ∧
      Spliced returnedText returnedBlock "reviewed: true\n".toList result :=
  fillMissing_splices flushLibrary (by decide) rfl rfl rfl (by decide) rfl (by decide)
    (noDelimiter_iff_scanClean.2 (by decide))

end Coppermind.Frontmatter
