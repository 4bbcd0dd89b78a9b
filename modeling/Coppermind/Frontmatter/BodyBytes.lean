import Coppermind.Frontmatter.Write

/-!
# What the writers do to the body

`fillMissing` and `replaceValueInPlace` check both delimiter lines before they
write (`readableBlock`), so the body they leave is the body they found.  `patch`
trusts `split`, which ends the closing line at the next line feed: behind a
closing line that ends in a bare carriage return it drops the body up to that
line feed (`afterLf_closing`).  It also returns the bare body when no key is
left, and a body that opens a block of its own is then read as frontmatter.
-/

namespace Coppermind.Frontmatter

open Coppermind.Lib Coppermind.Lib.Text

/-- What the writers rely on from the dump of a mapping that has entries: lines
that each end in a line feed, none of them a delimiter line. -/
structure DumpsLines (lib : RoundTrip) : Prop where
  clean : ∀ indent m t, lib.dump indent m = .ok t → NoDelimiter t
  newline : ∀ indent m t, m.entries ≠ [] → lib.dump indent m = .ok t → t.getLast? = some lf

/-- The call raises, or returns a text whose body is `body`. -/
def KeepsBody (body : Text) : Except Raised Text → Prop
  | .error _ => True
  | .ok text => bodyOf text = some body

/-- The call raises, returns no text, or returns one whose body is `body`. -/
def KeepsBodyIfAny (body : Text) : Except Raised (Option Text) → Prop
  | .ok (some text) => bodyOf text = some body
  | _ => True

/-- The closing line of a text's block, with its own line ending. -/
def closingLine? (text : Text) : Option Text :=
  (splitLines text).tail.find? isDelimiterLine

/-- The closing line ends in a carriage return that no line feed follows. -/
def closesBare (text : Text) : Bool :=
  closingLine? text == some (delimiter ++ [cr])

/-- The calls of `patch` that keep `body`, the body of `text`: the closing line is
no bare carriage return in front of a body, and the call does not empty the block
above a body that opens one itself.  A block that does not load, and a mapping the
library refuses to dump, raise. -/
def PatchKeeps (lib : RoundTrip) (text body : Text) (changes : Changes) (unset : List Text) : Prop :=
  ∀ s m indent, split text = .ok s → loadBlock lib s.block = .ok (m, indent) →
    (∀ e, dump lib indent (applyChanges m changes unset) ≠ .error e) →
    (closesBare text = true → body = []) ∧
      ((applyChanges m changes unset).entries = [] → opensBlock body = false)

section Endings

theorem replaceLf_lf (t : Text) : replaceLf t [lf] = t := by
  induction t with
  | nil => rfl
  | cons c t ih =>
    have : replaceLf (c :: t) [lf] = c :: replaceLf t [lf] := by
      by_cases hc : c = lf <;> simp [replaceLf, hc]
    rw [this, ih]

theorem endsLine_of_lf {t : Text} (h : t.getLast? = some lf) : EndsLine t := by
  intro c hc
  obtain rfl := Option.some.inj (h.symm.trans hc)
  exact lineBreak_lf

theorem getLast?_replaceLf {ending t : Text} (hending : ending ∈ delimiterEndings)
    (h : t.getLast? = some lf) : (replaceLf t ending).getLast? = some lf := by
  obtain ⟨t, rfl⟩ : ∃ t', t = t' ++ [lf] := List.getLast?_eq_some_iff.1 h
  have : replaceLf (t ++ [lf]) ending = replaceLf t ending ++ ending := by simp [replaceLf]
  rw [this]
  rcases List.mem_cons.1 hending with rfl | hending
  · simp
  · obtain rfl := List.mem_singleton.1 hending
    simp

theorem noDelimiter_replaceLf_of_mem {ending t : Text} (hending : ending ∈ delimiterEndings)
    (h : NoDelimiter t) : NoDelimiter (replaceLf t ending) := by
  rcases List.mem_cons.1 hending with rfl | hending
  · rwa [replaceLf_lf]
  · obtain rfl := List.mem_singleton.1 hending
    exact noDelimiter_replaceLf h

theorem afterLf_eq_self {t : Text} : afterLf t = t ↔ t = [] := by
  constructor
  · intro h
    by_contra hne
    have h1 : (afterLf t).length < t.length := by
      have := (List.dropWhile_suffix (l := t) (· != lf)).length_le
      have : 0 < t.length := List.length_pos_iff.2 hne
      rw [afterLf, List.length_tail]
      omega
    rw [h] at h1
    exact lt_irrefl _ h1
  · rintro rfl
    rfl

/-- A composed text is split where it was joined. -/
theorem split_composed {block body : Text} (hends : block.getLast? = some lf)
    (hclean : NoDelimiter block) :
    ∃ s, split (delimiter ++ [lf] ++ (block ++ (delimiter ++ [lf] ++ body))) = .ok s ∧
      s.block = block ∧ s.body = body := by
  have hcut : splitLines (delimiter ++ [lf] ++ body) = (delimiter ++ [lf]) :: splitLines body := by
    rw [splitLines_append (endsLine_of_lf (by simp)) (by simp [cr, lf, delimiter])]
    rfl
  have hclosing : isDelimiterLine (delimiter ++ [lf]) = true := by decide
  have hfind := findClosingDelimiter_append (endsLine_of_lf hends) hclean hclosing hcut
  have hopening : opening? (delimiter ++ [lf] ++ (block ++ (delimiter ++ [lf] ++ body))) =
      some (lf :: (block ++ (delimiter ++ [lf] ++ body))) := rfl
  have hrest : removeLf (lstripCr (lf :: (block ++ (delimiter ++ [lf] ++ body)))) =
      block ++ (delimiter ++ [lf] ++ body) := rfl
  have hbody : afterLf (delimiter ++ [lf] ++ body) = body := rfl
  unfold split
  rw [hopening]
  simp only [hrest, hfind, List.take_left, List.drop_left, hbody]
  exact ⟨_, rfl, rfl, rfl⟩

end Endings

namespace ClosedAt

variable {text opening block closing body : Text} (h : ClosedAt text opening block closing body)

include h

theorem closing_mem : closing ∈ splitLines (closing ++ body) := by
  rw [h.closing_cut]
  exact List.mem_cons_self

theorem closing_cases : closing = delimiter ∨ closing = delimiter ++ [lf] ∨
    closing = delimiter ++ [cr] ∨ closing = delimiter ++ [cr, lf] :=
  delimiterLine_cases h.closing_mem h.closing_line

/-- A closing line with no ending ends the text. -/
theorem body_of_no_ending (hclosing : closing = delimiter) : body = [] := by
  by_contra hne
  have hlines : splitLines body ≠ [] := fun hnil => hne (splitLines_eq_nil.1 hnil)
  have hends := (splitLines_cut_head h.closing_cut).2.2 hlines
  have := hends '-' (by simp [hclosing, delimiter])
  exact absurd this (by decide)

/-- `split` reports the body, except behind a bare carriage return. -/
theorem afterLf_closing :
    afterLf (closing ++ body) = if closing = delimiter ++ [cr] then afterLf body else body := by
  rcases h.closing_cases with hc | hc | hc | hc
  · rw [if_neg (by rw [hc]; decide), h.body_of_no_ending hc, hc]
    decide
  · rw [if_neg (by rw [hc]; decide), hc]
    simp [afterLf, delimiter, lf]
  · rw [if_pos hc, hc]
    simp [afterLf, delimiter, cr, lf]
  · rw [if_neg (by rw [hc]; decide), hc]
    simp [afterLf, delimiter, cr, lf]

theorem closingLine?_eq : closingLine? text = some closing := by
  obtain ⟨first, blanks, hs, hblanks⟩ := h.lines
  have hskip : ∀ line ∈ blanks ++ splitLines block, isDelimiterLine line = false := by
    intro line hline
    rcases List.mem_append.1 hline with hline | hline
    · exact hblanks line hline
    · exact h.block_clean line hline
  rw [closingLine?, hs, List.tail_cons, ← List.append_assoc, List.find?_append,
    List.find?_eq_none.2 fun line hline => by simp [hskip line hline]]
  simp [h.closing_line]

theorem closesBare_iff : closesBare text = true ↔ closing = delimiter ++ [cr] := by
  rw [closesBare, h.closingLine?_eq]
  simp

/-- `split` reports the whole body unless a bare carriage return stands before one. -/
theorem afterLf_closing_eq_body :
    afterLf (closing ++ body) = body ↔ (closesBare text = true → body = []) := by
  rw [h.afterLf_closing, h.closesBare_iff]
  by_cases hc : closing = delimiter ++ [cr]
  · simp [hc, afterLf_eq_self]
  · simp [hc]

end ClosedAt

section Dumps

variable {lib : RoundTrip} (hlib : DumpsLines lib)

include hlib

theorem dump_lines {indent : Indent} {m : Mapping} {t : Text} (hm : m.entries ≠ [])
    (h : dump lib indent m = .ok t) : NoDelimiter t ∧ t.getLast? = some lf := by
  rw [dump, if_neg hm] at h
  cases hd : lib.dump indent (yamlMapping m) with
  | error e => rw [hd] at h; cases h
  | ok t' =>
    rw [hd] at h
    obtain rfl := Except.ok.inj h
    refine ⟨hlib.clean _ _ _ hd, hlib.newline _ _ _ ?_ hd⟩
    unfold yamlMapping
    split
    · exact hm
    · simpa using hm

/-- A composed text carries the body it was given, below a block if any key is left. -/
theorem composeAt_body {indent : Indent} {m : Mapping} {body text : Text}
    (h : composeAt lib indent m body = .ok text) :
    (m.entries = [] ∧ text = body) ∨ (m.entries ≠ [] ∧ bodyOf text = some body) := by
  unfold composeAt at h
  by_cases hm : m.entries = []
  · have hd : dump lib indent m = .ok [] := by rw [dump, if_pos hm]
    rw [hd] at h
    exact .inl ⟨hm, (Except.ok.inj h).symm⟩
  · right
    refine ⟨hm, ?_⟩
    cases hd : dump lib indent m with
    | error e => rw [hd] at h; cases h
    | ok t =>
      obtain ⟨hclean, hlast⟩ := dump_lines hlib hm hd
      have hne : t ≠ [] := by rintro rfl; simp at hlast
      rw [hd] at h
      simp only [bind, Except.bind, hne, hlast, ite_true, ite_false, pure, Except.pure] at h
      rw [← Except.ok.inj h]
      refine bodyOf_joined (List.mem_cons_self) (endsLine_of_lf hlast) hclean (by decide) ?_
      exact splitLines_append (a := delimiter ++ [lf]) (by rintro c ⟨⟩; exact lineBreak_lf)
        (by rintro ⟨h, -⟩; exact absurd h (by decide))

omit hlib in
theorem composeAt_error {indent : Indent} {m : Mapping} {body : Text} {e : Raised}
    (h : composeAt lib indent m body = .error e) : dump lib indent m = .error e := by
  unfold composeAt at h
  cases hd : dump lib indent m with
  | error e' =>
    rw [hd] at h
    exact congrArg Except.error (Except.error.inj h)
  | ok t =>
    rw [hd] at h
    simp only [bind, Except.bind, pure, Except.pure] at h
    split at h <;> cases h

end Dumps

section Patch

/-- A body is no longer than its text, and shorter when the text opens a block. -/
theorem length_bodyOf {text body : Text} (h : bodyOf text = some body) :
    body.length ≤ text.length ∧ (opensBlock text = true → body.length < text.length) := by
  by_cases hopen : opensBlock text = true
  · obtain ⟨opening, block, closing, hc⟩ := exists_closedAt hopen h
    obtain ⟨ending, rfl, -, -⟩ := hc.opened
    have := congrArg List.length hc.text_eq
    simp only [List.length_append, delimiter, List.length_cons] at this
    omega
  · rw [bodyOf_unopened (Bool.eq_false_iff.2 hopen)] at h
    obtain rfl := Option.some.inj h
    exact ⟨le_refl _, fun h => absurd h hopen⟩

theorem length_afterLf (t : Text) : (afterLf t).length ≤ t.length := by
  have := (List.dropWhile_suffix (l := t) (· != lf)).length_le
  rw [afterLf, List.length_tail]
  omega

variable {lib : RoundTrip} (hlib : DumpsLines lib) {text opening block closing body : Text}
  (h : ClosedAt text opening block closing body)

include hlib h

/-- `patch` keeps the body exactly under `PatchKeeps`. -/
theorem patch_keepsBody_iff (changes : Changes) (unset : List Text) :
    KeepsBody body (patch lib text changes unset) ↔ PatchKeeps lib text body changes unset := by
  have hpatch : patch lib text changes unset =
      patched lib block (afterLf (closing ++ body)) changes unset := by
    simp only [patch, h.split_eq, Except.mapError, bind, Except.bind]
  rw [hpatch, patched]
  cases hload : loadBlock lib block with
  | error e =>
    refine ⟨fun _ s m indent hs hl => ?_, fun _ => trivial⟩
    obtain rfl := Except.ok.inj (h.split_eq.symm.trans hs)
    rw [hload] at hl
    cases hl
  | ok loaded =>
    obtain ⟨m, indent⟩ := loaded
    simp only [bind, Except.bind]
    -- `PatchKeeps` speaks of this one load
    have hkeeps : PatchKeeps lib text body changes unset ↔
        ((∀ e, dump lib indent (applyChanges m changes unset) ≠ .error e) →
          (closesBare text = true → body = []) ∧
            ((applyChanges m changes unset).entries = [] → opensBlock body = false)) := by
      constructor
      · exact fun hk => hk _ m indent h.split_eq hload
      · intro hk s m' indent' hs hl
        obtain rfl := Except.ok.inj (h.split_eq.symm.trans hs)
        obtain ⟨rfl, rfl⟩ := Prod.mk.inj (Except.ok.inj (hload.symm.trans hl))
        exact hk
    rw [hkeeps]
    cases hc : composeAt lib indent (applyChanges m changes unset) (afterLf (closing ++ body)) with
    | error e =>
      exact ⟨fun _ hd => absurd (composeAt_error hc) (hd e), fun _ => trivial⟩
    | ok result =>
      have hdump : ∀ e, dump lib indent (applyChanges m changes unset) ≠ .error e := by
        intro e he
        rw [composeAt, he] at hc
        cases hc
      simp only [hdump, ne_eq, not_false_eq_true, implies_true, true_implies, KeepsBody]
      rw [← h.afterLf_closing_eq_body]
      rcases composeAt_body hlib hc with ⟨hnil, rfl⟩ | ⟨hne, hbody⟩
      · simp only [hnil, true_implies]
        constructor
        · intro hb
          -- the text returned has no more characters than the body it has to carry
          have hle : (afterLf (closing ++ body)).length ≤ body.length := by
            rw [h.afterLf_closing]
            split
            · exact length_afterLf body
            · exact le_refl _
          obtain ⟨h1, h2⟩ := length_bodyOf hb
          have hclosed : opensBlock (afterLf (closing ++ body)) = false := by
            refine Bool.eq_false_iff.2 fun hopen => ?_
            have := h2 hopen
            omega
          rw [bodyOf_unopened hclosed] at hb
          have heq := Option.some.inj hb
          exact ⟨heq, heq ▸ hclosed⟩
        · rintro ⟨heq, hopen⟩
          rw [heq]
          exact bodyOf_unopened hopen
      · rw [hbody]
        simp [hne]

end Patch

section InPlace

theorem splitLines_crlf (t : Text) : splitLines (cr :: lf :: t) = [cr, lf] :: splitLines t := by
  have hlf : splitLines (lf :: t) = [lf] :: splitLines t := by
    simpa [splitLines] using splitLines_append (a := [lf]) (b := t)
      (by rintro c ⟨⟩; exact lineBreak_lf) (by rintro ⟨h, -⟩; exact absurd h (by decide))
  rw [splitLines_cons, hlf]
  rfl

namespace ClosedAt

variable {text opening block closing body : Text} (h : ClosedAt text opening block closing body)

include h

theorem drop_opening : text.drop opening.length = block ++ (closing ++ body) := by
  conv => lhs; rw [h.text_eq]
  exact List.drop_left

theorem drop_closing : text.drop (opening.length + block.length) = closing ++ body := by
  rw [← List.drop_drop, h.drop_opening]
  exact List.drop_left

theorem take_closing : text.take (opening.length + block.length) = opening ++ block := by
  conv => lhs; rw [h.text_eq, ← List.append_assoc, ← List.length_append]
  exact List.take_left

theorem take_opening : text.take opening.length = opening := by
  conv => lhs; rw [h.text_eq]
  exact List.take_left

/-- A closing line that ends in a bare carriage return has no line feed after it. -/
theorem no_lf_after_bare (hbare : closing = delimiter ++ [cr]) (t : Text) : body ≠ lf :: t := by
  rintro rfl
  have hcut := h.closing_cut
  rw [hbare, List.append_assoc, List.singleton_append,
    splitLines_delimiter_append (splitLines_crlf t)] at hcut
  have := (List.cons.inj hcut).1
  simp at this

/-- Where `readableBlock` answers, `split` read the body and the opening line ends
in one of the two endings the writers splice at. -/
theorem readableBlock_ok {found : Readable} (hfound : readableBlock text = .ok found) :
    found = ⟨block, body, some (opening.length, block.length)⟩ ∧
      ∃ ending ∈ delimiterEndings, opening = delimiter ++ ending ∧
        openingEnding text opening.length = ending := by
  obtain ⟨ending, hopening, -, -⟩ := h.opened
  have hfind : findClosingDelimiter (text.drop opening.length) = some block.length := by
    rw [h.drop_opening]
    exact findClosingDelimiter_append h.block_ends h.block_clean h.closing_line h.closing_cut
  have hending : openingEnding text opening.length = ending := by
    conv => lhs; rw [openingEnding, h.text_eq, hopening, List.append_assoc, List.drop_left]
    rw [List.length_append, Nat.add_sub_cancel_left, List.take_left]
  have hafter : text.drop (opening.length + block.length + delimiter.length) =
      (closing ++ body).drop delimiter.length := by
    rw [← h.drop_closing, List.drop_drop]
  simp only [readableBlock, h.split_eq, bind, Except.bind, hfind, hafter, hending] at hfound
  split at hfound
  · cases hfound
  · next hcheck =>
    simp only [not_or, not_and, Decidable.not_not] at hcheck
    have hbare : closing ≠ delimiter ++ [cr] := by
      intro hbare
      have hstart := hcheck.2 (by simp [hbare, delimiter])
      have : startsWithEnding (cr :: body) = true := by
        simpa [hbare, delimiter] using hstart
      have : ∃ t, body = lf :: t := by
        cases body with
        | nil => exact absurd this (by decide)
        | cons c t =>
          have hc : lf = c := by
            simpa [startsWithEnding, delimiterEndings, List.isPrefixOf, cr, lf] using this
          exact ⟨t, by rw [hc]⟩
      obtain ⟨t, ht⟩ := this
      exact h.no_lf_after_bare hbare t ht
    have hbody : afterLf (closing ++ body) = body := by rw [h.afterLf_closing, if_neg hbare]
    rw [hbody] at hfound
    exact ⟨(Except.ok.inj hfound).symm, ending, hcheck.1, hopening, hending⟩

/-- Clean lines spliced in front of the closing line leave the body in place. -/
theorem bodyOf_spliced {ending block' : Text} (hending : ending ∈ delimiterEndings)
    (hopening : opening = delimiter ++ ending) (hends : EndsLine block')
    (hclean : NoDelimiter block') :
    bodyOf (opening ++ block' ++ (closing ++ body)) = some body := by
  rw [List.append_assoc, hopening]
  exact bodyOf_joined hending hends hclean h.closing_line h.closing_cut

end ClosedAt

variable {lib : RoundTrip} (hlib : DumpsLines lib) {text opening block closing body : Text}
  (h : ClosedAt text opening block closing body) (hbody : bodyOf text = some body)

include hlib

/-- The fragment a writer splices in is whole lines, none of them a delimiter. -/
theorem fragment_lines {indent : Indent} {m : Mapping} {t ending : Text} (hm : m.entries ≠ [])
    (hd : dump lib indent m = .ok t) (hending : ending ∈ delimiterEndings) :
    EndsLine (replaceLf t ending) ∧ NoDelimiter (replaceLf t ending) := by
  obtain ⟨hclean, hlast⟩ := dump_lines hlib hm hd
  exact ⟨endsLine_of_lf (getLast?_replaceLf hending hlast),
    noDelimiter_replaceLf_of_mem hending hclean⟩

include h hbody

theorem appended_keepsBody {ending : Text} (hending : ending ∈ delimiterEndings)
    (hopening : opening = delimiter ++ ending) (hread : openingEnding text opening.length = ending)
    (changes : Changes) :
    KeepsBody body
      (appended lib text changes ⟨block, body, some (opening.length, block.length)⟩) := by
  unfold appended
  cases hload : loadBlock lib block with
  | error e => trivial
  | ok loaded =>
    obtain ⟨m, indent⟩ := loaded
    simp only [bind, Except.bind]
    split
    · exact hbody
    · next hne =>
      cases hd : dump lib indent
          ⟨none, (changes.filter fun change => !m.entries.has change.1).map
            fun change => (.str change.1, change.2)⟩ with
      | error e => trivial
      | ok t =>
        obtain ⟨hends, hclean⟩ := fragment_lines hlib (by simpa using hne) hd hending
        simp only [hread, pure, Except.pure, KeepsBody, h.take_closing, h.drop_closing]
        rw [List.append_assoc opening]
        exact h.bodyOf_spliced hending hopening (endsLine_append h.block_ends hends)
          (noDelimiter_append h.block_ends h.block_clean hclean)

omit hlib h hbody in
theorem applyChanges_ne_nil (m : Mapping) {changes : Changes} (hne : changes ≠ [])
    (unset : List Text) : (applyChanges m changes unset).entries ≠ [] := by
  unfold applyChanges
  obtain ⟨rest, change, rfl⟩ : ∃ rest change, changes = rest ++ [change] :=
    ⟨_, _, (List.dropLast_append_getLast hne).symm⟩
  rw [List.foldl_append]
  exact Entries.set_ne_nil _ _ _

/-- `fill_missing` raises or keeps the body. -/
theorem fillMissing_keepsBody (changes : Changes) :
    KeepsBody body (fillMissing lib text changes) := by
  unfold fillMissing
  cases hfound : readableBlock text with
  | error e => trivial
  | ok found =>
    obtain ⟨rfl, ending, hending, hopening, hread⟩ := h.readableBlock_ok hfound
    simp only [Except.mapError, bind, Except.bind]
    cases hcarries : carriesAny lib block changes with
    | error e => trivial
    | ok carried =>
      cases carried with
      | false => exact appended_keepsBody hlib h hbody hending hopening hread changes
      | true =>
        have hne : changes ≠ [] := by
          rintro rfl
          simp [carriesAny] at hcarries
        simp only [Option.isSome_some, Bool.and_self, ite_true, patched]
        cases hload : loadBlock lib block with
        | error e => trivial
        | ok loaded =>
          obtain ⟨m, indent⟩ := loaded
          simp only [bind, Except.bind]
          cases hc : composeAt lib indent (applyChanges m changes []) body with
          | error e => trivial
          | ok result =>
            rcases composeAt_body hlib hc with ⟨hnil, -⟩ | ⟨-, hb⟩
            · exact absurd hnil (applyChanges_ne_nil m hne [])
            · exact hb

omit hlib h hbody in
theorem endsLine_right {a b : Text} (hends : EndsLine (a ++ b)) : EndsLine b := by
  intro c hc
  exact hends c (by rw [List.getLast?_append, hc]; rfl)

omit hlib hbody in
/-- The lines of the block up to some line, and those from some line on, are clean. -/
theorem block_part (n : Nat) :
    (EndsLine ((splitLines block).take n).flatten ∧ NoDelimiter ((splitLines block).take n).flatten) ∧
      EndsLine ((splitLines block).drop n).flatten ∧
        NoDelimiter ((splitLines block).drop n).flatten := by
  have hjoin : ((splitLines block).take n).flatten ++ ((splitLines block).drop n).flatten = block := by
    rw [← List.flatten_append, List.take_append_drop, flatten_splitLines]
  obtain ⟨htake, hdrop, hends⟩ := splitLines_cut (List.take_append_drop n (splitLines block)).symm
  refine ⟨⟨?_, ?_⟩, ?_, ?_⟩
  · by_cases hne : (splitLines block).drop n = []
    · rw [hne, List.flatten_nil, List.append_nil] at hjoin
      rw [hjoin]
      exact h.block_ends
    · exact hends hne
  · intro line hline
    rw [htake] at hline
    exact h.block_clean line (List.mem_of_mem_take hline)
  · exact endsLine_right (hjoin.symm ▸ h.block_ends)
  · intro line hline
    rw [hdrop] at hline
    exact h.block_clean line (List.mem_of_mem_drop hline)

omit hbody in
/-- `replace_value_in_place` raises, writes nothing or keeps the body. -/
theorem replaceValueInPlace_keepsBody (key : Text) (value : Value) :
    KeepsBodyIfAny body (replaceValueInPlace lib text key value) := by
  unfold replaceValueInPlace
  cases hfound : readableBlock text with
  | error e => trivial
  | ok found =>
    obtain ⟨rfl, ending, hending, hopening, -⟩ := h.readableBlock_ok hfound
    simp only [Except.mapError, bind, Except.bind]
    split
    · trivial
    cases hload : loadBlock lib block with
    | error e => trivial
    | ok loaded =>
      obtain ⟨m, indent⟩ := loaded
      simp only
      split
      · trivial
      split
      · trivial
      split
      · trivial
      split
      · trivial
      next first others hspan =>
      split
      · trivial
      split
      · trivial
      next fragment hd =>
      split
      · trivial
      · trivial
      next reread hreread =>
      split
      swap
      · trivial
      -- the whole lines around the fragment, and the fragment's own, are clean
      set lineEnding : Text := if [cr, lf].isSuffixOf first then [cr, lf] else [lf]
      have hlineEnding : lineEnding ∈ delimiterEndings := by
        by_cases hs : [cr, lf].isSuffixOf first <;> simp [lineEnding, hs, delimiterEndings]
      obtain ⟨hfends, hfclean⟩ := fragment_lines hlib (by simp) hd hlineEnding
      obtain ⟨⟨htends, htclean⟩, -⟩ := block_part h (lib.keyPosition block (.str key)).1
      obtain ⟨-, hdends, hdclean⟩ :=
        block_part h ((lib.keyPosition block (.str key)).1 + (first :: others).length)
      simp only [KeepsBodyIfAny, pure, Except.pure, h.take_opening, h.drop_closing]
      refine h.bodyOf_spliced hending hopening ?_ ?_
      · exact endsLine_append (endsLine_append htends hfends) hdends
      · exact noDelimiter_append (endsLine_append htends hfends)
          (noDelimiter_append htends htclean hfclean) hdclean

end InPlace

/-- **No frontmatter write loses body bytes**, exactly where `patch` does not meet
a bare carriage return in front of a body, or empty the block above a body that
opens one. -/
theorem writers_keep_body_iff (lib : RoundTrip) (hlib : DumpsLines lib) {text body : Text}
    (hopen : opensBlock text = true) (hbody : bodyOf text = some body)
    (changes : Changes) (unset : List Text) :
    (KeepsBody body (patch lib text changes unset) ∧
        KeepsBody body (fillMissing lib text changes) ∧
        ∀ key value, KeepsBodyIfAny body (replaceValueInPlace lib text key value)) ↔
      PatchKeeps lib text body changes unset := by
  obtain ⟨opening, block, closing, h⟩ := exists_closedAt hopen hbody
  rw [patch_keepsBody_iff hlib h]
  constructor
  · exact fun hall => hall.1
  · exact fun hkeeps => ⟨hkeeps, fillMissing_keepsBody hlib h hbody changes,
      replaceValueInPlace_keepsBody hlib h⟩

/-- A library that knows the one block `a: 1`, and how it dumps once `reviewed` is
set in it. -/
def sampleLibrary : RoundTrip where
  load block :=
    if block = "a: 1\n".toList then .ok (.mapping ⟨some block, [(.str ['a'], .int 1)]⟩)
    else .error (.other "ScannerError")
  loadGuessIndent block :=
    if block = "a: 1\n".toList then
      .ok (.mapping ⟨some block, [(.str ['a'], .int 1)]⟩, none, none)
    else .error (.other "ScannerError")
  keyPosition _ _ := (0, 0)
  dump _ m :=
    match m.entries with
    | [(.str ['a'], .int 1), (.str ['r', 'e', 'v', 'i', 'e', 'w', 'e', 'd'], .bool true)] =>
      .ok "a: 1\nreviewed: true\n".toList
    | _ => .error (.other "RepresenterError")

theorem sampleLibrary_dumpsLines : DumpsLines sampleLibrary where
  clean indent m t h := by
    simp only [sampleLibrary] at h
    split at h
    · obtain rfl := Except.ok.inj h
      exact noDelimiter_iff_scanClean.2 (by decide)
    · cases h
  newline indent m t _ h := by
    simp only [sampleLibrary] at h
    split at h
    · obtain rfl := Except.ok.inj h
      decide
    · cases h

def reviewedChange : Changes := [("reviewed".toList, .bool true)]

theorem writers_keep_body_iff_sample :
    (KeepsBody "kept\n".toList
        (patch sampleLibrary "---\na: 1\n---\nkept\n".toList reviewedChange []) ∧
      KeepsBody "kept\n".toList
        (fillMissing sampleLibrary "---\na: 1\n---\nkept\n".toList reviewedChange) ∧
      ∀ key value, KeepsBodyIfAny "kept\n".toList
        (replaceValueInPlace sampleLibrary "---\na: 1\n---\nkept\n".toList key value)) ↔
      PatchKeeps sampleLibrary "---\na: 1\n---\nkept\n".toList "kept\n".toList reviewedChange [] :=
  writers_keep_body_iff sampleLibrary sampleLibrary_dumpsLines (by decide) (by decide) _ _

/-- Setting `reviewed` in a note whose block is closed by a bare carriage return
drops the first line of its body. -/
theorem patch_drops_body_behind_bare_return :
    ¬ ∀ lib : RoundTrip, DumpsLines lib → ∀ text body, opensBlock text = true →
      bodyOf text = some body → ∀ changes unset, KeepsBody body (patch lib text changes unset) := by
  intro hall
  have h := hall sampleLibrary sampleLibrary_dumpsLines "---\na: 1\n---\rlost\nkept\n".toList
    "lost\nkept\n".toList (by decide) (by decide) reviewedChange []
  have hpatch : patch sampleLibrary "---\na: 1\n---\rlost\nkept\n".toList reviewedChange [] =
      .ok "---\na: 1\nreviewed: true\n---\nkept\n".toList := by rfl
  rw [hpatch] at h
  have hbody : bodyOf "---\na: 1\nreviewed: true\n---\nkept\n".toList =
      some "lost\nkept\n".toList := h
  exact absurd hbody (by decide)

end Coppermind.Frontmatter
