import Coppermind.Filing.Published

/-!
# Whose note a broken file is

The frontmatter of a file that does not parse may still say whose it is.  A read of the note and
the reconciler each look for that, each in its own way: the read takes the first line of the block
that opens with the identifier's key, whatever is quoted or commented behind it, and the reconciler
wants exactly one line of a stricter form, and an identity the mirror knows.

`IdLine` and `PlainLine` say which lines the two look for.  `broken_attributed_alike_iff` says when
the two agree whose note the file is.
-/

namespace Coppermind.Filing

open Coppermind.Lib Coppermind.Lib.Text Coppermind.Lib.Task Coppermind.Frontmatter
open Coppermind.Artifacts (NotePath)
open Coppermind.Notes (FileBytes NoteId bareLines)
open Coppermind.Reconciler (Index MirrorEntry Observation Observed identityOfLine identityFromBroken
  isBlank isQuote)
open Coppermind.Sources (pathText)

section Lines

variable {key line value : Text}

/-- One pair of matching quotes around a value taken off. -/
def unquoted (value : Text) : Text :=
  if 2 ≤ value.length && value.head? == value.getLast? &&
      (value.head? == some '"' || value.head? == some '\'') then (value.drop 1).dropLast
  else value

/-- A line that the read takes for the note's identity: the key, white space, a colon, and at least
one character before the first `#`; its value is stripped of white space and matching quotes. -/
def IdLine (key value line : Text) : Prop :=
  ∃ space rest, line.takeWhile (· ≠ '#') = key ++ space ++ ':' :: rest ∧
    (∀ c ∈ space, isSpace c = true) ∧ rest ≠ [] ∧ value = unquoted (strip rest)

/-- At most one quote. -/
def QuoteMark (t : Text) : Prop := t = [] ∨ ∃ c, t = [c] ∧ isQuote c = true

/-- A line that the reconciler takes for the note's identity: the key and a colon, then a value with
neither quotes nor blanks in it, which one quote may precede and one may follow, and nothing else
but blanks. -/
def PlainLine (key value line : Text) : Prop :=
  ∃ before opening closing after,
    line = key ++ ':' :: (before ++ (opening ++ (value ++ (closing ++ after)))) ∧
    (∀ c ∈ before, isBlank c = true) ∧ QuoteMark opening ∧ QuoteMark closing ∧
    (∀ c ∈ after, isBlank c = true) ∧ value ≠ [] ∧
    ∀ c ∈ value, isQuote c = false ∧ isBlank c = false ∧ isCrLf c = false

/-- The value `_recover_id_from_raw` takes from one line. -/
def idOfLine (key line : Text) : Option Text :=
  let line := line.takeWhile (· ≠ '#')
  if key.isPrefixOf line then
    match (line.drop key.length).dropWhile isSpace with
    | ':' :: rest => if rest = [] then none else some (unquoted (strip rest))
    | _ => none
  else none

theorem isSpace_colon : isSpace ':' = false := by decide

theorem idOfLine_eq_some_iff : idOfLine key line = some value ↔ IdLine key value line := by
  unfold idOfLine IdLine
  generalize line.takeWhile (· ≠ '#') = cut
  constructor
  · intro h
    dsimp only at h
    split at h
    · next hbegins =>
      obtain ⟨tail, rfl⟩ := List.isPrefixOf_iff_prefix.1 hbegins
      rw [List.drop_left] at h
      split at h
      · next rest hrest =>
        split at h
        · cases h
        · next hne =>
          refine ⟨tail.takeWhile isSpace, rest, ?_, ?_, hne, (Option.some.inj h).symm⟩
          · rw [← hrest, List.append_assoc, List.takeWhile_append_dropWhile]
          · intro c hc
            exact List.mem_takeWhile_imp hc
      · cases h
    · cases h
  · rintro ⟨space, rest, rfl, hspace, hne, rfl⟩
    have hbegins : key.isPrefixOf (key ++ space ++ ':' :: rest) = true := by
      rw [List.isPrefixOf_iff_prefix, List.append_assoc]
      exact List.prefix_append _ _
    have hdrop : ((key ++ space ++ ':' :: rest).drop key.length).dropWhile isSpace = ':' :: rest := by
      rw [List.append_assoc, List.drop_left, List.dropWhile_append_of_pos hspace,
        List.dropWhile_cons_of_neg (by rw [isSpace_colon]; exact Bool.false_ne_true)]
    dsimp only
    rw [if_pos hbegins, hdrop]
    exact if_neg hne

/-- The quote at the head of a text taken off. -/
def dropQuote (t : Text) : Text := if t.head?.any isQuote then t.tail else t

theorem dropQuote_mark {mark t : Text} (hmark : QuoteMark mark)
    (hhead : t.head?.any isQuote = false) : dropQuote (mark ++ t) = t := by
  obtain rfl | ⟨c, rfl, hc⟩ := hmark
  · rw [List.nil_append, dropQuote, hhead]
    rfl
  · simp [dropQuote, hc]

theorem exists_mark (t : Text) : ∃ mark, QuoteMark mark ∧ t = mark ++ dropQuote t := by
  unfold dropQuote
  cases t with
  | nil => exact ⟨[], Or.inl rfl, rfl⟩
  | cons c t =>
    cases hc : isQuote c with
    | true => exact ⟨[c], Or.inr ⟨c, rfl, hc⟩, by simp [hc]⟩
    | false => exact ⟨[], Or.inl rfl, by simp [hc]⟩

/-- The characters of an identity on a plain line. -/
def isPlain (c : Char) : Bool := !isQuote c && !isBlank c && !isCrLf c

theorem identityOfLine_eq : identityOfLine key line =
    if (key ++ [':']).isPrefixOf line then
      let rest := dropQuote ((line.drop (key.length + 1)).dropWhile isBlank)
      let value := rest.takeWhile isPlain
      if value ≠ [] ∧ (dropQuote (rest.drop value.length)).all isBlank then some value else none
    else none := rfl

theorem drop_key (tail : Text) :
    (key ++ ':' :: tail).drop (key.length + 1) = tail := by
  rw [← List.singleton_append, ← List.append_assoc]
  exact List.drop_left' (by rw [List.length_append, List.length_singleton])

theorem isBlank_of_quote {c : Char} (h : isQuote c = true) : isBlank c = false := by
  simp only [isQuote, Bool.or_eq_true, decide_eq_true_eq] at h
  obtain rfl | rfl := h <;> rfl

theorem isPlain_iff {c : Char} :
    isPlain c = true ↔ isQuote c = false ∧ isBlank c = false ∧ isCrLf c = false := by
  simp [isPlain, and_assoc]

theorem takeWhile_plain {rest : Text} (hvalue : ∀ c ∈ value, isPlain c = true)
    (hrest : rest.head?.all (fun c => !isPlain c) = true) :
    (value ++ rest).takeWhile isPlain = value := by
  rw [List.takeWhile_append_of_pos hvalue]
  cases rest with
  | nil => rw [List.takeWhile_nil, List.append_nil]
  | cons c rest =>
    rw [List.takeWhile_cons_of_neg (by simpa using hrest), List.append_nil]

theorem identityOfLine_eq_some_iff :
    identityOfLine key line = some value ↔ PlainLine key value line := by
  rw [identityOfLine_eq]
  constructor
  · intro h
    split at h
    · next hbegins =>
      obtain ⟨tail, rfl⟩ := List.isPrefixOf_iff_prefix.1 hbegins
      rw [List.append_assoc, List.singleton_append, drop_key] at h
      dsimp only at h
      split at h
      · next hfound =>
        obtain ⟨hne, hafter⟩ := hfound
        obtain rfl := Option.some.inj h
        obtain ⟨opening, hopening, hrest⟩ := exists_mark (tail.dropWhile isBlank)
        generalize hr : dropQuote (tail.dropWhile isBlank) = rest at hrest hafter hne ⊢
        obtain ⟨closing, hclosing, hlast⟩ := exists_mark (rest.drop (rest.takeWhile isPlain).length)
        refine ⟨tail.takeWhile isBlank, opening, closing, _, ?_, ?_, hopening, hclosing,
          List.all_eq_true.1 hafter, hne, ?_⟩
        · rw [List.append_assoc, List.singleton_append, ← hlast,
            List.prefix_iff_eq_append.1 (List.takeWhile_prefix _), ← hrest,
            List.takeWhile_append_dropWhile]
        · intro c hc
          exact List.mem_takeWhile_imp hc
        · intro c hc
          exact isPlain_iff.1 (List.mem_takeWhile_imp hc)
      · cases h
    · cases h
  · rintro ⟨before, opening, closing, after, rfl, hbefore, hopening, hclosing, hafter, hne, hvalue⟩
    have hplain : ∀ c ∈ value, isPlain c = true := fun c hc => isPlain_iff.2 (hvalue c hc)
    obtain ⟨v, vs, rfl⟩ := List.exists_cons_of_ne_nil hne
    obtain ⟨hv, hvblank, -⟩ := hvalue v List.mem_cons_self
    have hbegins : (key ++ [':']).isPrefixOf
        (key ++ ':' :: (before ++ (opening ++ (v :: vs ++ (closing ++ after))))) = true := by
      rw [List.isPrefixOf_iff_prefix]
      exact (List.prefix_append_right_inj key).2 ⟨_, rfl⟩
    have hblanks : (before ++ (opening ++ (v :: vs ++ (closing ++ after)))).dropWhile isBlank =
        opening ++ (v :: vs ++ (closing ++ after)) := by
      rw [List.dropWhile_append_of_pos hbefore]
      obtain rfl | ⟨q, rfl, hq⟩ := hopening
      · exact List.dropWhile_cons_of_neg (by rw [hvblank]; exact Bool.false_ne_true)
      · exact List.dropWhile_cons_of_neg (by rw [isBlank_of_quote hq]; exact Bool.false_ne_true)
    have hafterHead : after.head?.any isQuote = false := by
      cases after with
      | nil => rfl
      | cons c after =>
        rw [List.head?_cons, Option.any_some]
        refine Bool.eq_false_iff.2 fun hc => ?_
        have hblank := hafter c List.mem_cons_self
        rw [isBlank_of_quote hc] at hblank
        cases hblank
    have hend : (closing ++ after).head?.all (fun c => !isPlain c) = true := by
      obtain rfl | ⟨q, rfl, hq⟩ := hclosing
      · cases after with
        | nil => rfl
        | cons c after => simp [isPlain, hafter c List.mem_cons_self]
      · simp [isPlain, hq]
    rw [if_pos hbegins, drop_key]
    dsimp only
    rw [hblanks, dropQuote_mark hopening (by simpa using hv), takeWhile_plain hplain hend,
      List.drop_left, dropQuote_mark hclosing hafterHead, if_pos ⟨hne, List.all_eq_true.2 hafter⟩]

end Lines

section Readings

variable (env : Env)

/-- The mirror as a pass of the reconciler reads it, less the notes under an unfinished purge. -/
def World.index (w : World) (purging : List NoteId) : Index :=
  (w.rows.entries.filter fun r => r.1 ∉ purging).map fun r =>
    { noteId := r.1, path := PyStr.ofText (pathText r.2.path), state := r.2.state
      stateReason := none, sizeBytes := 0, mtime := none }

/-- The first line of the block that the read takes for the note's identity names another one. -/
def ReadElsewhere (text : Text) (id : NoteId) : Prop :=
  ∃ s before line after value, split text = .ok s ∧ bareLines s.block = before ++ line :: after ∧
    (∀ l ∈ before, ∀ v, ¬IdLine env.schema.roles.idKey v l) ∧
    IdLine env.schema.roles.idKey value line ∧ PyStr.ofText value ≠ id

/-- The lines behind the first, up to one that is the delimiter. -/
def scannedLines (text : Text) : List Text :=
  (bareLines text).tail.takeWhile (· ≠ delimiter)

/-- One line and no other is plain, and it names `id`. -/
def PlainlyNames (text : Text) (id : NoteId) : Prop :=
  ∃ before line after value, scannedLines text = before ++ line :: after ∧
    PlainLine env.schema.roles.idKey value line ∧
    (∀ l ∈ before ++ after, ∀ v, ¬PlainLine env.schema.roles.idKey v l) ∧ PyStr.ofText value = id

theorem idOfLine_eq_none_iff {key line : Text} :
    idOfLine key line = none ↔ ∀ v, ¬IdLine key v line := by
  simp only [Option.eq_none_iff_forall_ne_some, ne_eq, idOfLine_eq_some_iff]

theorem identityOfLine_eq_none_iff {key line : Text} :
    identityOfLine key line = none ↔ ∀ v, ¬PlainLine key v line := by
  simp only [Option.eq_none_iff_forall_ne_some, ne_eq, identityOfLine_eq_some_iff]

theorem recoverId_eq (text : Text) :
    recoverId env text = match split text with
      | .error _ => none
      | .ok s =>
        if !s.block.notBlank then none
        else ((bareLines s.block).findSome? (idOfLine env.schema.roles.idKey)).map PyStr.ofText := by
  unfold recoverId
  cases split text with
  | error e => rfl
  | ok s =>
    dsimp only
    split
    · rfl
    · rw [List.map_findSome?]
      congr 1
      funext line
      simp only [idOfLine, unquoted, Function.comp]
      split
      · generalize List.dropWhile isSpace _ = rest
        cases rest with
        | nil => rfl
        | cons c value =>
          by_cases hcolon : c = ':'
          · subst hcolon
            by_cases hvalue : value = []
            · simp [hvalue]
            · simp [hvalue]
          · simp [hcolon]
      · rfl

/-- Frontmatter that does not parse is not blank. -/
theorem notBlank_of_broken {text : Text} {e : FrontmatterError} {s : Split}
    (hbroken : Notes.parse env.lib.yaml text = .error (.frontmatter e)) (hsplit : split text = .ok s) :
    s.block.notBlank = true := by
  refine Decidable.byContradiction fun hblank => ?_
  have hempty : parseBlock env.lib.yaml s.block = .ok .empty := if_neg hblank
  rw [Notes.parse, hsplit] at hbroken
  change (parseBlock env.lib.yaml s.block).bind _ = _ at hbroken
  rw [hempty] at hbroken
  cases hbroken

/-- Frontmatter that does not parse is behind a delimiter. -/
theorem opens_of_broken {text : Text} {e : FrontmatterError}
    (hbroken : Notes.parse env.lib.yaml text = .error (.frontmatter e)) :
    ['-', '-', '-'].isPrefixOf text = true := by
  cases hopening : opening? text with
  | none =>
    have hsplit : split text = .ok ⟨[], text, none⟩ := by rw [split, hopening]
    have hblank := notBlank_of_broken env hbroken hsplit
    cases hblank
  | some rest =>
    unfold opening? at hopening
    split at hopening
    · simp
    · cases hopening

/-- A broken file is read as another note's where its first line for an identity says so. -/
theorem recoverId_ne_iff {text : Text} {id : NoteId} {e : FrontmatterError}
    (hbroken : Notes.parse env.lib.yaml text = .error (.frontmatter e)) :
    (recoverId env text).any (· ≠ id) = true ↔ ReadElsewhere env text id := by
  rw [recoverId_eq]
  unfold ReadElsewhere
  constructor
  · intro h
    cases hsplit : split text with
    | error e => rw [hsplit] at h; cases h
    | ok s =>
      simp only [hsplit, notBlank_of_broken env hbroken hsplit, Bool.not_true, Bool.false_eq_true,
        if_false] at h
      cases hfound : (bareLines s.block).findSome? (idOfLine env.schema.roles.idKey) with
      | none => rw [hfound] at h; cases h
      | some value =>
        obtain ⟨before, line, after, hlines, hline, hbefore⟩ := List.findSome?_eq_some_iff.1 hfound
        refine ⟨s, before, line, after, value, rfl, hlines, ?_, idOfLine_eq_some_iff.1 hline, ?_⟩
        · intro l hl
          exact idOfLine_eq_none_iff.1 (hbefore l hl)
        · simpa [hfound] using h
  · rintro ⟨s, before, line, after, value, hsplit, hlines, hbefore, hline, hne⟩
    have hfound : (bareLines s.block).findSome? (idOfLine env.schema.roles.idKey) = some value := by
      refine List.findSome?_eq_some_iff.2
        ⟨before, line, after, hlines, idOfLine_eq_some_iff.2 hline, ?_⟩
      intro l hl
      exact idOfLine_eq_none_iff.2 (hbefore l hl)
    simp only [hsplit, notBlank_of_broken env hbroken hsplit, hfound]
    simpa using hne

/-- The reconciler recovers the identity that the only plain line names. -/
theorem identityFromBroken_eq_some_iff {text : Text} {id : NoteId}
    (hopen : ['-', '-', '-'].isPrefixOf text = true) :
    identityFromBroken text env.schema = some id ↔ PlainlyNames env text id := by
  unfold identityFromBroken PlainlyNames
  rw [if_pos hopen]
  dsimp only
  constructor
  · intro h
    split at h
    · next value hvalues =>
      change (scannedLines text).filterMap (identityOfLine env.schema.roles.idKey) = [value] at hvalues
      obtain ⟨before, line, after, hlines, hbefore, hline, hafter⟩ :=
        List.filterMap_eq_cons_iff.1 hvalues
      refine ⟨before, line, after, value, hlines, identityOfLine_eq_some_iff.1 hline, ?_,
        Option.some.inj h⟩
      intro l hl
      apply identityOfLine_eq_none_iff.1
      exact (List.mem_append.1 hl).elim (hbefore l) (List.filterMap_eq_nil_iff.1 hafter l)
    · cases h
  · rintro ⟨before, line, after, value, hlines, hline, hothers, rfl⟩
    have hvalues : (scannedLines text).filterMap (identityOfLine env.schema.roles.idKey) = [value] := by
      refine List.filterMap_eq_cons_iff.2 ⟨before, line, after, hlines, ?_,
        identityOfLine_eq_some_iff.2 hline, List.filterMap_eq_nil_iff.2 ?_⟩
      · intro l hl
        exact identityOfLine_eq_none_iff.2 (hothers l (List.mem_append_left _ hl))
      · intro l hl
        exact identityOfLine_eq_none_iff.2 (hothers l (List.mem_append_right _ hl))
    rw [scannedLines, delimiter] at hvalues
    rw [hvalues]

/-- What an observation says of a note. -/
def namedBy (observed : Observed) : Option NoteId :=
  match observed with
  | .observation o => some o.noteId
  | _ => none

/-- What the reconciler makes of the file at a path. -/
def observedAt (index : Index) (path : NotePath) (fileName : PyStr) (text : Text) (mtime : Int) :
    Observed :=
  Reconciler.observe env.lib env.schema index (PyStr.ofText (pathText path)) fileName (.utf8 text)
    none mtime (index.byPath (PyStr.ofText (pathText path)))

variable {env} {w : World} {id : NoteId} {row : NoteRow} {text : Text} {e : FrontmatterError}

/-- A read of a note whose recorded file is broken, where no file carries its identity. -/
theorem getNote_broken (r : Reading) (hrow : w.rows.lookup id = some row)
    (hfile : w.file? row.path = some (.utf8 text))
    (hbroken : Notes.parse env.lib.yaml text = .error (.frontmatter e))
    (hfollowed : followed env id w = []) :
    ((run (getNote env id r) w).1 = .error .notFound ↔
        isGone row = true ∨ ReadElsewhere env text id) ∧
      ((run (getNote env id r) w).1 = .error .noteUnparseable ↔
        isGone row = false ∧ ¬ReadElsewhere env text id) := by
  rw [← recoverId_ne_iff env hbroken]
  cases hgone : isGone row with
  | true =>
    have hrun : (run (getNote env id r) w).1 = .error .notFound := by
      simp [getNote, locate, run_bind, hrow, hgone]
    simp [hrun]
  | false =>
    have hparse : parseNote env id (.utf8 text) =
        if (recoverId env text).any (· ≠ id) then .error .notFound else .error .noteUnparseable := by
      rw [parseNote, hbroken]
    cases helsewhere : (recoverId env text).any (· ≠ id) with
    | true =>
      have hrun : (run (getNote env id r) w).1 = .error .notFound := by
        rw [helsewhere, if_pos rfl] at hparse
        simp [getNote, locate, readFile, documentAt, follow, run_bind, hrow, hgone, hfile, hparse,
          hfollowed]
      simp [hrun]
    | false =>
      have hrun : (run (getNote env id r) w).1 = .error .noteUnparseable := by
        rw [helsewhere, if_neg Bool.false_ne_true] at hparse
        simp [getNote, locate, readFile, documentAt, run_bind, hrow, hgone, hfile, hparse]
      simp [hrun]

/-- Exactly one live row of the mirror records a path, and it is this note's. -/
def Claims (index : Index) (path : NotePath) (id : NoteId) : Prop :=
  ∃ entry, index.occupants (PyStr.ofText (pathText path)) = [entry] ∧ entry.noteId = id

/-- The only plain line names a note the mirror knows. -/
def PlainlyKnown (env : Env) (index : Index) (text : Text) (id : NoteId) : Prop :=
  PlainlyNames env text id ∧ index.knows id = true

theorem claims_iff {index : Index} {path : NotePath} {y : NoteId} :
    Claims index path y ↔
      ∃ entry, index.byPath (PyStr.ofText (pathText path)) = some entry ∧ entry.noteId = y := by
  unfold Claims Index.byPath
  constructor
  · rintro ⟨entry, hentry, rfl⟩
    exact ⟨entry, by rw [hentry], rfl⟩
  · rintro ⟨entry, hentry, rfl⟩
    split at hentry
    · next found hfound =>
      obtain rfl := Option.some.inj hentry
      exact ⟨found, hfound, rfl⟩
    · cases hentry

/-- The note the observation of a broken file is of: the one its only plain line names, if the
mirror knows it, else the one whose row alone records the path. -/
theorem namedBy_observedAt {index : Index} {path : NotePath} {fileName : PyStr} {mtime : Int}
    (hopen : ['-', '-', '-'].isPrefixOf text = true) {y : NoteId} :
    namedBy (observedAt env index path fileName text mtime) = some y ↔
      PlainlyKnown env index text y ∨
        (∀ z, ¬PlainlyKnown env index text z) ∧ Claims index path y := by
  simp only [PlainlyKnown, ← identityFromBroken_eq_some_iff env hopen, claims_iff]
  have hclaimed (hunknown : ∀ z, ¬(identityFromBroken text env.schema = some z ∧
      index.knows z = true)) (observed : Observed)
      (hobserved : namedBy observed =
        (index.byPath (PyStr.ofText (pathText path))).map (·.noteId)) :
      namedBy observed = some y ↔
        identityFromBroken text env.schema = some y ∧ index.knows y = true ∨
        (∀ z, ¬(identityFromBroken text env.schema = some z ∧ index.knows z = true)) ∧
          ∃ entry, index.byPath (PyStr.ofText (pathText path)) = some entry ∧ entry.noteId = y := by
    rw [or_iff_right (hunknown y), and_iff_right hunknown, hobserved, Option.map_eq_some_iff]
  unfold observedAt Reconciler.observe
  dsimp only [Reconciler.brokenIdentity]
  cases hid : identityFromBroken text env.schema with
  | none =>
    dsimp only
    refine hid ▸ hclaimed (by simp [hid]) _ ?_
    cases index.byPath (PyStr.ofText (pathText path)) <;> rfl
  | some z =>
    dsimp only
    cases hknown : index.knows z with
    | true =>
      rw [if_pos rfl]
      constructor
      · intro h
        obtain rfl : z = y := Option.some.inj h
        exact Or.inl ⟨rfl, hknown⟩
      · rintro (⟨h, -⟩ | ⟨h, -⟩)
        · obtain rfl := Option.some.inj h
          rfl
        · exact absurd ⟨rfl, hknown⟩ (h z)
    | false =>
      rw [if_neg Bool.false_ne_true]
      refine hid ▸ hclaimed (by simp [hid, hknown]) _ ?_
      cases index.byPath (PyStr.ofText (pathText path)) <;> rfl

/-- The read of a note answers that it is not there just where the reconciler takes the broken file
at its recorded path for another note's, and that it is broken just where it takes it for this
one's. -/
def AttributedAlike (env : Env) (r : Reading) (w : World) (id : NoteId) (observed : Observed) :
    Prop :=
  ((run (getNote env id r) w).1 = .error .notFound ↔ ∃ y, y ≠ id ∧ namedBy observed = some y) ∧
    ((run (getNote env id r) w).1 = .error .noteUnparseable ↔ namedBy observed = some id)

/-- **Broken notes**: a read and the reconciler agree whose note a broken file is in these cases.
One plain line and no other names a known note, and another than this one; and where the row is
live, the first line for an identity in the block, which is closed, names another note as well.  Or
the row is live, the block is never closed or its first line for an identity, if it has one, names
this note; and one plain line and no other names it too, or it is the only live row there and no
plain line alone names a known note.  Or no plain line alone names a known note, another note's row
is the only live one there, and the read takes the file for another's or the row is gone. -/
theorem broken_attributed_alike_iff (r : Reading) (purging : List NoteId) (fileName : PyStr)
    (mtime : Int) (hrow : w.rows.lookup id = some row)
    (hfile : w.file? row.path = some (.utf8 text))
    (hbroken : Notes.parse env.lib.yaml text = .error (.frontmatter e))
    (hfollowed : followed env id w = []) :
    AttributedAlike env r w id (observedAt env (w.index purging) row.path fileName text mtime) ↔
      (∃ y, y ≠ id ∧ PlainlyKnown env (w.index purging) text y) ∧
          (isGone row = false → ReadElsewhere env text id) ∨
        isGone row = false ∧ ¬ReadElsewhere env text id ∧
          (PlainlyKnown env (w.index purging) text id ∨
            (∀ y, ¬PlainlyKnown env (w.index purging) text y) ∧
              Claims (w.index purging) row.path id) ∨
        (∀ y, ¬PlainlyKnown env (w.index purging) text y) ∧
          (isGone row = false → ReadElsewhere env text id) ∧
          ∃ y, y ≠ id ∧ Claims (w.index purging) row.path y := by
  have hopen := opens_of_broken env hbroken
  obtain ⟨hmissing, hunparseable⟩ := getNote_broken r hrow hfile hbroken hfollowed
  generalize w.index purging = index
  unfold AttributedAlike
  rw [hmissing, hunparseable]
  simp only [namedBy_observedAt hopen]
  have hunique : ∀ y z, PlainlyKnown env index text y ∨
      (∀ x, ¬PlainlyKnown env index text x) ∧ Claims index row.path y →
      PlainlyKnown env index text z ∨
      (∀ x, ¬PlainlyKnown env index text x) ∧ Claims index row.path z → y = z := by
    intro y z hy hz
    simp only [← @namedBy_observedAt _ _ _ _ fileName mtime hopen] at hy hz
    exact Option.some.inj (hy.symm.trans hz)
  by_cases hown : isGone row = false ∧ ¬ReadElsewhere env text id
  · obtain ⟨hlive, hhere⟩ := hown
    simp only [hlive, hhere, Bool.false_eq_true, or_false, false_iff, not_false_eq_true, and_self,
      true_iff, imp_false, not_true_eq_false, and_false, false_and, true_and, false_or]
    constructor
    · rintro ⟨-, h⟩
      exact h
    · intro h
      refine ⟨?_, h⟩
      rintro ⟨y, hne, hy⟩
      exact hne (hunique y id hy h)
  · have hmiss : isGone row = true ∨ ReadElsewhere env text id := by
      rwa [not_and_or, not_not, Bool.not_eq_false] at hown
    have helsewhere : isGone row = false → ReadElsewhere env text id := by
      intro hlive
      rw [hlive] at hmiss
      exact hmiss.resolve_left Bool.false_ne_true
    rw [iff_true_left hmiss, iff_false_left hown]
    constructor
    · rintro ⟨⟨y, hne, hy | ⟨hnone, hy⟩⟩, -⟩
      · exact Or.inl ⟨⟨y, hne, hy⟩, helsewhere⟩
      · exact Or.inr (Or.inr ⟨hnone, helsewhere, y, hne, hy⟩)
    · rintro (⟨⟨y, hne, hy⟩, -⟩ | ⟨hlive, hhere, -⟩ | ⟨hnone, -, y, hne, hy⟩)
      · exact ⟨⟨y, hne, Or.inl hy⟩, fun h => hne (hunique y id (Or.inl hy) h)⟩
      · exact absurd ⟨hlive, hhere⟩ hown
      · exact ⟨⟨y, hne, Or.inr ⟨hnone, hy⟩⟩,
          fun h => hne (hunique y id (Or.inr ⟨hnone, hy⟩) h)⟩

end Readings

section Quotes

/-- YAML that refuses a block with a quote left open. -/
def openQuoteYaml : RoundTrip :=
  { sampleFiling.lib.yaml with
    load := fun block =>
      if block.count '"' % 2 = 1 then .error (.yamlError "ScannerError" "unexpected end" none)
      else sampleFiling.lib.yaml.load block }

def quoteFiling : Env := { sampleFiling with lib := { sampleFiling.lib with yaml := openQuoteYaml } }

/-- The one note of the mirror, broken at its recorded path: a quote is left open around the
identity, or behind it. -/
def brokenText (line : String) : Text := ("---\nid: ".toList ++ line.toList ++ "\n---\nhello\n".toList)

def brokenWorld (text : Text) : World :=
  { sampleWorld with notes := [⟨samplePath, .file (.utf8 text)⟩].toAList }

def openedText : Text := brokenText "\"01ARZ3NDEKTSV4RRFFQ69G5FAW"

def trailingText : Text := brokenText "01ARZ3NDEKTSV4RRFFQ69G5FAW\ntitle: \"open"

theorem brokenWorld_row (text : Text) : (brokenWorld text).rows.lookup sampleNote =
    some ⟨samplePath, sampleFiling.lib.hash sampleText, true, false, .ok, [], []⟩ := by
  change sampleWorld.rows.lookup sampleNote = _
  decide +kernel

theorem brokenWorld_file (text : Text) :
    (brokenWorld text).file? samplePath = some (.utf8 text) := by
  simp [World.file?, brokenWorld]

/-- What the YAML library says of a quote left open. -/
def openQuote : FrontmatterError := ⟨"unexpected end", "scanner", none, none⟩

/-- The text does not parse, and no file carries the note's identity. -/
def isBroken (text : Text) : Bool :=
  (match Notes.parse quoteFiling.lib.yaml text with
    | .error (.frontmatter e) => e == openQuote
    | _ => false) && followed quoteFiling sampleNote (brokenWorld text) == []

theorem broken_of_isBroken {text : Text} (h : isBroken text = true) :
    Notes.parse quoteFiling.lib.yaml text = .error (.frontmatter openQuote) ∧
      followed quoteFiling sampleNote (brokenWorld text) = [] := by
  rw [isBroken, Bool.and_eq_true, beq_iff_eq] at h
  refine ⟨?_, h.2⟩
  have hparse := h.1
  split at hparse
  · next e he => rw [he, beq_iff_eq.1 hparse]
  · cases hparse

theorem trailingText_broken : isBroken trailingText = true := by decide +kernel

theorem openedText_broken : isBroken openedText = true := by decide +kernel

def quoteIndex (text : Text) : Index := (brokenWorld text).index []

theorem broken_attributed_alike_sample :
    AttributedAlike quoteFiling .first (brokenWorld trailingText) sampleNote
      (observedAt quoteFiling (quoteIndex trailingText) samplePath [] trailingText 0) := by
  obtain ⟨hbroken, hfollowed⟩ := broken_of_isBroken trailingText_broken
  refine (broken_attributed_alike_iff .first [] [] 0 (brokenWorld_row _) (brokenWorld_file _) hbroken
    hfollowed).2 (Or.inr (Or.inl ⟨rfl, ?_, Or.inl ⟨?_, ?_⟩⟩))
  · rw [← recoverId_ne_iff quoteFiling hbroken]
    decide +kernel
  · rw [← identityFromBroken_eq_some_iff quoteFiling (opens_of_broken quoteFiling hbroken)]
    decide +kernel
  · decide +kernel

def isNotFound {α : Type} : Except Raised α → Bool
  | .error .notFound => true
  | _ => false

theorem eq_notFound {α : Type} {result : Except Raised α} (h : isNotFound result = true) :
    result = .error .notFound := by
  unfold isNotFound at h
  split at h
  · rfl
  · cases h

/-- The quote that is open is taken for a part of the identity by the read, which does not find the
note, and for a quote by the reconciler. -/
theorem open_quote_not_found :
    ((brokenWorld openedText).rows.lookup sampleNote).isSome = true ∧
      (brokenWorld openedText).file? samplePath = some (.utf8 openedText) ∧
      isBroken openedText = true ∧
      ¬AttributedAlike quoteFiling .first (brokenWorld openedText) sampleNote
        (observedAt quoteFiling (quoteIndex openedText) samplePath [] openedText 0) := by
  refine ⟨by decide +kernel, brokenWorld_file _, openedText_broken, ?_⟩
  intro h
  have hread : isNotFound (run (getNote quoteFiling sampleNote .first) (brokenWorld openedText)).1 =
      true := by decide +kernel
  have hnamed : namedBy (observedAt quoteFiling (quoteIndex openedText) samplePath [] openedText 0) =
      some sampleNote := by decide +kernel
  have hnotFound : (run (getNote quoteFiling sampleNote .first) (brokenWorld openedText)).1 =
      .error .notFound := eq_notFound hread
  obtain ⟨y, hne, hy⟩ := h.1.1 hnotFound
  exact hne (Option.some.inj (hy.symm.trans hnamed))

end Quotes

end Coppermind.Filing
