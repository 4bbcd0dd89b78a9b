import Coppermind.Lib.Lines
import Coppermind.Settings.Helper

/-!
# The helper's block in Git's exclude file

`merge_block` takes the managed block out of a person's exclude file and puts the wanted one at the
end.  The block is searched for from the end, by its last begin marker, and the lines are cut where
`str.splitlines` cuts them.  `Mergeable` says which files come through that: every line that is kept
is closed by a line feed, and nothing but the block that is found reads as a block once it is gone.
-/

namespace Coppermind.Git

open Coppermind.Lib Coppermind.Lib.PyStr
open Coppermind.Schema (stripStr isWhite)
open Coppermind.Settings (HelperSettings keptOut)

section Model

def excludeBegin : PyStr :=
  lit "# BEGIN coppermind-git: rewritten by the helper, keep your own rules outside"

def excludeEnd : PyStr := lit "# END coppermind-git"

def tempFiles : PyStr := lit ".*.tmp"

/-- `_escape`. -/
def escape (name : PyStr) : PyStr :=
  name.flatMap fun c => if c ∈ lit "\\*?[]!# " then [0x5c, c] else [c]

/-- `exclude_block`. -/
def excludeBlock (settings : HelperSettings) : PyStr :=
  let rules := (keptOut settings).map fun name => [slash] ++ escape name ++ [slash]
  [lf].intercalate ([excludeBegin] ++ rules ++ [tempFiles, excludeEnd])

/-- Where the managed block begins and ends: at the last begin marker, if an end marker follows. -/
def managed? (lines : List PyStr) : Option (Nat × Nat) :=
  if excludeBegin ∈ lines then
    let start := lines.length - 1 - lines.reverse.idxOf excludeBegin
    if excludeEnd ∈ lines.drop start then
      some (start, start + (lines.drop start).idxOf excludeEnd)
    else none
  else none

/-- `lines[:start] + lines[end + 1 :]`, where `lines` has a managed block. -/
def withoutManaged {α : Type} (lines : List PyStr) (l : List α) : List α :=
  match managed? lines with
  | some (start, stop) => l.take start ++ l.drop (stop + 1)
  | none => l

/-- `not line.strip()`. -/
def isBlank (line : PyStr) : Bool := stripStr line = []

/-- `merge_block`. -/
def mergeBlock (existing block : PyStr) : PyStr :=
  let lines := splitlines existing
  let lines := withoutManaged lines lines
  let lines := lines.rdropWhile isBlank
  (if lines ≠ [] then [lf].intercalate (lines ++ [[], block]) else block) ++ [lf]

end Model

section Statement

/-- The lines outside the managed block, up to the last that is not blank. -/
def keptLines (existing : PyStr) : List Line :=
  (withoutManaged (splitlines existing) (linesOf existing)).rdropWhile (isBlank ·.content)

/-- Lines as they stand, the last closed by a line feed where nothing closed it. -/
def asTheyStand (lines : List Line) : PyStr :=
  lines.flatMap fun line => if line.ending = [] then line.content ++ [lf] else line.text

/-- How many complete blocks there are: a begin marker, lines that are no markers, an end marker.
`opened` says whether a begin marker is the last marker before. -/
def blocksFrom (opened : Bool) : List PyStr → Nat
  | [] => 0
  | line :: lines =>
    if line = excludeBegin then blocksFrom true lines
    else if line = excludeEnd then opened.toNat + blocksFrom false lines
    else blocksFrom opened lines

def completeBlocks (text : PyStr) : Nat := blocksFrom false (splitlines text)

/-- The text after a merge for each of some settings. -/
def mergedAll (existing : PyStr) (earlier : List HelperSettings) : PyStr :=
  earlier.foldl (fun text settings => mergeBlock text (excludeBlock settings)) existing

/-- A merge does what it is for, whatever merges came before it. -/
structure Merges (existing : PyStr) (earlier : List HelperSettings) (settings : HelperSettings) :
    Prop where
  keeps : mergeBlock existing (excludeBlock settings) =
    asTheyStand (keptLines existing) ++ (if keptLines existing = [] then [] else [lf]) ++
      excludeBlock settings ++ [lf]
  ends : ∃ before, mergeBlock existing (excludeBlock settings) =
    before ++ excludeBlock settings ++ [lf] ∧ (before = [] ∨ before.getLast? = some lf)
  one : completeBlocks existing ≤ 1 →
    completeBlocks (mergeBlock existing (excludeBlock settings)) = 1
  again : mergeBlock (mergeBlock existing (excludeBlock settings)) (excludeBlock settings) =
    mergeBlock existing (excludeBlock settings)
  lastWins : mergeBlock (mergedAll existing earlier) (excludeBlock settings) =
    mergeBlock existing (excludeBlock settings)

/-- The last begin marker is closed, and around the block it begins there is no other pair. -/
def Closed (lines : List PyStr) : Prop :=
  ∃ before inside after, lines = before ++ excludeBegin :: (inside ++ excludeEnd :: after) ∧
    excludeBegin ∉ inside ++ after ∧ excludeEnd ∉ inside ∧
    (excludeBegin ∉ before ∨ excludeEnd ∉ after)

/-- What an exclude file is to be for its merges to be right. -/
structure Mergeable (existing : PyStr) : Prop where
  endings : ∀ line ∈ keptLines existing, line.ending = [lf] ∨ line.ending = []
  closed : completeBlocks existing = 1 → Closed (splitlines existing)

end Statement

section Search

variable {lines before inside after : List PyStr}

theorem begin_ne_end : excludeBegin ≠ excludeEnd := by decide

theorem start_eq (hafter : excludeBegin ∉ after) :
    (before ++ excludeBegin :: after).length - 1 -
      (before ++ excludeBegin :: after).reverse.idxOf excludeBegin = before.length := by
  have hrest : excludeBegin ∉ after.reverse := by simpa using hafter
  rw [List.reverse_append, List.reverse_cons, List.append_assoc, List.idxOf_append_of_notMem hrest,
    List.singleton_append, List.idxOf_cons_self]
  simp

/-- **The block is found** between the last begin marker and the end marker after it. -/
theorem managed?_closed (hbegin : excludeBegin ∉ inside ++ after) (hend : excludeEnd ∉ inside) :
    managed? (before ++ excludeBegin :: (inside ++ excludeEnd :: after)) =
      some (before.length, before.length + (inside.length + 1)) := by
  have hlast : excludeBegin ∉ inside ++ excludeEnd :: after := by
    simp only [List.mem_append, List.mem_cons, not_or] at hbegin ⊢
    exact ⟨hbegin.1, begin_ne_end, hbegin.2⟩
  have hidx : (excludeBegin :: (inside ++ excludeEnd :: after)).idxOf excludeEnd =
      inside.length + 1 := by
    rw [List.idxOf_cons_ne _ begin_ne_end, List.idxOf_append_of_notMem hend, List.idxOf_cons_self,
      Nat.add_zero]
  unfold managed?
  simp only [start_eq hlast, List.drop_left, hidx]
  rw [if_pos (by simp), if_pos (by simp)]

theorem managed?_open (hbegin : excludeBegin ∉ after) (hend : excludeEnd ∉ after) :
    managed? (before ++ excludeBegin :: after) = none := by
  unfold managed?
  simp only [start_eq hbegin, List.drop_left]
  rw [if_pos (by simp), if_neg]
  simp only [List.mem_cons, not_or]
  exact ⟨begin_ne_end.symm, hend⟩

theorem managed?_absent (h : excludeBegin ∉ lines) : managed? lines = none := by
  rw [managed?, if_neg h]

theorem exists_last {x : PyStr} (h : x ∈ lines) :
    ∃ before after, lines = before ++ x :: after ∧ x ∉ after := by
  obtain ⟨after, before, heq, hnot⟩ := List.eq_append_cons_of_mem (List.mem_reverse.2 h)
  refine ⟨before.reverse, after.reverse, ?_, by simpa using hnot⟩
  rw [← List.reverse_reverse lines, heq]
  simp

/-- The markers of a file: none begins, the last that begins is open, or it is closed. -/
theorem markers_cases (lines : List PyStr) :
    excludeBegin ∉ lines ∨
    (∃ before after, lines = before ++ excludeBegin :: after ∧ excludeBegin ∉ after ∧
      excludeEnd ∉ after) ∨
    ∃ before inside after, lines = before ++ excludeBegin :: (inside ++ excludeEnd :: after) ∧
      excludeBegin ∉ inside ++ after ∧ excludeEnd ∉ inside := by
  by_cases hbegin : excludeBegin ∈ lines
  · right
    obtain ⟨before, rest, rfl, hlast⟩ := exists_last hbegin
    by_cases hend : excludeEnd ∈ rest
    · right
      obtain ⟨inside, after, rfl, hfirst⟩ := List.eq_append_cons_of_mem hend
      refine ⟨before, inside, after, rfl, ?_, hfirst⟩
      simp only [List.mem_append, List.mem_cons, not_or] at hlast ⊢
      exact ⟨hlast.1, hlast.2.2⟩
    · exact Or.inl ⟨before, rest, rfl, hlast, hend⟩
  · exact Or.inl hbegin

theorem withoutManaged_closed (hbegin : excludeBegin ∉ inside ++ after)
    (hend : excludeEnd ∉ inside)
    (hlines : lines = before ++ excludeBegin :: (inside ++ excludeEnd :: after)) :
    withoutManaged lines lines = before ++ after := by
  subst hlines
  unfold withoutManaged
  rw [managed?_closed hbegin hend]
  have hdrop : before.length + (inside.length + 1) + 1 =
      (before ++ excludeBegin :: (inside ++ [excludeEnd])).length := by
    simp only [List.length_append, List.length_cons, List.length_nil]
    omega
  have hsplit : before ++ excludeBegin :: (inside ++ excludeEnd :: after) =
      (before ++ excludeBegin :: (inside ++ [excludeEnd])) ++ after := by
    simp
  dsimp only
  rw [List.take_left, hdrop, hsplit, List.drop_left]

theorem withoutManaged_of_none {α : Type} (h : managed? lines = none) (l : List α) :
    withoutManaged lines l = l := by
  rw [withoutManaged, h]

theorem map_withoutManaged {α β : Type} (f : α → β) (l : List α) :
    (withoutManaged lines l).map f = withoutManaged lines (l.map f) := by
  unfold withoutManaged
  cases managed? lines with
  | none => rfl
  | some found => rw [List.map_append, List.map_take, List.map_drop]

theorem mem_of_mem_withoutManaged {α : Type} {l : List α} {a : α}
    (h : a ∈ withoutManaged lines l) : a ∈ l := by
  unfold withoutManaged at h
  cases hm : managed? lines with
  | none => rwa [hm] at h
  | some found =>
    rw [hm] at h
    obtain h | h := List.mem_append.1 h
    · exact List.mem_of_mem_take h
    · exact List.mem_of_mem_drop h

end Search

section Text

variable {existing block : PyStr}

theorem map_rdropWhile {α β : Type} (f : α → β) (p : β → Bool) (l : List α) :
    (l.rdropWhile fun a => p (f a)).map f = (l.map f).rdropWhile p := by
  unfold List.rdropWhile
  rw [List.map_reverse, ← List.map_reverse (f := f) (l := l), List.dropWhile_map]
  rfl

/-- The texts of the kept lines are what `merge_block` keeps. -/
theorem content_keptLines (existing : PyStr) : (keptLines existing).map (·.content) =
    (withoutManaged (splitlines existing) (splitlines existing)).rdropWhile isBlank := by
  have hmap := map_rdropWhile Line.content isBlank
    (withoutManaged (splitlines existing) (linesOf existing))
  rw [map_withoutManaged] at hmap
  exact hmap

theorem wellFormed_keptLines {line : Line} (h : line ∈ keptLines existing) : line.WellFormed :=
  wellFormed_of_mem (mem_of_mem_withoutManaged ((List.rdropWhile_prefix _ _).subset h))

/-- What stands in the text before the block. -/
def opening (existing : PyStr) : List PyStr :=
  if keptLines existing = [] then [] else (keptLines existing).map (·.content) ++ [[]]

theorem noBreak_opening {line : PyStr} (h : line ∈ opening existing) :
    ∀ c ∈ line, isLineBreak c = false := by
  unfold opening at h
  split at h
  · cases h
  · obtain h | h := List.mem_append.1 h
    · obtain ⟨kept, hkept, rfl⟩ := List.mem_map.1 h
      exact (wellFormed_keptLines hkept).content
    · obtain rfl := List.mem_singleton.1 h
      intro c hc
      cases hc

/-- **The text of a merge**: lines closed by line feeds, and the block. -/
theorem mergeBlock_eq (existing block : PyStr) :
    mergeBlock existing block = (opening existing).flatMap (· ++ [lf]) ++ (block ++ [lf]) := by
  unfold mergeBlock opening
  simp only [← content_keptLines]
  by_cases hkept : keptLines existing = []
  · simp [hkept]
  · rw [if_pos (by simpa using hkept), if_neg hkept, intercalate_lf_append (by simp)]
    simp

/-- **The lines of a merge**: what was kept, and the lines of the block. -/
theorem splitlines_mergeBlock (existing block : PyStr) :
    splitlines (mergeBlock existing block) = opening existing ++ splitlines (block ++ [lf]) := by
  rw [mergeBlock_eq, splitlines_flatMap fun line hline => noBreak_opening hline]

theorem isBlank_nil : isBlank [] = true := by decide

/-- What was kept is kept again. -/
theorem rdropWhile_opening (existing : PyStr) :
    (opening existing).rdropWhile isBlank = (keptLines existing).map (·.content) := by
  unfold opening
  split
  · next hkept => rw [hkept]; rfl
  · rw [List.rdropWhile_concat_pos _ _ _ isBlank_nil, content_keptLines, List.rdropWhile_idempotent]

end Text

section Block

def hash : Nat := 0x23

/-- No line but the first begins with the mark of a comment. -/
def PlainTail (s : PyStr) : Prop := ∀ line ∈ (splitlines s).tail, line.head? ≠ some hash

def Plain (s : PyStr) : Prop := ∀ line ∈ splitlines s, line.head? ≠ some hash

variable {s : PyStr} {c : Nat}

theorem Plain.tail (h : Plain s) : PlainTail s := fun line hline => h line (List.mem_of_mem_tail hline)

theorem splitlines_noBreak (hc : isLineBreak c = false) :
    ∃ first, splitlines (c :: s) = (c :: first) :: (splitlines s).tail := by
  rw [splitlines, splitlines, linesOf_noBreak hc]
  cases linesOf s with
  | nil => exact ⟨[], rfl⟩
  | cons line lines => exact ⟨line.content, rfl⟩

theorem PlainTail.cons (hc : isLineBreak c = false) (h : PlainTail s) : PlainTail (c :: s) := by
  obtain ⟨first, hlines⟩ := @splitlines_noBreak s c hc
  intro line hline
  rw [hlines] at hline
  exact h line hline

theorem PlainTail.plain (hc : isLineBreak c = false) (hhash : c ≠ hash) (h : PlainTail s) :
    Plain (c :: s) := by
  obtain ⟨first, hlines⟩ := @splitlines_noBreak s c hc
  intro line hline
  rw [hlines] at hline
  obtain rfl | hline := List.mem_cons.1 hline
  · simpa using hhash
  · exact h line hline

theorem Plain.cons (hhash : c ≠ hash) (h : Plain s) : Plain (c :: s) := by
  obtain ⟨rfl, s', rfl⟩ | ⟨hbreak, hcut⟩ | hbreak := cons_cases c s
  · intro line hline
    rw [splitlines, linesOf_crlf] at hline
    obtain rfl | hline := List.mem_cons.1 hline
    · simp
    · apply h
      rw [splitlines, linesOf_lf_cons]
      exact List.mem_cons_of_mem _ hline
  · intro line hline
    rw [splitlines, linesOf_break hbreak hcut] at hline
    obtain rfl | hline := List.mem_cons.1 hline
    · simp
    · exact h line hline
  · exact h.tail.plain hbreak hhash

/-- **No rule reads as a marker**: a number sign in a name stands behind a backslash. -/
theorem plain_escape (name : PyStr) (h : Plain s) : Plain (escape name ++ s) := by
  induction name with
  | nil => exact h
  | cons c name ih =>
    rw [escape, List.flatMap_cons, List.append_assoc]
    by_cases hc : c ∈ lit "\\*?[]!# "
    · rw [if_pos hc]
      have hbreak : ∀ d ∈ lit "\\*?[]!# ", isLineBreak d = false := by decide
      exact (ih.tail.cons (hbreak c hc)).plain (by decide) (by decide)
    · rw [if_neg hc]
      apply ih.cons
      rintro rfl
      exact hc (by decide)

theorem Plain.append_lf {t : PyStr} (h : Plain (t ++ [lf])) (hs : Plain s) :
    Plain ((t ++ [lf]) ++ s) := by
  intro line hline
  rw [List.append_assoc, List.singleton_append, splitlines_append_lf] at hline
  obtain hline | hline := List.mem_append.1 hline
  · exact h line hline
  · exact hs line hline

theorem plain_rules (names : List PyStr) (h : Plain s) :
    Plain ((names.map fun name => [slash] ++ escape name ++ [slash]).flatMap (· ++ [lf]) ++ s) := by
  induction names with
  | nil => exact h
  | cons name names ih =>
    rw [List.map_cons, List.flatMap_cons, List.append_assoc]
    apply Plain.append_lf ?_ ih
    rw [List.append_assoc, List.append_assoc, List.singleton_append]
    apply Plain.cons (by decide)
    apply plain_escape
    intro line hline
    rw [show [slash] ++ [lf] = [slash] ++ lf :: [] from rfl, splitlines_line (by decide)] at hline
    obtain rfl := List.mem_singleton.1 hline
    decide

/-- **The lines of the block**: its two markers, and between them lines that are none. -/
theorem splitlines_excludeBlock (settings : HelperSettings) : ∃ inside,
    splitlines (excludeBlock settings ++ [lf]) = excludeBegin :: (inside ++ [excludeEnd]) ∧
      excludeBegin ∉ inside ∧ excludeEnd ∉ inside := by
  have htemp : Plain (tempFiles ++ [lf]) := by
    intro line hline
    rw [splitlines_line (by decide)] at hline
    obtain rfl := List.mem_singleton.1 hline
    decide
  have hplain := plain_rules (keptOut settings) htemp
  refine ⟨_, ?_, fun h => hplain _ h (by decide), fun h => hplain _ h (by decide)⟩
  rw [excludeBlock, intercalate_lf_append (by simp)]
  simp only [List.cons_append, List.nil_append, List.flatMap_cons, List.flatMap_append,
    List.flatMap_nil, List.append_assoc, List.append_nil]
  rw [splitlines_line (by decide)]
  congr 1
  have hend : splitlines (excludeEnd ++ [lf]) = [excludeEnd] := by
    rw [splitlines_line (by decide)]
    rfl
  rw [← List.append_assoc, splitlines_append_lf, hend, List.append_assoc]

end Block

section Count

variable {lines before after : List PyStr} {opened : Bool}

/-- Whether the last marker of some lines is a begin marker. -/
def openAfter (opened : Bool) : List PyStr → Bool
  | [] => opened
  | line :: lines =>
    if line = excludeBegin then openAfter true lines
    else if line = excludeEnd then openAfter false lines
    else openAfter opened lines

theorem blocksFrom_append (opened : Bool) (before after : List PyStr) :
    blocksFrom opened (before ++ after) =
      blocksFrom opened before + blocksFrom (openAfter opened before) after := by
  induction before generalizing opened with
  | nil => simp [blocksFrom, openAfter]
  | cons line before ih =>
    rw [List.cons_append, blocksFrom, blocksFrom, openAfter]
    split
    · exact ih true
    · split
      · rw [ih false, Nat.add_assoc]
      · exact ih opened

theorem blocksFrom_unmarked (hbegin : excludeBegin ∉ lines) (hend : excludeEnd ∉ lines) :
    blocksFrom opened lines = 0 ∧ openAfter opened lines = opened := by
  induction lines with
  | nil => exact ⟨rfl, rfl⟩
  | cons line lines ih =>
    simp only [List.mem_cons, not_or] at hbegin hend
    rw [blocksFrom, openAfter, if_neg (Ne.symm hbegin.1), if_neg (Ne.symm hend.1),
      if_neg (Ne.symm hbegin.1), if_neg (Ne.symm hend.1)]
    exact ih hbegin.2 hend.2

theorem blocksFrom_begin (opened : Bool) (lines : List PyStr) :
    blocksFrom opened (excludeBegin :: lines) = blocksFrom true lines := by
  rw [blocksFrom, if_pos rfl]

theorem blocksFrom_end (opened : Bool) (lines : List PyStr) :
    blocksFrom opened (excludeEnd :: lines) = opened.toNat + blocksFrom false lines := by
  rw [blocksFrom, if_neg begin_ne_end.symm, if_pos rfl]

/-- Where no block begins, at most the open one is ended. -/
theorem blocksFrom_noBegin (hbegin : excludeBegin ∉ lines) :
    blocksFrom opened lines = if excludeEnd ∈ lines then opened.toNat else 0 := by
  induction lines generalizing opened with
  | nil => rfl
  | cons line lines ih =>
    simp only [List.mem_cons, not_or] at hbegin
    by_cases hend : line = excludeEnd
    · subst hend
      rw [blocksFrom_end, ih hbegin.2, if_pos List.mem_cons_self]
      split <;> rfl
    · rw [blocksFrom, if_neg (Ne.symm hbegin.1), if_neg hend, ih hbegin.2]
      simp [Ne.symm hend]

/-- Where no block is complete, a begin marker is never closed. -/
theorem openAfter_of_none (h : blocksFrom opened lines = 0) :
    openAfter opened lines = true ↔ opened = true ∨ excludeBegin ∈ lines := by
  induction lines generalizing opened with
  | nil => simp [openAfter]
  | cons line lines ih =>
    by_cases hbegin : line = excludeBegin
    · subst hbegin
      rw [blocksFrom_begin] at h
      rw [openAfter, if_pos rfl, ih h]
      simp
    · by_cases hend : line = excludeEnd
      · subst hend
        rw [blocksFrom_end] at h
        have hopened : opened = false := Bool.toNat_eq_zero.1 (by omega)
        rw [openAfter, if_neg hbegin, if_pos rfl, ih (by omega), hopened]
        simp [begin_ne_end]
      · rw [blocksFrom, if_neg hbegin, if_neg hend] at h
        rw [openAfter, if_neg hbegin, if_neg hend, ih h]
        simp [Ne.symm hbegin]

theorem not_marker_of_isBlank {line : PyStr} (h : isBlank line = true) :
    line ≠ excludeBegin ∧ line ≠ excludeEnd := by
  constructor
  · rintro rfl
    revert h
    decide
  · rintro rfl
    revert h
    decide

theorem blocksFrom_rdropWhile (lines : List PyStr) :
    blocksFrom opened (lines.rdropWhile isBlank) = blocksFrom opened lines := by
  have hblank : ∀ line ∈ lines.rtakeWhile isBlank, isBlank line = true :=
    fun line hline => List.mem_rtakeWhile_imp hline
  have hrest := @blocksFrom_unmarked _ (openAfter opened (lines.rdropWhile isBlank))
    (fun h => (not_marker_of_isBlank (hblank _ h)).1 rfl)
    (fun h => (not_marker_of_isBlank (hblank _ h)).2 rfl)
  conv_rhs => rw [← List.rdropWhile_append_rtakeWhile (p := isBlank) (l := lines)]
  rw [blocksFrom_append, hrest.1, Nat.add_zero]

/-- **One block more** than were left without the managed one. -/
theorem completeBlocks_mergeBlock (existing : PyStr) (settings : HelperSettings) :
    completeBlocks (mergeBlock existing (excludeBlock settings)) =
      blocksFrom false (withoutManaged (splitlines existing) (splitlines existing)) + 1 := by
  obtain ⟨inside, hlines, hbegin, hend⟩ := splitlines_excludeBlock settings
  have hinside := @blocksFrom_unmarked _ true hbegin hend
  have hlast : blocksFrom true [excludeEnd] = 1 := by decide
  rw [completeBlocks, splitlines_mergeBlock, hlines, blocksFrom_append, blocksFrom_begin,
    blocksFrom_append, hinside.1, hinside.2, hlast, Nat.zero_add]
  congr 1
  rw [← blocksFrom_rdropWhile, rdropWhile_opening, content_keptLines, blocksFrom_rdropWhile]

end Count

section Sound

variable {existing : PyStr} {lines before inside after : List PyStr}

/-- What stands behind the last begin marker is one thing. -/
theorem last_unique {before' after' : List PyStr} (h : excludeBegin ∉ after)
    (h' : excludeBegin ∉ after')
    (heq : before ++ excludeBegin :: after = before' ++ excludeBegin :: after') :
    before = before' ∧ after = after' := by
  have hlength : before.length = before'.length := by
    have hstart := @start_eq before after h
    rw [heq, start_eq h'] at hstart
    exact hstart.symm
  obtain ⟨hbefore, hafter⟩ := List.append_inj heq hlength
  exact ⟨hbefore, (List.cons.inj hafter).2⟩

theorem not_closed_of_open (hbegin : excludeBegin ∉ after) (hend : excludeEnd ∉ after) :
    ¬Closed (before ++ excludeBegin :: after) := by
  rintro ⟨before', inside, after', heq, hlast, -, -⟩
  have hlast' : excludeBegin ∉ inside ++ excludeEnd :: after' := by
    simp only [List.mem_append, List.mem_cons, not_or] at hlast ⊢
    exact ⟨hlast.1, begin_ne_end, hlast.2⟩
  obtain ⟨-, rfl⟩ := last_unique hbegin hlast' heq
  exact hend (by simp)

theorem closed_iff (hbegin : excludeBegin ∉ inside ++ after) (hend : excludeEnd ∉ inside) :
    Closed (before ++ excludeBegin :: (inside ++ excludeEnd :: after)) ↔
      excludeBegin ∉ before ∨ excludeEnd ∉ after := by
  have hmarked : ∀ {inside after : List PyStr}, excludeBegin ∉ inside ++ after →
      excludeBegin ∉ inside ++ excludeEnd :: after := by
    intro inside after h
    simp only [List.mem_append, List.mem_cons, not_or] at h ⊢
    exact ⟨h.1, begin_ne_end, h.2⟩
  constructor
  · rintro ⟨before', inside', after', heq, hbegin', hend', hpair⟩
    obtain ⟨rfl, hrest⟩ := last_unique (hmarked hbegin) (hmarked hbegin') heq
    have hlength := congrArg (List.idxOf excludeEnd) hrest
    rw [List.idxOf_append_of_notMem hend, List.idxOf_append_of_notMem hend', List.idxOf_cons_self,
      List.idxOf_cons_self] at hlength
    obtain ⟨-, htail⟩ := List.append_inj hrest hlength
    rwa [(List.cons.inj htail).2]
  · exact fun hpair => ⟨before, inside, after, rfl, hbegin, hend, hpair⟩

/-- **One block**: what the merge leaves has none but its own, if the last begin marker is closed
and no other pair stands around the block it begins. -/
theorem one_iff (existing : PyStr) (settings : HelperSettings) :
    (completeBlocks existing ≤ 1 →
      completeBlocks (mergeBlock existing (excludeBlock settings)) = 1) ↔
    (completeBlocks existing = 1 → Closed (splitlines existing)) := by
  rw [completeBlocks_mergeBlock, completeBlocks]
  obtain hnone | ⟨before, after, hlines, hbegin, hend⟩ |
    ⟨before, inside, after, hlines, hbegin, hend⟩ := markers_cases (splitlines existing)
  · have hcount : blocksFrom false (splitlines existing) = 0 := by
      rw [blocksFrom_noBegin hnone]
      split <;> rfl
    rw [withoutManaged_of_none (managed?_absent hnone), hcount]
    simp
  · rw [hlines, withoutManaged_of_none (managed?_open hbegin hend)]
    have hopen := @not_closed_of_open before _ hbegin hend
    constructor
    · intro h hone
      have := h hone.le
      omega
    · intro h hle
      have hcount : blocksFrom false (before ++ excludeBegin :: after) ≠ 1 := fun h' => hopen (h h')
      omega
  · rw [withoutManaged_closed hbegin hend hlines, hlines, closed_iff hbegin hend]
    have hinside : excludeBegin ∉ inside := fun h => hbegin (List.mem_append_left _ h)
    have hafter : excludeBegin ∉ after := fun h => hbegin (List.mem_append_right _ h)
    have hrest := @blocksFrom_unmarked _ true hinside hend
    have hcount : blocksFrom false (before ++ excludeBegin :: (inside ++ excludeEnd :: after)) =
        blocksFrom false before + 1 := by
      rw [blocksFrom_append, blocksFrom_begin, blocksFrom_append, hrest.1, hrest.2, blocksFrom_end,
        blocksFrom_noBegin hafter]
      split <;> rfl
    rw [hcount, blocksFrom_append, blocksFrom_noBegin hafter]
    by_cases hbefore : blocksFrom false before = 0
    · have hopen := openAfter_of_none hbefore
      rw [hbefore]
      by_cases hend : excludeEnd ∈ after
      · cases hstate : openAfter false before with
        | true => simp [hend, (hopen.1 hstate).resolve_left (by simp)]
        | false =>
          have hnot : excludeBegin ∉ before := by
            intro hmem
            rw [hopen.2 (Or.inr hmem)] at hstate
            cases hstate
          simp [hend, hnot]
      · simp [hend]
    · constructor
      · intro _ hone
        omega
      · intro _ hle
        omega

theorem asTheyStand_iff {lines : List Line} (h : ∀ line ∈ lines, line.WellFormed) :
    (lines.map (·.content)).flatMap (· ++ [lf]) = asTheyStand lines ↔
      ∀ line ∈ lines, line.ending = [lf] ∨ line.ending = [] := by
  induction lines with
  | nil => simp [asTheyStand]
  | cons line lines ih =>
    have hrest := ih fun l hl => h l (List.mem_cons_of_mem _ hl)
    rw [asTheyStand] at hrest ⊢
    rw [List.map_cons, List.flatMap_cons, List.flatMap_cons, List.forall_mem_cons, ← hrest]
    obtain hnone | hcrlf | ⟨c, hc⟩ := (h line List.mem_cons_self).ending
    · simp [hnone]
    · simp [hcrlf, Line.text, lf, cr]
    · simp [hc, Line.text, eq_comm]

theorem keeps_iff (existing block : PyStr) :
    mergeBlock existing block = asTheyStand (keptLines existing) ++
        (if keptLines existing = [] then [] else [lf]) ++ block ++ [lf] ↔
      ∀ line ∈ keptLines existing, line.ending = [lf] ∨ line.ending = [] := by
  rw [← asTheyStand_iff fun line => wellFormed_keptLines, mergeBlock_eq, opening]
  by_cases hkept : keptLines existing = []
  · simp [hkept, asTheyStand]
  · simp only [if_neg hkept, List.flatMap_append, List.append_assoc, List.flatMap_cons,
      List.flatMap_nil, List.nil_append, List.append_cancel_right_eq, List.append_nil]

theorem ends_mergeBlock (existing block : PyStr) : ∃ before,
    mergeBlock existing block = before ++ block ++ [lf] ∧
      (before = [] ∨ before.getLast? = some lf) := by
  refine ⟨_, by rw [mergeBlock_eq, ← List.append_assoc], ?_⟩
  unfold opening
  split
  · exact Or.inl rfl
  · right
    simp

theorem opening_congr {existing existing' : PyStr}
    (h : (keptLines existing).map (·.content) = (keptLines existing').map (·.content)) :
    opening existing = opening existing' := by
  have hnil : keptLines existing = [] ↔ keptLines existing' = [] := by
    rw [← List.map_eq_nil_iff (f := Line.content), ← List.map_eq_nil_iff (f := Line.content)]
    exact iff_of_eq (congrArg (· = []) h)
  unfold opening
  simp only [hnil, h]

/-- **A merge forgets the one before it.** -/
theorem mergeBlock_mergeBlock (existing block : PyStr) (settings : HelperSettings) :
    mergeBlock (mergeBlock existing (excludeBlock settings)) block = mergeBlock existing block := by
  obtain ⟨inside, hblock, hbegin, hend⟩ := splitlines_excludeBlock settings
  have hlines : splitlines (mergeBlock existing (excludeBlock settings)) =
      opening existing ++ excludeBegin :: (inside ++ excludeEnd :: []) := by
    rw [splitlines_mergeBlock, hblock]
  have hkept : (keptLines (mergeBlock existing (excludeBlock settings))).map (·.content) =
      (keptLines existing).map (·.content) := by
    rw [content_keptLines, withoutManaged_closed (by simpa using hbegin) hend hlines,
      List.append_nil, rdropWhile_opening]
  rw [mergeBlock_eq _ block, mergeBlock_eq existing block, opening_congr hkept]

theorem mergeBlock_mergedAll (existing : PyStr) (earlier : List HelperSettings) (block : PyStr) :
    mergeBlock (mergedAll existing earlier) block = mergeBlock existing block := by
  induction earlier generalizing existing with
  | nil => rfl
  | cons settings earlier ih =>
    exact (ih (mergeBlock existing (excludeBlock settings))).trans
      (mergeBlock_mergeBlock existing block settings)

/-- **A person's own rules**: which exclude files a merge is right for, whatever the settings and
whatever was merged before. -/
theorem merges_iff (existing : PyStr) (earlier : List HelperSettings) (settings : HelperSettings) :
    Merges existing earlier settings ↔ Mergeable existing := by
  constructor
  · intro h
    exact ⟨(keeps_iff existing _).1 h.keeps, (one_iff existing settings).1 h.one⟩
  · intro h
    exact ⟨(keeps_iff existing _).2 h.endings, ends_mergeBlock existing _,
      (one_iff existing settings).2 h.closed, mergeBlock_mergeBlock existing _ settings,
      mergeBlock_mergedAll existing earlier _⟩

/-- One rule with a form feed in it, and a block with a begin marker left behind it. -/
def formFeed : PyStr := lit "draft" ++ [0x0c] ++ lit "old.md\n"

def leftBehind : PyStr :=
  [excludeBegin, excludeEnd, excludeBegin].flatMap (· ++ [lf])

/-- The rule comes out as two rules, and the block that was there stays beside the new one. -/
theorem merges_fail : ¬Merges formFeed [] {} ∧ ¬Merges leftBehind [] {} := by
  constructor
  · intro h
    have hkeeps := h.keeps
    revert hkeeps
    decide +kernel
  · intro h
    have hone := h.one
    revert hone
    decide +kernel

end Sound

end Coppermind.Git
