import Coppermind.Lib.Effect
import Mathlib.Logic.Function.Basic

/-!
# How a note's file changes its name

`_move_file`, `_rename_file` and `_replace_if_unchanged` as steps over the names of the notes
filesystem, each of which may raise an `OSError` instead.  A link is the reservation of the new
name: until the old name is gone a failure takes the link back, and once it is gone the new name
is the only copy and stays.
-/

namespace Coppermind.Notes.MoveFile

open Coppermind.Lib

/-- The steps that may raise an `OSError`. -/
inductive Step where
  | stageFolder | stageCreate | stageWrite | reread | moveFolder | link | syncTarget | unlinkOld
  | unlinkStaged | syncOld | replace | syncReplaced
deriving DecidableEq, Repr

inductive Failure where
  | fileExists
  | osError
  /-- The file is not the note's, or not at the version the caller named. -/
  | refused
deriving DecidableEq, Repr

variable {Path Data : Type}

/-- The names of the notes filesystem and the bytes under each. -/
abbrev Names (Path Data : Type) := Path → Option Data

abbrev Op (Path Data α : Type) := EStateM Failure (Names Path Data) α

section Steps

variable (fault : Option Step)

/-- A step that raises if it is the one at fault. -/
def attempt (step : Step) : Op Path Data Unit := raiseIf (fault == some step) .osError

variable [DecidableEq Path]

/-- `os.link`. -/
def link (source target : Path) : Op Path Data Unit := do
  attempt fault .link
  let names ← get
  match names source, names target with
  | _, some _ => throw .fileExists
  | none, none => throw .osError
  | some data, none => set (Function.update names target (some data))

/-- `unlink`, at a name that is there. -/
def unlink (step : Step) (path : Path) : Op Path Data Unit := do
  attempt fault step
  let names ← get
  match names path with
  | none => throw .osError
  | some _ => set (Function.update names path none)

/-- `unlink(missing_ok=True)`. -/
def unlinkMissingOk (step : Step) (path : Path) : Op Path Data Unit := do
  attempt fault step
  modify fun names => Function.update names path none

/-- An `unlink(missing_ok=True)` of a clean-up. -/
def removed (path : Path) (names : Names Path Data) : Names Path Data :=
  Function.update names path none

/-- The handler of `_move_file`: the link goes again while the old name is there. -/
def undoLink (original target : Path) (names : Names Path Data) : Names Path Data :=
  if (names original).isSome then removed target names else names

/-- `_move_file`. -/
def moveFile (source target : Path) (retire : Option Path) : Op Path Data Unit := do
  let original := retire.getD source
  attempt fault .moveFolder
  link fault source target
  onRaise (do
    attempt fault .syncTarget
    unlink fault .unlinkOld original
    if retire.isSome then unlinkMissingOk fault .unlinkStaged source
    attempt fault .syncOld) (undoLink original target)

/-- `stage_bytes`, at the name `mkstemp` draws. -/
def stageBytes (staged : Path) (data : Data) : Op Path Data Unit := do
  attempt fault .stageFolder
  attempt fault .stageCreate
  modify fun names => Function.update names staged (some data)
  onRaise (attempt fault .stageWrite) (removed staged)

/-- `_bytes_at`: the bytes are read again, and have to be the note's at the caller's version. -/
def bytesAt (accepts : Data → Bool) (path : Path) : Op Path Data Unit := do
  attempt fault .reread
  let names ← get
  match names path with
  | none => throw .refused
  | some data => raiseIf (!accepts data) .refused

/-- `_rename_file`. -/
def renameFile (accepts : Data → Bool) (path newPath staged : Path) (data : Data) :
    Op Path Data Unit := do
  stageBytes fault staged data
  onRaise (do
    bytesAt fault accepts path
    moveFile fault staged newPath (some path)) (removed staged)
  -- `finally`, where nothing was raised.
  modify (removed staged)

/-- `commit_staged`. -/
def commitStaged (staged path : Path) : Op Path Data Unit := do
  onRaise (attempt fault .replace) (removed staged)
  modify fun names => removed staged (Function.update names path (names staged))
  attempt fault .syncReplaced

/-- `_replace_if_unchanged`. -/
def replaceIfUnchanged (accepts : Data → Bool) (path staged : Path) (data : Data) :
    Op Path Data Unit := do
  stageBytes fault staged data
  onRaise (do
    bytesAt fault accepts path
    commitStaged fault staged path) (removed staged)

/-- What `move_note` and `rename_note` do to files. -/
inductive Change (Data : Type) where
  | move
  | rename (data : Data)

/-- The change of the file at `path` to `newPath`. -/
def change (accepts : Data → Bool) (path newPath staged : Path) :
    Change Data → Op Path Data Unit
  | .move => if newPath = path then pure () else moveFile fault path newPath none
  | .rename data =>
    if newPath = path then replaceIfUnchanged fault accepts path staged data
    else renameFile fault accepts path newPath staged data

end Steps

/-- The bytes the change is to leave at the new name. -/
def Change.intended (original : Data) : Change Data → Data
  | .move => original
  | .rename data => data

/-- The note's file is at exactly one of its names, whole: the original at the old name with the
new one as it was, or the intended bytes at the new one, which was free. -/
def OneFile (path newPath : Path) (original intended : Data) (before after : Names Path Data) :
    Prop :=
  (after path = some original ∧ ∀ p, p ≠ path → after p = before p) ∨
  (after newPath = some intended ∧ (newPath ≠ path → before newPath = none ∧ after path = none) ∧
    ∀ p, p ≠ path → p ≠ newPath → after p = before p)

section Facts

variable {fault : Option Step} {names : Names Path Data} {E : Failure → Names Path Data → Prop}

theorem attempt_wp {step : Step} {Q : Unit → Names Path Data → Prop} (hQ : Q () names)
    (hE : E .osError names) : wp (attempt fault step) Q E names := by
  rw [attempt, wp_raiseIf]
  split
  · exact hE
  · exact hQ

variable [DecidableEq Path]

theorem removed_update (path : Path) (data : Option Data) (h : names path = none) :
    removed path (Function.update names path data) = names := by
  rw [removed, Function.update_idem, ← h, Function.update_eq_self]

/-- `link` adds the new name, or leaves everything as it is. -/
theorem link_wp {source target : Path} {data : Data} {Q : Unit → Names Path Data → Prop}
    (hsource : names source = some data)
    (hQ : names target = none → Q () (Function.update names target (some data)))
    (hE : ∀ e, E e names) : wp (link fault source target) Q E names := by
  unfold link
  rw [wp_bind]
  refine attempt_wp ?_ (hE _)
  rw [wp_bind, wp_get, hsource]
  cases htarget : names target with
  | none => exact hQ htarget
  | some other => exact hE _

/-- What a raising `_move_file` leaves: nothing changed, or only the new name is left. -/
def Moved (original source target : Path) (data : Data) (before after : Names Path Data) : Prop :=
  after = before ∨
  (before target = none ∧ after target = some data ∧ after original = none ∧
    ∀ p, p ≠ original → p ≠ target → p ≠ source → after p = before p)

theorem moveFile_wp {source target : Path} (retire : Option Path) (old data : Data)
    (hold : names (retire.getD source) = some old) (hsource : names source = some data)
    (htarget : target ≠ retire.getD source) (hstaged : target ≠ source) :
    wp (moveFile fault source target retire) (fun _ _ => True)
      (fun _ after => Moved (retire.getD source) source target data names after) names := by
  unfold moveFile
  generalize retire.getD source = original at hold htarget ⊢
  rw [wp_bind]
  refine attempt_wp ?_ (Or.inl rfl)
  rw [wp_bind]
  refine link_wp hsource (fun hfree => ?_) fun _ => Or.inl rfl
  rw [wp_onRaise]
  have hlinked : Function.update names target (some data) original = some old := by
    rw [Function.update_of_ne (Ne.symm htarget), hold]
  -- While the old name is there the link is taken back.
  have hundone : undoLink original target (Function.update names target (some data)) = names := by
    rw [undoLink, hlinked, Option.isSome_some, if_pos rfl, removed_update _ _ hfree]
  rw [wp_bind]
  refine attempt_wp ?_ (Or.inl hundone)
  unfold unlink
  rw [wp_bind, wp_bind]
  refine attempt_wp ?_ (Or.inl hundone)
  rw [wp_bind, wp_get, hlinked]
  rw [wp_set]
  -- From here on the new name is the only copy.
  have honly (after : Names Path Data)
      (h : ∀ p, p ≠ source → after p = Function.update
        (Function.update names target (some data)) original none p) (horiginal : after original = none) :
      Moved original source target data names (undoLink original target after) := by
    rw [undoLink, horiginal, Option.isSome_none, if_neg Bool.false_ne_true]
    refine Or.inr ⟨hfree, ?_, horiginal, fun p hp hpt hps => ?_⟩
    · rw [h target hstaged, Function.update_of_ne htarget, Function.update_self]
    · rw [h p hps, Function.update_of_ne hp, Function.update_of_ne hpt]
  have hdone := honly _ (fun p _ => rfl) (Function.update_self _ _ _)
  by_cases hretire : retire.isSome = true
  · rw [if_pos hretire, unlinkMissingOk, wp_bind, wp_bind]
    refine attempt_wp ?_ hdone
    rw [wp_modify]
    refine attempt_wp trivial (honly _ (fun p hp => Function.update_of_ne hp _ _) ?_)
    by_cases h : original = source
    · rw [h, Function.update_self]
    · rw [Function.update_of_ne h, Function.update_self]
  · rw [if_neg hretire]
    exact attempt_wp trivial hdone

theorem stageBytes_wp {staged : Path} {data : Data} {Q : Unit → Names Path Data → Prop}
    (hfree : names staged = none) (hQ : Q () (Function.update names staged (some data)))
    (hE : E .osError names) : wp (stageBytes fault staged data) Q E names := by
  unfold stageBytes
  rw [wp_bind]
  refine attempt_wp ?_ hE
  rw [wp_bind]
  refine attempt_wp ?_ hE
  rw [wp_bind, wp_modify, wp_onRaise]
  refine attempt_wp hQ ?_
  rwa [removed_update _ _ hfree]

omit [DecidableEq Path] in
/-- Reading the file again changes nothing. -/
theorem bytesAt_wp {accepts : Data → Bool} {path : Path} {Q : Unit → Names Path Data → Prop}
    (hQ : Q () names) (hE : ∀ e, E e names) : wp (bytesAt fault accepts path) Q E names := by
  unfold bytesAt
  rw [wp_bind]
  refine attempt_wp ?_ (hE _)
  rw [wp_bind, wp_get]
  cases names path with
  | none => exact hE _
  | some data =>
    rw [wp_raiseIf]
    split
    · exact hE _
    · exact hQ

omit [DecidableEq Path] in
theorem OneFile.refl {path newPath : Path} {original intended : Data}
    (h : names path = some original) : OneFile path newPath original intended names names :=
  Or.inl ⟨h, fun _ _ => rfl⟩

theorem renameFile_wp {accepts : Data → Bool} {path newPath staged : Path} {original data : Data}
    (hpath : names path = some original) (hne : newPath ≠ path) (hstaged : names staged = none)
    (hnew : staged ≠ newPath) :
    wp (renameFile fault accepts path newPath staged data) (fun _ _ => True)
      (fun _ after => OneFile path newPath original data names after ∧ after staged = none)
      names := by
  have hpathStaged : path ≠ staged := by
    rintro rfl
    rw [hpath] at hstaged
    cases hstaged
  unfold renameFile
  rw [wp_bind]
  refine stageBytes_wp hstaged ?_ ⟨OneFile.refl hpath, hstaged⟩
  rw [wp_bind, wp_onRaise, wp_bind]
  have hnothing : OneFile path newPath original data names
      (removed staged (Function.update names staged (some data))) ∧
        removed staged (Function.update names staged (some data)) staged = none := by
    rw [removed_update _ _ hstaged]
    exact ⟨OneFile.refl hpath, hstaged⟩
  refine bytesAt_wp ?_ fun _ => hnothing
  refine wp_mono (moveFile_wp (some path) original data ?_ ?_ hne
    (Ne.symm hnew)) (fun _ _ _ => trivial) ?_
  · rw [Option.getD_some, Function.update_of_ne hpathStaged, hpath]
  · rw [Function.update_self]
  · rintro _ after (rfl | ⟨hfree, htarget, hgone, hothers⟩)
    · exact hnothing
    · refine ⟨Or.inr ⟨?_, fun _ => ⟨?_, ?_⟩, fun p hp hpn => ?_⟩, Function.update_self _ _ _⟩
      · rwa [removed, Function.update_of_ne (Ne.symm hnew)]
      · rwa [Function.update_of_ne (Ne.symm hnew)] at hfree
      · rwa [removed, Function.update_of_ne hpathStaged]
      · by_cases hps : p = staged
        · rw [hps, removed, Function.update_self, hstaged]
        · rw [removed, Function.update_of_ne hps, hothers p hp hpn hps, Function.update_of_ne hps]

theorem replaceIfUnchanged_wp {accepts : Data → Bool} {path staged : Path} {original data : Data}
    (hpath : names path = some original) (hstaged : names staged = none) :
    wp (replaceIfUnchanged fault accepts path staged data) (fun _ _ => True)
      (fun _ after => OneFile path path original data names after ∧ after staged = none) names := by
  have hpathStaged : path ≠ staged := by
    rintro rfl
    rw [hpath] at hstaged
    cases hstaged
  unfold replaceIfUnchanged
  rw [wp_bind]
  refine stageBytes_wp hstaged ?_ ⟨OneFile.refl hpath, hstaged⟩
  rw [wp_onRaise, wp_bind]
  have hnothing : OneFile path path original data names
      (removed staged (Function.update names staged (some data))) ∧
        removed staged (Function.update names staged (some data)) staged = none := by
    rw [removed_update _ _ hstaged]
    exact ⟨OneFile.refl hpath, hstaged⟩
  refine bytesAt_wp ?_ fun _ => hnothing
  unfold commitStaged
  rw [wp_bind, wp_onRaise]
  refine attempt_wp ?_ ?_
  · rw [wp_bind, wp_modify]
    refine attempt_wp trivial ⟨Or.inr ⟨?_, fun h => absurd rfl h, fun p hp _ => ?_⟩,
      Function.update_self _ _ _⟩
    · simp [removed, Function.update_of_ne hpathStaged]
    · by_cases hps : p = staged
      · rw [hps, removed, Function.update_self, hstaged]
      · simp [removed, hps, hp]
  · simpa [removed, Function.update_idem] using hnothing

end Facts

section Change

variable [DecidableEq Path]

/-- **One live file**: a move or a rename that raises, at whatever step, leaves the note's file
at exactly one of its names and whole, no staged file, and every other name as it was. -/
theorem failed_change_leaves_one_file {fault : Option Step} {accepts : Data → Bool}
    {path newPath staged : Path} {original : Data} {c : Change Data} {names after : Names Path Data}
    {e : Failure} (hpath : names path = some original) (hstaged : names staged = none)
    (hnew : staged ≠ newPath)
    (hraised : change fault accepts path newPath staged c names = .error e after) :
    OneFile path newPath original (c.intended original) names after ∧ after staged = none := by
  have hwp : wp (change fault accepts path newPath staged c) (fun _ _ => True)
      (fun _ after => OneFile path newPath original (c.intended original) names after ∧
        after staged = none) names := by
    cases c with
    | move =>
      unfold change
      by_cases hsame : newPath = path
      · rw [if_pos hsame]
        trivial
      · rw [if_neg hsame]
        refine wp_mono (moveFile_wp none original original hpath hpath hsame hsame)
          (fun _ _ _ => trivial) ?_
        rintro _ after (rfl | ⟨hfree, htarget, hgone, hothers⟩)
        · exact ⟨OneFile.refl hpath, hstaged⟩
        · have hps : staged ≠ path := by
            rintro rfl
            rw [hpath] at hstaged
            cases hstaged
          exact ⟨Or.inr ⟨htarget, fun _ => ⟨hfree, hgone⟩, fun p hp hpn => hothers p hp hpn hp⟩,
            (hothers staged hps hnew hps).trans hstaged⟩
    | rename data =>
      unfold change
      dsimp only [Change.intended]
      by_cases hsame : newPath = path
      · subst hsame
        rw [if_pos rfl]
        exact replaceIfUnchanged_wp hpath hstaged
      · rw [if_neg hsame]
        exact renameFile_wp hpath hsame hstaged hnew
  unfold wp at hwp
  rw [hraised] at hwp
  exact hwp

def sampleNames : Names String String := fun p => if p = "a" then some "old" else none

/-- The directory is made durable in vain once the old name is gone: the new name stays. -/
theorem failed_change_leaves_one_file_sample :
    ∃ after, change (some .syncOld) (fun _ => true) "a" "b" ".b.tmp" (.rename "new") sampleNames =
        .error .osError after ∧
      OneFile "a" "b" "old" "new" sampleNames after ∧ after ".b.tmp" = none := by
  obtain ⟨after, h⟩ : ∃ after, change (some .syncOld) (fun _ => true) "a" "b" ".b.tmp"
    (.rename "new") sampleNames = .error .osError after := ⟨_, rfl⟩
  have hpath : sampleNames "a" = some "old" := rfl
  have hstaged : sampleNames ".b.tmp" = none := rfl
  exact ⟨after, h, failed_change_leaves_one_file hpath hstaged (by decide) h⟩

end Change

end Coppermind.Notes.MoveFile
