import Coppermind.Naming
import Coppermind.Notes.Row
import Mathlib.Data.List.Infix

/-!
# Where the store puts a note

The folder and the file name `create_note` and `move_note` choose, over the tree they find.
Windows and macOS compare names without case, so a tree is portable when no two sibling folders
and no two notes have one name there.  `move_note` spells its target the way the tree does;
`create_note` takes the spelling of its caller.
-/

namespace Coppermind.Notes.Folders

open Coppermind.Lib Coppermind.Lib.Text Coppermind.Naming

/-- A folder below the notes root, as its components; the root is the empty path. -/
abbrev Folder := List Text

/-- The folders and the files of the notes filesystem. -/
structure FolderTree where
  folders : List Folder
  files : List (Folder × Text)
  parents : ∀ p a, p ++ [a] ∈ folders → p = [] ∨ p ∈ folders
  homes : ∀ f ∈ files, f.1 = [] ∨ f.1 ∈ folders

namespace FolderTree

variable (tree : FolderTree)

/-- `is_dir`. -/
def isDir (p : Folder) : Bool := p == [] || p ∈ tree.folders

/-- The folders in a folder. -/
def children (p : Folder) : List Text :=
  tree.folders.filterMap fun q => if q.dropLast = p then q.getLast? else none

theorem mem_children {p : Folder} {a : Text} : a ∈ tree.children p ↔ p ++ [a] ∈ tree.folders := by
  rw [children, List.mem_filterMap]
  constructor
  · rintro ⟨q, hq, ha⟩
    split at ha
    · next hp =>
      rw [← hp, List.dropLast_append_getLast? a ha]
      exact hq
    · cases ha
  · intro h
    exact ⟨_, h, by simp⟩

/-- `path.stem` of a file whose suffix is `.md`. -/
def stemOf (name : Text) : Option Text :=
  if ".md".toList.isSuffixOf name ∧ 3 < name.length then some (name.take (name.length - 3))
  else none

/-- `existing_stems`. -/
def existingStems (p : Folder) : List Text :=
  (tree.files.filter (·.1 == p)).filterMap fun f => stemOf f.2

/-- The folders with a path and every folder above it. -/
def foldersWith (p : Folder) : List Folder :=
  tree.folders ++ p.inits.filter fun q => !tree.isDir q

theorem mem_foldersWith {p q : Folder} :
    q ∈ tree.foldersWith p ↔ q ∈ tree.folders ∨ (q <+: p ∧ q ≠ []) := by
  simp only [foldersWith, List.mem_append, List.mem_filter, List.mem_inits, isDir, Bool.not_eq_true',
    Bool.or_eq_false_iff, beq_eq_false_iff_ne, decide_eq_false_iff_not]
  tauto

/-- `mkdir(parents=True, exist_ok=True)` of a folder, and a file in it. -/
def withFile (p : Folder) (name : Text) (files : List (Folder × Text))
    (hfiles : files ⊆ tree.files) : FolderTree where
  folders := tree.foldersWith p
  files := files ++ [(p, name)]
  parents := by
    intro q a h
    rw [mem_foldersWith] at h ⊢
    rcases h with h | ⟨h, -⟩
    · exact (tree.parents q a h).imp id Or.inl
    · by_cases hq : q = []
      · exact Or.inl hq
      · exact Or.inr (Or.inr ⟨(List.prefix_append q [a]).trans h, hq⟩)
  homes := by
    intro f hf
    rw [mem_foldersWith]
    rcases List.mem_append.1 hf with h | h
    · exact (tree.homes f (hfiles h)).imp id Or.inl
    · rw [List.mem_singleton.1 h]
      by_cases hp : p = []
      · exact Or.inl hp
      · exact Or.inr (Or.inr ⟨List.prefix_refl p, hp⟩)

end FolderTree

/-- The settings that name folders. -/
structure FolderSettings where
  reviewFolder : Text
  sourcesFolder : Text
  artifactsFolder : Text

inductive Refusal where
  | validationFailed | pathCollision | notFound
deriving DecidableEq, Repr

section Place

variable (unicode : Unicode) (settings : FolderSettings)

/-- `unique_stem`; none where every suffix tried is taken. -/
def uniqueStem (stem : Text) (taken : List Text) : Option Text :=
  let lowered := taken.map unicode.casefold
  if unicode.casefold stem ∉ lowered then some stem
  else
    let candidate := fun suffix : Nat =>
      let tail := " (".toList ++ (toString suffix).toList ++ ")".toList
      fit stem (maxStemLength - tail.length) (maxStemBytes - utf8Length tail) ++ tail
    ((List.range' 2 (taken.length + 1)).map candidate).find? fun candidate =>
      unicode.casefold candidate ∉ lowered

/-- The spelling `_existing_folder` gives one segment below `current`. -/
def existingName (tree : FolderTree) (current : Folder) (part : Text) : Text :=
  if tree.isDir current && !tree.isDir (current ++ [part]) then
    (((tree.children current).insertionSort fun s t =>
      strLe (PyStr.ofText s) (PyStr.ofText t)).find? fun entry =>
        unicode.casefold entry == unicode.casefold part).getD part
  else part

/-- `_existing_folder`, below the folder `current`. -/
def existingFolder (tree : FolderTree) : Folder → List Text → List Text
  | _, [] => []
  | current, part :: rest =>
    let name := existingName unicode tree current part
    name :: existingFolder tree (current ++ [name]) rest

/-- A folder lies in a reserved one, or is it, compared without case. -/
def isReserved (folder reserved : Text) : Bool :=
  let reserved := unicode.casefold (sanitizeFolder unicode reserved)
  let folded := unicode.casefold folder
  folded == reserved || (reserved ++ ['/']).isPrefixOf folded

/-- `_check_folder_safe`, where it does not raise. -/
def isFolderSafe (folder : Text) : Bool :=
  let parts := (folder.splitOn '/').filter (· ≠ [])
  unicode.casefold ((folder.splitOn '/').headD []) ∉ ["people".toList, "companies".toList] &&
    [settings.sourcesFolder, settings.artifactsFolder].all fun reserved =>
      (parts.inits.filter (· ≠ [])).all fun above =>
        !isReserved unicode (['/'].intercalate above) reserved

/-- What a caller asks for: a note in a folder (the review folder, where it names none) under the
stem its title gives, or a note moved to a folder. -/
inductive Request where
  | create (folder : Option Text) (stem : Text)
  | move (folder : Folder) (name : Text) (target : Text)

/-- The folder `create_note` puts a note in. -/
def createFolder (folder : Option Text) : Except Refusal Folder :=
  match folder with
  | none => .ok (((sanitizeFolder unicode settings.reviewFolder).splitOn '/').filter (· ≠ []))
  | some raw =>
    let folder := sanitizeFolder unicode raw
    if "..".toList ∈ raw.splitOn '/' ∨ folder = [] ∨ isFolderSafe unicode settings folder = false then
      .error .validationFailed
    else .ok (folder.splitOn '/')

/-- The folder `move_note` is asked for, before it is spelled the way the tree does. -/
def moveFolder (target : Text) : Except Refusal Folder :=
  let raw := target.map fun c => if c = '\\' then '/' else c
  let folder := sanitizeFolder unicode target
  if raw.head? = some '/' ∨ (raw.splitOn '/').any (fun part => part == ['.'] || part == ['.', '.']) ∨
      folder = [] ∨ isFolderSafe unicode settings folder = false ∨
      [settings.sourcesFolder, settings.artifactsFolder].any (isReserved unicode folder) then
    .error .validationFailed
  else .ok (folder.splitOn '/')

variable (claimed : Folder × Text → Bool) (tree : FolderTree)

/-- `create_note`, as far as it places a file; `claimed` is what live rows of the mirror record. -/
def createNote (folder : Option Text) (stem : Text) :
    Except Refusal (FolderTree × (Folder × Text)) :=
  match createFolder unicode settings folder with
  | .error e => .error e
  | .ok p =>
    match uniqueStem unicode stem (tree.existingStems p) with
    | none => .error .pathCollision
    | some stem =>
      let name := stem ++ ".md".toList
      if claimed (p, name) || tree.isDir (p ++ [name]) || (p, name) ∈ tree.files then
        .error .pathCollision
      else .ok (tree.withFile p name tree.files (List.Subset.refl _), (p, name))

/-- `move_note`, of the note's file in `folder`. -/
def moveNote (folder : Folder) (name target : Text) :
    Except Refusal (FolderTree × (Folder × Text)) :=
  match moveFolder unicode settings target, FolderTree.stemOf name with
  | .error e, _ => .error e
  | .ok _, none => .error .notFound
  | .ok raw, some stem =>
    let p := existingFolder unicode tree [] raw
    if (folder, name) ∉ tree.files then .error .notFound
    else if p = folder then .ok (tree, (folder, name))
    else if unicode.casefold stem ∈ (tree.existingStems p).map unicode.casefold then
      .error .pathCollision
    else if claimed (p, name) || tree.isDir (p ++ [name]) || (p, name) ∈ tree.files then
      .error .pathCollision
    else
      .ok (tree.withFile p name (tree.files.filter (· ≠ (folder, name)))
        List.filter_sublist.subset, (p, name))

def place : Request → Except Refusal (FolderTree × (Folder × Text))
  | .create folder stem => createNote unicode settings claimed tree folder stem
  | .move folder name target => moveNote unicode settings claimed tree folder name target

end Place

section Portable

variable (unicode : Unicode)

/-- No two sibling folders have one name without case. -/
def SiblingsDistinct (tree : FolderTree) : Prop :=
  ∀ p a b, p ++ [a] ∈ tree.folders → p ++ [b] ∈ tree.folders →
    unicode.casefold a = unicode.casefold b → a = b

/-- Two paths are one without case, component by component. -/
def SamePath (f g : Folder × Text) : Prop :=
  f.1.map unicode.casefold = g.1.map unicode.casefold ∧ unicode.casefold f.2 = unicode.casefold g.2

/-- No other note has the path of this one without case. -/
def Unmatched (tree : FolderTree) (path : Folder × Text) : Prop :=
  ∀ f ∈ tree.files, f ≠ path → (FolderTree.stemOf f.2).isSome = true → ¬SamePath unicode f path

/-- What a placed file keeps: sibling folders stay distinct, and a file that was not there before
has its path to itself. -/
def Portable (before after : FolderTree) (path : Folder × Text) : Prop :=
  SiblingsDistinct unicode after ∧ (path ∉ before.files → Unmatched unicode after path)

/-- The caller of `create_note` names the folder the way `_existing_folder` would. -/
def SpelledLikeTree (settings : FolderSettings) (tree : FolderTree) : Request → Prop
  | .create folder _ => ∀ p, createFolder unicode settings folder = .ok p →
      existingFolder unicode tree [] p = p
  | .move _ _ _ => True

end Portable

section Spelling

variable {unicode : Unicode} {tree : FolderTree}

theorem isDir_eq_true {p : Folder} : tree.isDir p = true ↔ p = [] ∨ p ∈ tree.folders := by
  simp [FolderTree.isDir]

/-- A segment is respelled only to that of a folder that is there. -/
theorem existingName_cases (unicode : Unicode) (tree : FolderTree) (current : Folder) (part : Text) :
    existingName unicode tree current part = part ∨
      (current ++ [part] ∉ tree.folders ∧
        current ++ [existingName unicode tree current part] ∈ tree.folders ∧
        unicode.casefold (existingName unicode tree current part) = unicode.casefold part) := by
  unfold existingName
  split
  · next hcond =>
    rw [Bool.and_eq_true, Bool.not_eq_true'] at hcond
    cases hfind : ((tree.children current).insertionSort fun s t =>
        strLe (PyStr.ofText s) (PyStr.ofText t)).find? fun entry =>
          unicode.casefold entry == unicode.casefold part with
    | none => exact Or.inl rfl
    | some entry =>
      refine Or.inr ⟨?_, ?_, ?_⟩
      · intro hmem
        have hdir : tree.isDir (current ++ [part]) = true := isDir_eq_true.2 (Or.inr hmem)
        rw [hcond.2] at hdir
        cases hdir
      · rw [Option.getD_some, ← FolderTree.mem_children]
        have := List.mem_of_find?_eq_some hfind
        rwa [List.mem_insertionSort] at this
      · simpa using List.find?_some hfind
  · exact Or.inl rfl

/-- A segment that keeps its spelling has no sibling that differs by case, unless it is there. -/
theorem not_sibling_of_existingName {current : Folder} {part entry : Text}
    (hkept : existingName unicode tree current part = part)
    (hentry : current ++ [entry] ∈ tree.folders)
    (hfold : unicode.casefold entry = unicode.casefold part) : current ++ [part] ∈ tree.folders := by
  by_contra hmissing
  have hcond : (tree.isDir current && !tree.isDir (current ++ [part])) = true := by
    rw [Bool.and_eq_true, Bool.not_eq_true']
    refine ⟨isDir_eq_true.2 (tree.parents current entry hentry), ?_⟩
    rw [Bool.eq_false_iff]
    intro hdir
    exact (isDir_eq_true.1 hdir).elim (by simp) hmissing
  unfold existingName at hkept
  rw [if_pos hcond] at hkept
  cases hfind : ((tree.children current).insertionSort fun s t =>
      strLe (PyStr.ofText s) (PyStr.ofText t)).find? fun entry =>
        unicode.casefold entry == unicode.casefold part with
  | none =>
    have := List.find?_eq_none.1 hfind entry (by
      rw [List.mem_insertionSort]
      exact FolderTree.mem_children tree |>.2 hentry)
    simp [hfold] at this
  | some found =>
    rw [hfind, Option.getD_some] at hkept
    have := List.mem_of_find?_eq_some hfind
    rw [List.mem_insertionSort, hkept] at this
    exact hmissing ((FolderTree.mem_children tree).1 this)

/-- A path spelled like the tree is so segment by segment. -/
theorem existingName_of_existingFolder {current parts q : Folder} {b : Text}
    (h : existingFolder unicode tree current parts = parts) (hq : q ++ [b] <+: parts) :
    existingName unicode tree (current ++ q) b = b := by
  induction parts generalizing current q with
  | nil => simp at hq
  | cons part rest ih =>
    rw [existingFolder, List.cons.injEq] at h
    obtain ⟨hname, hrest⟩ := h
    rw [hname] at hrest
    cases q with
    | nil =>
      have hb : b = part := (List.cons_prefix_cons.1 hq).1
      rw [List.append_nil, hb]
      exact hname
    | cons c q =>
      have hc := List.cons_prefix_cons.1 hq
      have := ih hrest hc.2
      rwa [List.append_assoc, List.singleton_append, ← hc.1] at this

/-- `_existing_folder` leaves what it spelled alone. -/
theorem existingFolder_idem (unicode : Unicode) (tree : FolderTree) (current parts : Folder) :
    existingFolder unicode tree current (existingFolder unicode tree current parts) =
      existingFolder unicode tree current parts := by
  induction parts generalizing current with
  | nil => rfl
  | cons part rest ih =>
    rw [existingFolder]
    have hname : existingName unicode tree current (existingName unicode tree current part) =
        existingName unicode tree current part := by
      rcases existingName_cases unicode tree current part with h | ⟨-, h, -⟩
      · rw [h, h]
      · generalize existingName unicode tree current part = name at h ⊢
        rcases existingName_cases unicode tree current name with h' | ⟨h', -⟩
        · exact h'
        · exact absurd h h'
    rw [existingFolder, hname, ih]

/-- A path that is not spelled like the tree leads past a folder that differs by case. -/
theorem exists_sibling_of_ne {current parts : Folder}
    (h : existingFolder unicode tree current parts ≠ parts) :
    ∃ q b entry, q ++ [b] <+: parts ∧ entry ≠ b ∧ current ++ q ++ [entry] ∈ tree.folders ∧
      unicode.casefold entry = unicode.casefold b := by
  induction parts generalizing current with
  | nil => exact absurd rfl h
  | cons part rest ih =>
    rcases existingName_cases unicode tree current part with hname | ⟨hmissing, hthere, hfold⟩
    · have hrest : existingFolder unicode tree (current ++ [part]) rest ≠ rest := by
        intro heq
        apply h
        rw [existingFolder, hname, heq]
      obtain ⟨q, b, entry, hq, hne, hentry, hfold⟩ := ih hrest
      refine ⟨part :: q, b, entry, ?_, hne, ?_, hfold⟩
      · exact List.cons_prefix_cons.2 ⟨rfl, hq⟩
      · simpa using hentry
    · refine ⟨[], part, existingName unicode tree current part, ?_, ?_, ?_, hfold⟩
      · exact List.cons_prefix_cons.2 ⟨rfl, List.nil_prefix⟩
      · intro heq
        rw [heq] at hthere
        exact hmissing hthere
      · rwa [List.append_nil]

end Spelling

section Place

variable {unicode : Unicode} {settings : FolderSettings} {tree : FolderTree}

/-- Folders that differ by case only are one, where siblings are distinct. -/
theorem folder_eq_of_fold (hdistinct : SiblingsDistinct unicode tree) {f g : Folder}
    (hf : f = [] ∨ f ∈ tree.folders) (hg : g = [] ∨ g ∈ tree.folders)
    (hfold : f.map unicode.casefold = g.map unicode.casefold) : f = g := by
  induction f using List.reverseRecOn generalizing g with
  | nil => exact (List.map_eq_nil_iff.1 hfold.symm).symm
  | append_singleton p a ih =>
    rcases List.eq_nil_or_concat g with rfl | ⟨q, b, rfl⟩
    · simp at hfold
    · rw [List.concat_eq_append] at hg hfold ⊢
      rw [List.map_append, List.map_append, List.map_singleton, List.map_singleton] at hfold
      obtain ⟨hpq, hab⟩ := List.append_inj' hfold rfl
      have hfmem := hf.resolve_left (by simp)
      have hgmem := hg.resolve_left (by simp)
      obtain rfl := ih (tree.parents p a hfmem) (tree.parents q b hgmem) hpq
      rw [hdistinct p a b hfmem hgmem (List.singleton_inj.1 hab)]

/-- A path spelled like the tree brings no folder that differs by case from a sibling. -/
theorem siblingsDistinct_withFile (hdistinct : SiblingsDistinct unicode tree) {p : Folder}
    (hspelled : existingFolder unicode tree [] p = p) (name : Text) {files : List (Folder × Text)}
    (hfiles : files ⊆ tree.files) :
    SiblingsDistinct unicode (tree.withFile p name files hfiles) := by
  -- A new folder has no sibling of its name without case: it would have been spelled that way.
  have hnew {q : Folder} {a b : Text} (ha : q ++ [a] ∈ tree.folders) (hb : q ++ [b] <+: p)
      (hfold : unicode.casefold a = unicode.casefold b) : q ++ [b] ∈ tree.folders :=
    not_sibling_of_existingName
      (by simpa using existingName_of_existingFolder hspelled hb) ha hfold
  intro q a b ha hb hfold
  replace ha := (tree.mem_foldersWith).1 ha
  replace hb := (tree.mem_foldersWith).1 hb
  rcases ha with ha | ⟨ha, -⟩ <;> rcases hb with hb | ⟨hb, -⟩
  · exact hdistinct q a b ha hb hfold
  · exact hdistinct q a b ha (hnew ha hb hfold) hfold
  · exact hdistinct q a b (hnew hb ha hfold.symm) hb hfold
  · have := List.prefix_of_prefix_length_le ha hb (by simp)
    simpa using this.eq_of_length (by simp)

/-- A path that is not spelled like the tree puts a folder beside one that differs by case. -/
theorem not_siblingsDistinct_withFile {p : Folder} (hspelled : existingFolder unicode tree [] p ≠ p)
    (name : Text) {files : List (Folder × Text)} (hfiles : files ⊆ tree.files) :
    ¬SiblingsDistinct unicode (tree.withFile p name files hfiles) := by
  intro hdistinct
  obtain ⟨q, b, entry, hq, hne, hentry, hfold⟩ := exists_sibling_of_ne hspelled
  rw [List.nil_append] at hentry
  exact hne (hdistinct q entry b (tree.mem_foldersWith.2 (Or.inl hentry))
    (tree.mem_foldersWith.2 (Or.inr ⟨hq, by simp⟩)) hfold)

theorem stemOf_eq_some {name stem : Text} (h : FolderTree.stemOf name = some stem) :
    name = stem ++ ".md".toList := by
  unfold FolderTree.stemOf at h
  split at h
  · next hname =>
    obtain ⟨start, rfl⟩ := List.isSuffixOf_iff_suffix.1 hname.1
    rw [← Option.some.inj h]
    simp
  · cases h

/-- A file whose stem is free in its folder has its path to itself. -/
theorem unmatched_withFile (hfold : ∀ s t, unicode.casefold (s ++ t) =
      unicode.casefold s ++ unicode.casefold t) {p : Folder} {stem : Text}
    {files : List (Folder × Text)} (hfiles : files ⊆ tree.files)
    (hdistinct : SiblingsDistinct unicode (tree.withFile p (stem ++ ".md".toList) files hfiles))
    (hfree : unicode.casefold stem ∉ (tree.existingStems p).map unicode.casefold) :
    Unmatched unicode (tree.withFile p (stem ++ ".md".toList) files hfiles)
      (p, stem ++ ".md".toList) := by
  intro f hf hne hstem hsame
  obtain ⟨s, hs⟩ := Option.isSome_iff_exists.1 hstem
  have hhome := (tree.withFile p (stem ++ ".md".toList) files hfiles).homes
  have hp : f.1 = p := folder_eq_of_fold hdistinct (hhome f hf)
    (hhome _ (List.mem_append_right _ List.mem_cons_self)) hsame.1
  have hmem : f ∈ files := by
    rcases List.mem_append.1 hf with h | h
    · exact h
    · exact absurd (List.mem_singleton.1 h) hne
  apply hfree
  have hsame₂ := hsame.2
  rw [stemOf_eq_some hs, hfold, hfold] at hsame₂
  rw [← List.append_cancel_right hsame₂]
  apply List.mem_map_of_mem
  rw [FolderTree.existingStems, List.mem_filterMap]
  exact ⟨f, List.mem_filter.2 ⟨hfiles hmem, beq_iff_eq.2 hp⟩, hs⟩

theorem uniqueStem_free {stem found : Text} {taken : List Text}
    (h : uniqueStem unicode stem taken = some found) :
    unicode.casefold found ∉ taken.map unicode.casefold := by
  unfold uniqueStem at h
  dsimp only at h
  split at h
  · next hfree => exact Option.some.inj h ▸ hfree
  · simpa using List.find?_some h

/-- **Portable paths**: what `move_note` places keeps the tree portable, and what `create_note`
places does exactly where its caller spells the folder like the tree. -/
theorem place_portable_iff {claimed : Folder × Text → Bool} {request : Request} {after : FolderTree}
    {path : Folder × Text}
    (hfold : ∀ s t, unicode.casefold (s ++ t) = unicode.casefold s ++ unicode.casefold t)
    (hdistinct : SiblingsDistinct unicode tree)
    (hplace : place unicode settings claimed tree request = .ok (after, path)) :
    Portable unicode tree after path ↔ SpelledLikeTree unicode settings tree request := by
  cases request with
  | create folder stem =>
    replace hplace : createNote unicode settings claimed tree folder stem = _ := hplace
    unfold createNote at hplace
    cases hp : createFolder unicode settings folder with
    | error e =>
      rw [hp] at hplace
      cases hplace
    | ok p =>
      rw [hp] at hplace
      dsimp only at hplace
      split at hplace
      · cases hplace
      · next found hfound =>
        split at hplace
        · cases hplace
        · cases hplace
          have hspelling : SpelledLikeTree unicode settings tree (.create folder stem) ↔
              existingFolder unicode tree [] p = p := by
            simp [SpelledLikeTree, hp]
          rw [hspelling]
          constructor
          · intro hportable
            by_contra hspelled
            exact not_siblingsDistinct_withFile hspelled _ (List.Subset.refl _) hportable.1
          · intro hspelled
            have hafter := siblingsDistinct_withFile hdistinct hspelled
              (found ++ ".md".toList) (List.Subset.refl _)
            exact ⟨hafter, fun _ => unmatched_withFile hfold _ hafter (uniqueStem_free hfound)⟩
  | move folder name target =>
    refine iff_of_true ?_ trivial
    replace hplace : moveNote unicode settings claimed tree folder name target = _ := hplace
    unfold moveNote at hplace
    split at hplace
    · cases hplace
    · cases hplace
    · next raw stem _ hstem =>
      obtain rfl := stemOf_eq_some hstem
      have hspelled := existingFolder_idem unicode tree [] raw
      dsimp only at hplace
      generalize existingFolder unicode tree [] raw = p at hplace hspelled
      split at hplace
      · cases hplace
      · next hthere =>
        split at hplace
        · cases hplace
          exact ⟨hdistinct, fun h => absurd (not_not.1 hthere) h⟩
        · split at hplace
          · cases hplace
          · next hfree =>
            split at hplace
            · cases hplace
            · cases hplace
              have hafter := siblingsDistinct_withFile hdistinct hspelled (stem ++ ".md".toList)
                (List.filter_sublist
                  (p := fun f => decide (f ≠ (folder, stem ++ ".md".toList)))).subset
              exact ⟨hafter, fun _ => unmatched_withFile hfold _ hafter hfree⟩

end Place

section Sample

/-- The tables on ASCII. -/
def ascii : Unicode := ⟨id, List.map Char.toUpper, List.map Char.toLower⟩

def sampleFolderSettings : FolderSettings :=
  ⟨"Review".toList, "_Sources".toList, "_Artifacts".toList⟩

/-- One folder with one note. -/
def workTree : FolderTree where
  folders := [["Work".toList]]
  files := [(["Work".toList], "a.md".toList)]
  parents := by
    intro p a h
    rw [List.mem_singleton] at h
    exact Or.inl (by simpa using congrArg List.dropLast h)
  homes := by
    intro f hf
    rw [List.mem_singleton.1 hf]
    exact Or.inr List.mem_cons_self

def createIn (folder : String) : Request := .create (some folder.toList) "b".toList

theorem workTree_distinct : SiblingsDistinct ascii workTree := by
  intro p a b ha hb _
  have := (List.mem_singleton.1 ha).trans (List.mem_singleton.1 hb).symm
  simpa using this

theorem exists_place {folder : String}
    (h : (place ascii sampleFolderSettings (fun _ => false) workTree (createIn folder)).isOk = true) :
    ∃ after path, place ascii sampleFolderSettings (fun _ => false) workTree (createIn folder) =
      .ok (after, path) := by
  cases hplace : place ascii sampleFolderSettings (fun _ => false) workTree (createIn folder) with
  | error e =>
    rw [hplace] at h
    cases h
  | ok result => exact ⟨result.1, result.2, rfl⟩

/-- The folder spelled as it stands. -/
theorem place_portable_iff_sample :
    ∃ after path, place ascii sampleFolderSettings (fun _ => false) workTree (createIn "Work") =
        .ok (after, path) ∧ Portable ascii workTree after path := by
  obtain ⟨after, path, h⟩ := @exists_place "Work" (by decide +kernel)
  refine ⟨after, path, h, (place_portable_iff ?_ workTree_distinct h).2 ?_⟩
  · intro s t
    exact List.map_append
  · intro p hp
    have hwork : createFolder ascii sampleFolderSettings (some "Work".toList) =
        .ok ["Work".toList] := by decide +kernel
    obtain rfl := Except.ok.inj (hwork.symm.trans hp)
    decide +kernel

/-- `create_note` makes `work` beside `Work`. -/
theorem create_beside_other_case :
    ∃ after path, place ascii sampleFolderSettings (fun _ => false) workTree (createIn "work") =
        .ok (after, path) ∧ SiblingsDistinct ascii workTree ∧ ¬Portable ascii workTree after path := by
  obtain ⟨after, path, h⟩ := @exists_place "work" (by decide +kernel)
  refine ⟨after, path, h, workTree_distinct, ?_⟩
  have hwork : createFolder ascii sampleFolderSettings (some "work".toList) =
      .ok ["work".toList] := by decide +kernel
  have hfolders : after.folders = [["Work".toList], ["work".toList]] := by
    have : (place ascii sampleFolderSettings (fun _ => false) workTree (createIn "work")).toOption.map
        (·.1.folders) = some [["Work".toList], ["work".toList]] := by decide +kernel
    rw [h] at this
    exact Option.some.inj this
  intro hportable
  have := hportable.1 [] "Work".toList "work".toList (by rw [hfolders]; decide)
    (by rw [hfolders]; decide) (by decide +kernel)
  revert this
  decide

end Sample

end Coppermind.Notes.Folders
