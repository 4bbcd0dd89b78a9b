import Coppermind.Lib.Assoc
import Mathlib.Data.List.Sort

/-!
# Volumes of files and folders

A volume maps paths, the lists of their components, to what stands there.  A folder may be
removed when nothing stands under it, so a set of folders that holds everything under each of
them can be removed one by one, the deepest first.
-/

namespace Coppermind.Lib

variable {κ δ : Type} [DecidableEq κ]

/-- What stands at a path. -/
inductive Node (δ : Type) where
  | file (data : δ)
  | folder
  /-- A link, and whether it leads to a folder; to nothing where it is broken. -/
  | link (toFolder : Option Bool)
  /-- A device, a socket, or what cannot be read. -/
  | other
deriving DecidableEq

/-- `is_dir()`, which follows a link. -/
def Node.isDir : Node δ → Bool
  | folder => true
  | link toFolder => toFolder = some true
  | _ => false

/-- `exists()`, which follows a link. -/
def Node.exists : Node δ → Bool
  | link toFolder => toFolder.isSome
  | _ => true

def Node.isFolder : Node δ → Bool
  | folder => true
  | _ => false

def Node.isLink : Node δ → Bool
  | link _ => true
  | _ => false

abbrev Volume (κ δ : Type) [DecidableEq κ] := AList fun _ : List κ => Node δ

namespace Volume

variable (v : Volume κ δ)

/-- Whether anything stands at a path. -/
def has (p : List κ) : Bool := (v.lookup p).isSome

/-- Whether anything stands at a path that is no broken link. -/
def existsAt (p : List κ) : Bool := (v.lookup p).any Node.exists

/-- Whether the path, or one it lies under, is a link. -/
def linked (p : List κ) : Bool := p.inits.any fun q => (v.lookup q).any Node.isLink

/-- What stands strictly under a path. -/
def under (p : List κ) : List (List κ) := v.keys.filter fun q => p.isPrefixOf q && q != p

/-- The folder at a path can be removed: it is one, and nothing stands under it. -/
def removable (p : List κ) : Bool := (v.lookup p).any Node.isFolder && (v.under p).isEmpty

end Volume

/-- `sorted(paths, key=depth, reverse=True)`. -/
def deepestFirst (paths : List (List κ)) : List (List κ) :=
  paths.insertionSort fun p q => q.length ≤ p.length

section Deepest

variable {paths rest : List (List κ)} {d p : List κ} {v : Volume κ δ}

omit [DecidableEq κ] in
@[simp] theorem mem_deepestFirst : p ∈ deepestFirst paths ↔ p ∈ paths :=
  List.mem_insertionSort _

omit [DecidableEq κ] in
theorem deepestFirst_sorted : (deepestFirst paths).Pairwise fun p q => q.length ≤ p.length :=
  List.pairwise_insertionSort _ _

theorem has_iff : v.has p = true ↔ ∃ node, v.lookup p = some node := Option.isSome_iff_exists

theorem mem_under : p ∈ v.under d ↔ v.has p = true ∧ d <+: p ∧ p ≠ d := by
  simp [Volume.under, Volume.has, AList.lookup_isSome, AList.mem_keys]

/-- Everything that stands under one of the paths is one of them. -/
def Enclosed (v : Volume κ δ) (paths : List (List κ)) : Prop :=
  ∀ d ∈ paths, ∀ p, v.has p = true → d <+: p → p ∈ paths

/-- **Nothing stands under the deepest path** of those that remain, where the others are gone. -/
theorem under_deepest (hsorted : ∀ p ∈ rest, p.length ≤ d.length) (hd : d ∈ paths)
    (henclosed : Enclosed v paths) (hgone : ∀ p ∈ paths, p ∉ d :: rest → v.has p = false) :
    v.under d = [] := by
  rw [List.eq_nil_iff_forall_not_mem]
  intro p hp
  obtain ⟨hhas, hbelow, hne⟩ := mem_under.1 hp
  have hpaths := henclosed d hd p hhas hbelow
  by_cases hrest : p ∈ d :: rest
  · rcases List.mem_cons.1 hrest with rfl | hrest
    · exact hne rfl
    · exact hne (hbelow.eq_of_length_le (hsorted p hrest)).symm
  · rw [hgone p hpaths hrest] at hhas
    cases hhas

end Deepest

end Coppermind.Lib
