import Mathlib.Data.Set.Lattice
import Mathlib.Order.WithBot

/-!
# Merging ranked versions

Versions of one thing are ranked; a merge keeps a version of the highest rank and the notes of
every version it met.  Where versions of one rank agree on a stamp, what is kept depends on the
set of versions alone: `Sums S v` says that `v` is what the merge of the set `S` keeps, and
`Covers S d` that a dictionary holds, under each key, what the merge of the versions in `S` with
that key keeps.  The lemmas put two merged sets together; order, grouping and repetition of the
versions are gone with the lists they came in.
-/

namespace Coppermind.Lib

variable {α κ ρ η ω : Type}

/-- How a merge looks at a version. -/
structure Ranking (α ρ η ω : Type) where
  rank : α → ρ
  stamp : α → η
  notes : α → Set ω

variable {r : Ranking α ρ η ω} {S T : Set α} {v u w : α}

/-- Versions of one rank have one stamp. -/
def Ranking.Agree (r : Ranking α ρ η ω) (S : Set α) : Prop :=
  ∀ a ∈ S, ∀ b ∈ S, r.rank a = r.rank b → r.stamp a = r.stamp b

/-- What the merge of a set of versions keeps. -/
structure Ranking.Sums [LinearOrder ρ] (r : Ranking α ρ η ω) (S : Set α) (v : α) : Prop where
  top : ∃ a ∈ S, r.rank a = r.rank v ∧ r.stamp a = r.stamp v
  bound : ∀ a ∈ S, r.rank a ≤ r.rank v
  notes : ∀ n, n ∈ r.notes v ↔ ∃ a ∈ S, n ∈ r.notes a

namespace Ranking

theorem Agree.mono (h : r.Agree T) (hsub : S ⊆ T) : r.Agree S :=
  fun a ha b hb => h a (hsub ha) b (hsub hb)

variable [LinearOrder ρ]

theorem Sums.single (a : α) : r.Sums {a} a where
  top := ⟨a, rfl, rfl, rfl⟩
  bound b hb := by rw [Set.mem_singleton_iff.1 hb]
  notes n := by simp

/-- Two merges that kept one rank kept one stamp, where the versions agree. -/
theorem Sums.stamp_eq (hS : r.Sums S v) (hT : r.Sums T u) (hagree : r.Agree (S ∪ T))
    (hrank : r.rank v = r.rank u) : r.stamp v = r.stamp u := by
  obtain ⟨a, ha, harank, hastamp⟩ := hS.top
  obtain ⟨b, hb, hbrank, hbstamp⟩ := hT.top
  have hab : r.stamp a = r.stamp b :=
    hagree a (Or.inl ha) b (Or.inr hb) (harank.trans (hrank.trans hbrank.symm))
  exact hastamp.symm.trans (hab.trans hbstamp)

/-- **Joining**: the merge of two merged sets keeps the higher of the two, with the notes of
both. -/
theorem Sums.join (hS : r.Sums S v) (hT : r.Sums T u)
    (hhigher : r.rank v < r.rank u → r.rank w = r.rank u ∧ r.stamp w = r.stamp u)
    (hkept : ¬r.rank v < r.rank u → r.rank w = r.rank v ∧ r.stamp w = r.stamp v)
    (hnotes : ∀ n, n ∈ r.notes w ↔ n ∈ r.notes v ∨ n ∈ r.notes u) : r.Sums (S ∪ T) w := by
  have hmax : r.rank v ≤ r.rank w ∧ r.rank u ≤ r.rank w := by
    by_cases hlt : r.rank v < r.rank u
    · rw [(hhigher hlt).1]
      exact ⟨hlt.le, le_rfl⟩
    · rw [(hkept hlt).1]
      exact ⟨le_rfl, not_lt.1 hlt⟩
  refine ⟨?_, ?_, ?_⟩
  · by_cases hlt : r.rank v < r.rank u
    · obtain ⟨a, ha, harank, hastamp⟩ := hT.top
      obtain ⟨hrank, hstamp⟩ := hhigher hlt
      exact ⟨a, Or.inr ha, harank.trans hrank.symm, hastamp.trans hstamp.symm⟩
    · obtain ⟨a, ha, harank, hastamp⟩ := hS.top
      obtain ⟨hrank, hstamp⟩ := hkept hlt
      exact ⟨a, Or.inl ha, harank.trans hrank.symm, hastamp.trans hstamp.symm⟩
  · intro a ha
    obtain ha | ha := ha
    · exact (hS.bound a ha).trans hmax.1
    · exact (hT.bound a ha).trans hmax.2
  · intro n
    rw [hnotes n, hS.notes n, hT.notes n]
    constructor
    · intro h
      obtain ⟨a, ha, hn⟩ | ⟨a, ha, hn⟩ := h
      · exact ⟨a, Or.inl ha, hn⟩
      · exact ⟨a, Or.inr ha, hn⟩
    · intro h
      obtain ⟨a, ha | ha, hn⟩ := h
      · exact Or.inl ⟨a, ha, hn⟩
      · exact Or.inr ⟨a, ha, hn⟩

/-- **Uniqueness**: what is kept depends on the set of versions alone. -/
theorem Sums.unique (hv : r.Sums S v) (hu : r.Sums S u) (hagree : r.Agree S) :
    r.rank v = r.rank u ∧ r.stamp v = r.stamp u ∧ r.notes v = r.notes u := by
  have hrank : r.rank v = r.rank u := by
    obtain ⟨a, ha, harank, -⟩ := hv.top
    obtain ⟨b, hb, hbrank, -⟩ := hu.top
    apply le_antisymm
    · exact harank ▸ hu.bound a ha
    · exact hbrank ▸ hv.bound b hb
  refine ⟨hrank, hv.stamp_eq hu (by rwa [Set.union_self]) hrank, ?_⟩
  ext n
  rw [hv.notes n, hu.notes n]

end Ranking

variable {key : α → Option κ} {d : κ → Option α} {k : κ}

/-- The versions under a key. -/
def underKey (key : α → Option κ) (S : Set α) (k : κ) : Set α := { a ∈ S | key a = some k }

theorem underKey_union : underKey key (S ∪ T) k = underKey key S k ∪ underKey key T k := by
  ext a
  simp only [underKey, Set.mem_ofPred_eq, Set.mem_union]
  tauto

theorem underKey_subset : underKey key S k ⊆ S := fun _ ha => ha.1

theorem underKey_of_all (h : ∀ a ∈ T, key a = some k) : underKey key T k = T := by
  ext a
  exact ⟨fun ha => ha.1, fun ha => ⟨ha, h a ha⟩⟩

theorem underKey_of_none {k' : κ} (h : ∀ a ∈ T, key a = some k) (hne : k' ≠ k) :
    underKey key T k' = ∅ := by
  ext a
  constructor
  · intro ha
    have hk : some k' = some k := ha.2.symm.trans (h a ha.1)
    exact absurd (Option.some.inj hk) hne
  · intro ha
    cases ha

/-- A dictionary holds what the merge of a set of versions keeps, key by key. -/
structure Ranking.Covers [LinearOrder ρ] (r : Ranking α ρ η ω) (key : α → Option κ) (S : Set α)
    (d : κ → Option α) : Prop where
  held : ∀ k v, d k = some v → key v = some k ∧ r.Sums (underKey key S k) v
  absent : ∀ k, d k = none → underKey key S k = ∅

namespace Ranking

variable [LinearOrder ρ]

theorem Covers.empty : r.Covers key ∅ (fun _ : κ => none) where
  held k v h := by cases h
  absent k _ := by
    ext a
    exact ⟨fun ha => ha.1, fun ha => ha.elim⟩

/-- **Putting**: a dictionary takes the merge of a set of versions of one key. -/
theorem Covers.put [DecidableEq κ] (h : r.Covers key S d) (hT : ∀ a ∈ T, key a = some k)
    (hw : key w = some k) (hsums : r.Sums (underKey key S k ∪ T) w) :
    r.Covers key (S ∪ T) (Function.update d k (some w)) where
  held k' v hv := by
    by_cases hk : k' = k
    · subst hk
      rw [Function.update_self] at hv
      obtain rfl := Option.some.inj hv
      rw [underKey_union, underKey_of_all hT]
      exact ⟨hw, hsums⟩
    · rw [Function.update_of_ne hk] at hv
      rw [underKey_union, underKey_of_none hT hk, Set.union_empty]
      exact h.held k' v hv
  absent k' hv := by
    by_cases hk : k' = k
    · subst hk
      rw [Function.update_self] at hv
      cases hv
    · rw [Function.update_of_ne hk] at hv
      rw [underKey_union, underKey_of_none hT hk, Set.union_empty]
      exact h.absent k' hv

/-- The keys of the dictionary are the keys of the versions. -/
theorem Covers.isSome_iff (h : r.Covers key S d) (k : κ) :
    (d k).isSome = true ↔ ∃ a ∈ S, key a = some k := by
  cases hd : d k with
  | none =>
    have hempty := h.absent k hd
    constructor
    · intro h'
      cases h'
    · intro h'
      obtain ⟨a, ha, hk⟩ := h'
      have : a ∈ underKey key S k := ⟨ha, hk⟩
      rw [hempty] at this
      cases this
  | some v =>
    obtain ⟨a, ha, -⟩ := (h.held k v hd).2.top
    exact ⟨fun _ => ⟨a, ha.1, ha.2⟩, fun _ => rfl⟩

end Ranking

end Coppermind.Lib
