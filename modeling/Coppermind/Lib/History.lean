import Mathlib.Data.List.Pairwise
import Mathlib.Order.Basic
import Mathlib.Algebra.Order.Ring.Int
import Mathlib.Tactic.Ring

/-!
# Logs of replacements

A register is replaced by one write after another.  `Linked` says that each write of a log
replaced what the one before it left.  Where a rank of the contents grows with every write, a
content is known by its rank, which is what a writer that compares ranks relies on; and what the
writes do to a view of the content, done one after another, is what the register ends with.
-/

namespace Coppermind.Lib

variable {σ ω τ : Type} (before after : ω → σ)

/-- The log leads from one content to another, each write from what the one before it left. -/
def Linked : σ → List ω → σ → Prop
  | s, [], s' => s = s'
  | s, w :: log, s' => before w = s ∧ Linked (after w) log s'

/-- The contents a log names, oldest first. -/
def contents (s : σ) (log : List ω) : List σ := s :: log.map after

variable {before after} {s s' : σ} {log : List ω} {w : ω}

theorem Linked.append (h : Linked before after s log s') (hw : before w = s') :
    Linked before after s (log ++ [w]) (after w) := by
  induction log generalizing s with
  | nil => exact ⟨hw.trans h.symm, rfl⟩
  | cons v log ih => exact ⟨h.1, ih h.2⟩

theorem Linked.last_mem (h : Linked before after s log s') : s' ∈ contents after s log := by
  induction log generalizing s with
  | nil => exact List.mem_singleton.2 h.symm
  | cons v log ih => exact List.mem_cons_of_mem _ (ih h.2)

theorem mem_contents_append {a : σ} (h : a ∈ contents after s log) :
    a ∈ contents after s (log ++ [w]) := by
  unfold contents at *
  rw [List.map_append, ← List.cons_append]
  exact List.mem_append_left _ h

section Rank

variable {ρ : Type} [Preorder ρ] {rank : σ → ρ}

/-- Later contents rank higher. -/
theorem Linked.pairwise (h : Linked before after s log s')
    (hrank : ∀ w ∈ log, rank (before w) < rank (after w)) :
    (contents after s log).Pairwise fun a b => rank a < rank b := by
  induction log generalizing s with
  | nil => exact List.pairwise_singleton _ _
  | cons v log ih =>
    obtain ⟨hv, h⟩ := h
    have hfirst : rank s < rank (after v) := hv ▸ hrank v List.mem_cons_self
    have hrest := ih h fun w hw => hrank w (List.mem_cons_of_mem _ hw)
    apply List.pairwise_cons.2 ⟨?_, hrest⟩
    intro a ha
    obtain rfl | ha := List.mem_cons.1 ha
    · exact hfirst
    · exact hfirst.trans ((List.pairwise_cons.1 hrest).1 a ha)

/-- **A content is known by its rank.** -/
theorem Linked.eq_of_rank (h : Linked before after s log s')
    (hrank : ∀ w ∈ log, rank (before w) < rank (after w)) {a b : σ}
    (ha : a ∈ contents after s log) (hb : b ∈ contents after s log) (hab : rank a = rank b) :
    a = b := by
  by_contra hne
  have hpair : (contents after s log).Pairwise fun a b => rank a ≠ rank b :=
    (h.pairwise hrank).imp fun hlt => hlt.ne
  have : Std.Symm fun a b => rank a ≠ rank b := ⟨fun _ _ hne => hne.symm⟩
  exact hpair.forall ha hb hne hab

end Rank

/-- A rank that grows by one with every write counts them. -/
theorem Linked.rank_eq {rank : σ → Int} (h : Linked before after s log s')
    (hrank : ∀ w ∈ log, rank (after w) = rank (before w) + 1) :
    rank s' = rank s + log.length := by
  induction log generalizing s with
  | nil =>
    obtain rfl : s = s' := h
    simp
  | cons v log ih =>
    obtain ⟨hv, h⟩ := h
    have hfirst := hrank v List.mem_cons_self
    have hrest := ih h fun w hw => hrank w (List.mem_cons_of_mem _ hw)
    rw [hv] at hfirst
    rw [hrest, hfirst, List.length_cons]
    push_cast
    ring

/-- The ranks of a log whose writes raise it by one. -/
theorem Linked.ranks {rank : σ → Int} (h : Linked before after s log s')
    (hrank : ∀ w ∈ log, rank (after w) = rank (before w) + 1) :
    log.map (fun w => rank (after w)) =
      (List.range log.length).map fun i : Nat => rank s + (i : Int) + 1 := by
  induction log generalizing s with
  | nil => rfl
  | cons v log ih =>
    obtain ⟨hv, h⟩ := h
    have hfirst := hrank v List.mem_cons_self
    rw [hv] at hfirst
    rw [List.map_cons, ih h fun w hw => hrank w (List.mem_cons_of_mem _ hw), List.length_cons,
      List.range_succ_eq_map, List.map_cons, List.map_map, hfirst]
    apply congrArg₂ List.cons
    · simp
    · apply List.map_congr_left
      intro i _
      rw [Function.comp_apply]
      push_cast
      ring

/-- **Replay**: a view of the content, taken through the writes one after another. -/
theorem Linked.foldl {view : σ → τ} {effect : ω → τ → τ} (h : Linked before after s log s')
    (heffect : ∀ w ∈ log, view (after w) = effect w (view (before w))) :
    view s' = log.foldl (fun t w => effect w t) (view s) := by
  induction log generalizing s with
  | nil =>
    obtain rfl : s = s' := h
    rfl
  | cons v log ih =>
    obtain ⟨hv, h⟩ := h
    rw [ih h fun w hw => heffect w (List.mem_cons_of_mem _ hw), List.foldl_cons,
      heffect v List.mem_cons_self, hv]

end Coppermind.Lib
