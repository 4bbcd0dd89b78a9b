import Mathlib.Data.List.Basic
import Mathlib.Order.Lattice

/-!
# Pages resumed by key

A table whose items are strictly ordered by a key, read in pages: a page starts behind a key, holds
the first items there and hands out the key of its last item while more stand behind it. The table
may be another one at every page. Following the keys from one page to the next, the items come in
the order of their keys, and whether an item is among them is decided by the table of one page, the
one that passes its key.
-/

namespace Coppermind.Lib.Keyset

variable {α κ : Type}

section Reached

variable (key : α → κ)

/-- The key a reader stands at behind `seen`. -/
def reached (after : Option κ) (seen : List α) : Option κ := (seen.getLast?.map key).or after

variable {key} {after : Option κ} {seen unseen : List α}

@[simp] theorem reached_nil : reached key after [] = after := rfl

theorem reached_append : reached key after (seen ++ unseen) =
    reached key (reached key after seen) unseen := by
  unfold reached
  rw [List.getLast?_append]
  cases unseen.getLast? <;> rfl

theorem reached_cons (r : α) : reached key after (r :: seen) =
    reached key (some (key r)) seen := by
  unfold reached
  rw [List.getLast?_cons]
  cases seen.getLast? <;> rfl

end Reached

variable [LinearOrder κ]

/-- Where a reader that stands at `after` resumes. -/
def Behind (after : Option κ) (k : κ) : Prop := ∀ a ∈ after, a < k

instance (after : Option κ) (k : κ) : Decidable (Behind after k) := by
  unfold Behind
  infer_instance

variable (key : α → κ)

/-- The items strictly in order. -/
abbrev Ordered (table : List α) : Prop := table.Pairwise fun r s => key r < key s

def behind (after : Option κ) (table : List α) : List α :=
  table.filter fun r => decide (Behind after (key r))

section Cuts

variable {key} {after : Option κ} {table seen unseen : List α}

theorem Ordered.behind (h : Ordered key table) : Ordered key (behind key after table) :=
  h.filter _

theorem mem_behind {r : α} : r ∈ behind key after table ↔ r ∈ table ∧ Behind after (key r) := by
  simp [behind]

/-- An item comes before all that stand later. -/
theorem Ordered.lt_of_cut (h : Ordered key (seen ++ unseen)) {r s : α} (hr : r ∈ seen)
    (hs : s ∈ unseen) : key r < key s :=
  (List.pairwise_append.1 h).2.2 r hr s hs

theorem Ordered.le_last (h : Ordered key seen) {r last : α} (hr : r ∈ seen)
    (hlast : seen.getLast? = some last) : key r ≤ key last := by
  obtain ⟨before, rfl⟩ := List.getLast?_eq_some_iff.1 hlast
  obtain hr | hr := List.mem_append.1 hr
  · exact le_of_lt (h.lt_of_cut hr (List.mem_singleton.2 rfl))
  · exact le_of_eq (by rw [List.mem_singleton.1 hr])

/-- **Behind what was seen** stands what was not seen. -/
theorem behind_reached (h : Ordered key table) (hcut : behind key after table = seen ++ unseen) :
    behind key (reached key after seen) table = unseen := by
  cases hlast : seen.getLast? with
  | none =>
    obtain rfl := List.getLast?_eq_none_iff.1 hlast
    exact hcut
  | some last =>
    have hordered : Ordered key (seen ++ unseen) := hcut ▸ h.behind
    have hmem : last ∈ seen := List.mem_of_getLast? hlast
    have hafter : Behind after (key last) := by
      have hlast : last ∈ behind key after table := hcut ▸ List.mem_append_left _ hmem
      exact (mem_behind.1 hlast).2
    have hreached : reached key after seen = some (key last) := by
      unfold reached
      rw [hlast]
      rfl
    -- Both bounds together are the later one, which only the unseen items pass.
    have hfilter : behind key (some (key last)) table =
        (behind key after table).filter fun r => decide (key last < key r) := by
      unfold behind
      rw [List.filter_filter]
      apply List.filter_congr
      intro r _
      rw [← Bool.decide_and, decide_eq_decide]
      constructor
      · intro hr
        have hlt := hr (key last) rfl
        exact ⟨hlt, fun a ha => lt_trans (hafter a ha) hlt⟩
      · rintro ⟨hlt, -⟩ a ha
        obtain rfl := Option.some.inj ha
        exact hlt
    rw [hreached, hfilter, hcut, List.filter_append]
    have hseen : seen.filter (fun r => decide (key last < key r)) = [] := by
      rw [List.filter_eq_nil_iff]
      intro r hr
      have hle := Ordered.le_last (List.pairwise_append.1 hordered).1 hr hlast
      simpa using hle
    have hunseen : unseen.filter (fun r => decide (key last < key r)) = unseen := by
      rw [List.filter_eq_self]
      intro s hs
      simpa using hordered.lt_of_cut hmem hs
    rw [hseen, hunseen, List.nil_append]

end Cuts

/-- A page, and the table it was read from. -/
structure Leaf (α κ : Type) where
  table : List α
  items : List α
  next : Option κ

/-- What a page behind `after` holds and hands out. -/
structure IsPage (limit : Nat) (after : Option κ) (leaf : Leaf α κ) : Prop where
  ordered : Ordered key leaf.table
  items : leaf.items = (behind key after leaf.table).take limit
  next : leaf.next =
    if limit < (behind key after leaf.table).length then leaf.items.getLast?.map key else none

/-- The pages from one that starts behind `after` to the first that hands out nothing. -/
inductive Follows (limit : Nat) : Option κ → List (Leaf α κ) → Prop
  | last {after : Option κ} {leaf : Leaf α κ} : IsPage key limit after leaf → leaf.next = none →
      Follows limit after [leaf]
  | more {after : Option κ} {leaf : Leaf α κ} {k : κ} {leaves : List (Leaf α κ)} :
      IsPage key limit after leaf → leaf.next = some k → Follows limit (some k) leaves →
      Follows limit after (leaf :: leaves)

/-- The page reaches a key: it is the last one, or resumes at the key or behind it. -/
def passes (k : κ) (leaf : Leaf α κ) : Bool := leaf.next.all fun next => decide (k ≤ next)

/-- What the pages hold, one after the other. -/
def returned (leaves : List (Leaf α κ)) : List α := leaves.flatMap (·.items)

section Following

variable {key} {limit : Nat} {after : Option κ}

theorem IsPage.mem_items {leaf : Leaf α κ} (h : IsPage key limit after leaf) {r : α}
    (hr : r ∈ leaf.items) : r ∈ leaf.table ∧ Behind after (key r) := by
  rw [h.items] at hr
  exact mem_behind.1 (List.mem_of_mem_take hr)

theorem IsPage.items_ordered {leaf : Leaf α κ} (h : IsPage key limit after leaf) :
    Ordered key leaf.items := by
  rw [h.items]
  exact h.ordered.behind.sublist (List.take_sublist _ _)

/-- A page that hands out a key ends with it. -/
theorem IsPage.next_some {leaf : Leaf α κ} (h : IsPage key limit after leaf) {k : κ}
    (hnext : leaf.next = some k) :
    ∃ last, leaf.items.getLast? = some last ∧ key last = k := by
  rw [h.next] at hnext
  split at hnext
  · exact Option.map_eq_some_iff.1 hnext
  · cases hnext

/-- A page that hands out nothing holds all that stands behind its start. -/
theorem IsPage.next_none {leaf : Leaf α κ} (h : IsPage key limit after leaf) (hpos : 0 < limit)
    (hnext : leaf.next = none) : leaf.items = behind key after leaf.table := by
  have hle : (behind key after leaf.table).length ≤ limit := by
    rw [h.next] at hnext
    split at hnext
    · next hlt =>
      have hempty := List.getLast?_eq_none_iff.1 (Option.map_eq_none_iff.1 hnext)
      rw [h.items, List.take_eq_nil_iff] at hempty
      obtain hzero | hnil := hempty
      · omega
      · rw [hnil] at hlt
        exact absurd hlt (Nat.not_lt_zero _)
    · next hle => exact Nat.le_of_not_lt hle
  rw [h.items, List.take_of_length_le hle]

/-- An item the page reaches is on it exactly if its table has it. -/
theorem IsPage.mem_items_iff {leaf : Leaf α κ} (h : IsPage key limit after leaf)
    (hpos : 0 < limit) {r : α} (hbehind : Behind after (key r))
    (hpasses : passes (key r) leaf = true) : r ∈ leaf.items ↔ r ∈ leaf.table := by
  constructor
  · intro hr
    exact (h.mem_items hr).1
  · intro hr
    have hmem : r ∈ behind key after leaf.table := mem_behind.2 ⟨hr, hbehind⟩
    cases hnext : leaf.next with
    | none => rwa [h.next_none hpos hnext]
    | some k =>
      obtain ⟨last, hlast, rfl⟩ := h.next_some hnext
      have hcut : behind key after leaf.table =
          leaf.items ++ (behind key after leaf.table).drop limit := by
        rw [h.items, List.take_append_drop]
      rw [hcut] at hmem
      obtain hmem | hmem := List.mem_append.1 hmem
      · exact hmem
      · -- An item that was cut off stands behind the last one.
        have hordered : Ordered key (leaf.items ++ (behind key after leaf.table).drop limit) :=
          hcut ▸ h.ordered.behind
        have hlt := hordered.lt_of_cut (List.mem_of_getLast? hlast) hmem
        have hle : key r ≤ key last := by
          simpa [passes, hnext] using hpasses
        exact absurd hlt (not_lt_of_ge hle)

variable {leaves : List (Leaf α κ)}

/-- Every item returned stands behind the start. -/
theorem Follows.behind_start (h : Follows key limit after leaves) :
    ∀ r ∈ returned leaves, Behind after (key r) := by
  induction h with
  | last hpage hnext =>
    intro r hr
    rw [returned, List.flatMap_singleton] at hr
    exact (hpage.mem_items hr).2
  | more hpage hnext hrest ih =>
    intro r hr
    rw [returned, List.flatMap_cons] at hr
    obtain hr | hr := List.mem_append.1 hr
    · exact (hpage.mem_items hr).2
    · obtain ⟨last, hlast, rfl⟩ := hpage.next_some hnext
      have hlt := ih r hr (key last) rfl
      intro a ha
      exact lt_trans ((hpage.mem_items (List.mem_of_getLast? hlast)).2 a ha) hlt

/-- **In order**: the items come strictly ordered by key, so none comes twice. -/
theorem Follows.ordered (h : Follows key limit after leaves) : Ordered key (returned leaves) := by
  induction h with
  | last hpage hnext =>
    rw [returned, List.flatMap_singleton]
    exact hpage.items_ordered
  | more hpage hnext hrest ih =>
    rw [returned, List.flatMap_cons]
    refine List.pairwise_append.2 ⟨hpage.items_ordered, ih, ?_⟩
    intro r hr s hs
    obtain ⟨last, hlast, rfl⟩ := hpage.next_some hnext
    have hlt := hrest.behind_start s hs (key last) rfl
    exact lt_of_le_of_lt (hpage.items_ordered.le_last hr hlast) hlt

/-- **One page decides**: an item is returned exactly if the table of the page that passes its
key has it. -/
theorem Follows.mem_returned_iff (h : Follows key limit after leaves) (hpos : 0 < limit) {r : α}
    (hbehind : Behind after (key r)) :
    ∃ leaf, leaves.find? (passes (key r)) = some leaf ∧
      (r ∈ returned leaves ↔ r ∈ leaf.table) := by
  induction h with
  | @last after leaf hpage hnext =>
    have hpasses : passes (key r) leaf = true := by simp [passes, hnext]
    refine ⟨leaf, List.find?_cons_of_pos hpasses, ?_⟩
    rw [returned, List.flatMap_singleton]
    exact hpage.mem_items_iff hpos hbehind hpasses
  | @more after leaf k leaves hpage hnext hrest ih =>
    obtain ⟨last, hlast, rfl⟩ := hpage.next_some hnext
    by_cases hle : key r ≤ key last
    · have hpasses : passes (key r) leaf = true := by simp [passes, hnext, hle]
      refine ⟨leaf, List.find?_cons_of_pos hpasses, ?_⟩
      rw [← hpage.mem_items_iff hpos hbehind hpasses, returned, List.flatMap_cons,
        List.mem_append]
      constructor
      · rintro (hr | hr)
        · exact hr
        · have hlt := hrest.behind_start r hr (key last) rfl
          exact absurd hlt (not_lt_of_ge hle)
      · exact Or.inl
    · have hlt : key last < key r := lt_of_not_ge hle
      have hpasses : ¬passes (key r) leaf = true := by simpa [passes, hnext] using hlt
      obtain ⟨found, hfound, hiff⟩ := ih (by rintro a ⟨⟩; exact hlt)
      refine ⟨found, by rw [List.find?_cons_of_neg hpasses, hfound], ?_⟩
      rw [← hiff, returned, List.flatMap_cons, List.mem_append]
      constructor
      · rintro (hr | hr)
        · exact absurd (hpage.items_ordered.le_last hr hlast) hle
        · exact hr
      · exact Or.inr

end Following

end Coppermind.Lib.Keyset
