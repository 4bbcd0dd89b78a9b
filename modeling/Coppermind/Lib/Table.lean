import Mathlib.Data.List.Nodup

/-!
# Tables with a key

The rows of a table, no two of them with one key: what a database keeps of a table with a primary
key.  Deleting by a condition, changing rows in place and `INSERT … ON CONFLICT DO UPDATE` keep the
key, and each is known by what the table then answers at a key.
-/

namespace Coppermind.Lib

/-- Rows, no two with one key. -/
structure Table {κ ρ : Type} (key : ρ → κ) where
  rows : List ρ
  keyed : (rows.map key).Nodup

namespace Table

variable {κ ρ : Type} {key : ρ → κ}

def empty : Table key := ⟨[], List.nodup_nil⟩

/-- `DELETE … WHERE p`. -/
def delete (t : Table key) (p : ρ → Bool) : Table key :=
  ⟨t.rows.filter fun r => !p r, t.keyed.sublist (List.filter_sublist.map key)⟩

/-- `UPDATE` of columns outside the key. -/
def adjust (t : Table key) (f : ρ → ρ) (hf : ∀ r, key (f r) = key r) : Table key :=
  ⟨t.rows.map f, by
    have hkeys : (t.rows.map f).map key = t.rows.map key := by
      rw [List.map_map]
      exact List.map_congr_left fun r _ => hf r
    rw [hkeys]
    exact t.keyed⟩

variable [DecidableEq κ]

/-- The row at a key. -/
def find (t : Table key) (k : κ) : Option ρ := t.rows.find? (key · = k)

/-- `INSERT … ON CONFLICT DO UPDATE`. -/
def upsert (t : Table key) (r : ρ) : Table key :=
  ⟨t.rows.filter (key · ≠ key r) ++ [r], by
    rw [List.map_append, List.nodup_append]
    refine ⟨t.keyed.sublist (List.filter_sublist.map key), List.nodup_singleton _, ?_⟩
    intro a ha b hb hab
    obtain ⟨s, hs, rfl⟩ := List.mem_map.1 ha
    obtain rfl : b = key r := by simpa using hb
    simp [hab] at hs⟩

variable {t : Table key} {k : κ} {r s : ρ}

theorem find_eq_some : t.find k = some r ↔ r ∈ t.rows ∧ key r = k := by
  constructor
  · intro h
    exact ⟨List.mem_of_find?_eq_some h, by simpa using List.find?_some h⟩
  · rintro ⟨hr, rfl⟩
    cases hfound : t.find (key r) with
    | none => simpa using List.find?_eq_none.1 hfound r hr
    | some s =>
      have hkey : key s = key r := by simpa using List.find?_some hfound
      rw [List.inj_on_of_nodup_map t.keyed (List.mem_of_find?_eq_some hfound) hr hkey]

theorem find_of_mem (h : r ∈ t.rows) : t.find (key r) = some r := find_eq_some.2 ⟨h, rfl⟩

/-- What a table answers, by its rows. -/
theorem find_ext {o : Option ρ} (h : ∀ r, t.find k = some r ↔ o = some r) : t.find k = o :=
  Option.ext h

@[simp] theorem find_delete {p : ρ → Bool} : (t.delete p).find k = (t.find k).filter (!p ·) := by
  apply find_ext
  intro r
  rw [find_eq_some, Option.filter_eq_some_iff, find_eq_some, delete, List.mem_filter]
  tauto

/-- `DELETE … WHERE key = k'`. -/
theorem find_delete_key {k' : κ} :
    (t.delete fun r => key r = k').find k = if k = k' then none else t.find k := by
  apply find_ext
  intro r
  rw [find_eq_some, delete, List.mem_filter]
  split
  · next hk =>
    subst hk
    simp
  · next hk =>
    rw [find_eq_some]
    constructor
    · rintro ⟨⟨hr, -⟩, hkey⟩
      exact ⟨hr, hkey⟩
    · rintro ⟨hr, rfl⟩
      exact ⟨⟨hr, by simpa using hk⟩, rfl⟩

@[simp] theorem find_adjust {f : ρ → ρ} {hf : ∀ r, key (f r) = key r} :
    (t.adjust f hf).find k = (t.find k).map f := by
  apply find_ext
  intro r
  rw [find_eq_some, Option.map_eq_some_iff, adjust, List.mem_map]
  constructor
  · rintro ⟨⟨s, hs, rfl⟩, rfl⟩
    exact ⟨s, find_eq_some.2 ⟨hs, (hf s).symm⟩, rfl⟩
  · rintro ⟨s, hs, rfl⟩
    obtain ⟨hmem, rfl⟩ := find_eq_some.1 hs
    exact ⟨⟨s, hmem, rfl⟩, hf s⟩

@[simp] theorem find_upsert : (t.upsert s).find k = if key s = k then some s else t.find k := by
  apply find_ext
  intro r
  rw [find_eq_some, upsert, List.mem_append, List.mem_filter, List.mem_singleton]
  split
  · next hk =>
    subst hk
    constructor
    · rintro ⟨⟨-, hne⟩ | rfl, heq⟩
      · simp [heq] at hne
      · rfl
    · intro h
      obtain rfl := Option.some.inj h
      exact ⟨Or.inr rfl, rfl⟩
  · next hk =>
    rw [find_eq_some]
    constructor
    · rintro ⟨⟨hr, -⟩ | rfl, rfl⟩
      · exact ⟨hr, rfl⟩
      · exact absurd rfl hk
    · rintro ⟨hr, rfl⟩
      exact ⟨Or.inl ⟨hr, by simpa using Ne.symm hk⟩, rfl⟩

end Table

/-- Rows made of other rows, with their keys. -/
theorem filterMap_keys {α β κ : Type} {f : α → Option β} {ka : α → κ} {kb : β → κ} {l : List α}
    (h : ∀ a ∈ l, ∀ b, f a = some b → kb b = ka a) :
    ((l.filterMap f).map kb).Sublist (l.map ka) := by
  induction l with
  | nil => exact List.Sublist.refl _
  | cons a rest ih =>
    obtain ⟨ha, hrest⟩ := List.forall_mem_cons.1 h
    cases hf : f a with
    | none =>
      rw [List.filterMap_cons_none hf]
      exact (ih hrest).cons _
    | some b =>
      rw [List.filterMap_cons_some hf, List.map_cons, List.map_cons, ha b hf]
      exact (ih hrest).cons_cons _

section Folds

variable {σ κ ρ ο : Type} {key : ρ → κ} {f : σ → ρ → σ} {seen : κ → σ → ο} {I : σ → Prop}
  {rows : List ρ} {s : σ}

theorem foldl_keeps (hI : ∀ s, ∀ r ∈ rows, I s → I (f s r)) (hs : I s) : I (rows.foldl f s) := by
  induction rows generalizing s with
  | nil => exact hs
  | cons r rest ih =>
    obtain ⟨hr, hrest⟩ := List.forall_mem_cons.1 (fun r hr s => hI s r hr)
    exact ih (fun s r hr => hrest r hr s) (hr s hs)

/-- Writes at other keys are not seen. -/
theorem foldl_other (hother : ∀ s r k, key r ≠ k → seen k (f s r) = seen k s) {k : κ}
    (hk : ∀ r ∈ rows, key r ≠ k) : seen k (rows.foldl f s) = seen k s := by
  induction rows generalizing s with
  | nil => rfl
  | cons r rest ih =>
    obtain ⟨hr, hrest⟩ := List.forall_mem_cons.1 hk
    exact (ih hrest).trans (hother s r k hr)

/-- **A write in a batch**: where no two have one key, what is seen at the key of one of them is
what it wrote, over what was seen there before the batch. -/
theorem foldl_self (hother : ∀ s r k, key r ≠ k → seen k (f s r) = seen k s)
    (hI : ∀ s r, I s → I (f s r)) (hkeys : (rows.map key).Nodup) (hs : I s) {r : ρ} (hr : r ∈ rows)
    {Q : ο → Prop}
    (hself : ∀ s', I s' → seen (key r) s' = seen (key r) s → Q (seen (key r) (f s' r))) :
    Q (seen (key r) (rows.foldl f s)) := by
  induction rows generalizing s with
  | nil => cases hr
  | cons head rest ih =>
    obtain ⟨hhead, hrest⟩ := List.nodup_cons.1 hkeys
    rcases List.mem_cons.1 hr with rfl | hmem
    · rw [List.foldl_cons, foldl_other hother]
      · exact hself s hs rfl
      · intro r' hr' heq
        exact hhead (List.mem_map.2 ⟨r', hr', heq⟩)
    · refine ih hrest (hI s head hs) hmem fun s' hs' hseen => hself s' hs' (hseen.trans ?_)
      apply hother
      intro heq
      exact hhead (List.mem_map.2 ⟨r, hmem, heq.symm⟩)

end Folds

end Coppermind.Lib
