import Mathlib.Data.List.AList

/-!
# Association lists seen as functions

`view d` is what an association list answers at each key.  Inserting and erasing update it at
one key, so facts about a store kept in such lists are facts about updated functions.
-/

namespace Coppermind.Lib

variable {κ ν : Type} [DecidableEq κ]

/-- What the list holds at each key. -/
def view (d : AList fun _ : κ => ν) : κ → Option ν :=
  fun k => d.lookup k

theorem view_apply (d : AList fun _ : κ => ν) (k : κ) : view d k = d.lookup k := rfl

@[simp] theorem view_empty (k : κ) : view (∅ : AList fun _ : κ => ν) k = none :=
  AList.lookup_empty k

@[simp] theorem view_insert (d : AList fun _ : κ => ν) (k : κ) (v : ν) :
    view (d.insert k v) = Function.update (view d) k (some v) := by
  funext k'
  by_cases h : k' = k
  · subst h
    simp [view]
  · simp [view, Function.update_of_ne h, AList.lookup_insert_ne h]

@[simp] theorem view_erase (d : AList fun _ : κ => ν) (k : κ) :
    view (d.erase k) = Function.update (view d) k none := by
  funext k'
  by_cases h : k' = k
  · subst h
    simp [view]
  · simp [view, Function.update_of_ne h, AList.lookup_erase_ne h]

/-- Erasing what was inserted at a fresh key restores the list. -/
theorem erase_insert_of_lookup_none {d : AList fun _ : κ => ν} {k : κ} (v : ν)
    (h : d.lookup k = none) : (d.insert k v).erase k = d := by
  have hk : k ∉ d := AList.lookup_eq_none.1 h
  apply AList.ext
  show List.kerase k (d.insert k v).entries = d.entries
  rw [AList.entries_insert_of_notMem hk]
  exact List.kerase_cons_eq rfl

/-- What is inserted at a fresh key stands in front. -/
theorem entries_insert_of_lookup_none {d : AList fun _ : κ => ν} {k : κ} (v : ν)
    (h : d.lookup k = none) : (d.insert k v).entries = ⟨k, v⟩ :: d.entries :=
  AList.entries_insert_of_notMem (AList.lookup_eq_none.1 h)

/-- A value replaced by itself. -/
theorem replace_of_lookup {d : AList fun _ : κ => ν} {k : κ} {v : ν} (h : d.lookup k = some v) :
    d.replace k v = d := by
  apply AList.ext
  exact List.kreplace_self d.nodupKeys (AList.mem_lookup_iff.1 h)

/-- `d[k] = v`: a key keeps its place, a new one goes last. -/
def assign (d : AList fun _ : κ => ν) (k : κ) (v : ν) : AList fun _ : κ => ν :=
  if h : k ∈ d then d.replace k v
  else
    ⟨d.entries ++ [⟨k, v⟩], by
      have hkeys : (d.entries ++ [(⟨k, v⟩ : Sigma fun _ : κ => ν)]).keys = d.keys ++ [k] := by
        simp [List.keys, AList.keys]
      rw [List.NodupKeys, hkeys]
      apply List.nodup_append.2 ⟨d.keys_nodup, List.nodup_singleton k, ?_⟩
      intro a ha b hb hab
      obtain rfl := List.mem_singleton.1 hb
      exact h (AList.mem_keys.2 (hab ▸ ha))⟩

/-- The dictionary of a list of items. -/
def ofPairs (l : List (κ × ν)) : AList fun _ : κ => ν :=
  l.foldl (fun d e => assign d e.1 e.2) ∅

theorem entries_assign_of_notMem {d : AList fun _ : κ => ν} {k : κ} {v : ν} (h : k ∉ d) :
    (assign d k v).entries = d.entries ++ [⟨k, v⟩] := by
  rw [assign, dif_neg h]

theorem mem_assign {d : AList fun _ : κ => ν} {k k' : κ} {v : ν} :
    k' ∈ assign d k v ↔ k' = k ∨ k' ∈ d := by
  by_cases h : k ∈ d
  · rw [assign, dif_pos h, AList.mem_replace]
    constructor
    · exact Or.inr
    · intro h'
      obtain rfl | h' := h'
      · exact h
      · exact h'
  · rw [AList.mem_keys, AList.keys, entries_assign_of_notMem h, AList.mem_keys (s := d), AList.keys]
    simp [List.keys, or_comm]

theorem dlookup_kreplace {l : List (Sigma fun _ : κ => ν)} {k : κ} {v : ν} (hk : k ∈ l.keys) :
    (fun k' => List.dlookup k' (List.kreplace k v l)) =
      Function.update (fun k' => List.dlookup k' l) k (some v) := by
  induction l with
  | nil => cases hk
  | cons e l ih =>
    obtain ⟨k₀, v₀⟩ := e
    by_cases h : k = k₀
    · subst h
      have hreplace : List.kreplace k v (⟨k, v₀⟩ :: l) = ⟨k, v⟩ :: l :=
        List.lookmap_cons_some _ _ (if_pos rfl)
      rw [hreplace]
      funext k'
      by_cases hk' : k' = k
      · subst hk'
        simp
      · rw [Function.update_of_ne hk', List.dlookup_cons_ne _ _ hk', List.dlookup_cons_ne _ _ hk']
    · have hreplace : List.kreplace k v (⟨k₀, v₀⟩ :: l) = ⟨k₀, v₀⟩ :: List.kreplace k v l :=
        List.lookmap_cons_none _ _ (if_neg h)
      have hmem : k ∈ l.keys := by simpa [List.keys, h] using hk
      rw [hreplace]
      funext k'
      by_cases hk' : k' = k₀
      · subst hk'
        rw [Function.update_of_ne (Ne.symm h), List.dlookup_cons_eq, List.dlookup_cons_eq]
      · have htail := congrFun (ih hmem) k'
        rw [List.dlookup_cons_ne _ _ hk']
        refine htail.trans ?_
        by_cases hkk : k' = k
        · rw [hkk, Function.update_self, Function.update_self]
        · rw [Function.update_of_ne hkk, Function.update_of_ne hkk, List.dlookup_cons_ne _ _ hk']

@[simp] theorem view_assign (d : AList fun _ : κ => ν) (k : κ) (v : ν) :
    view (assign d k v) = Function.update (view d) k (some v) := by
  by_cases h : k ∈ d
  · rw [assign, dif_pos h]
    exact dlookup_kreplace (AList.mem_keys.1 h)
  · funext k'
    have hentries := entries_assign_of_notMem (v := v) h
    rw [view_apply, AList.lookup, hentries, List.dlookup_append]
    by_cases hk : k' = k
    · subst hk
      have hnone : List.dlookup k' d.entries = none := AList.lookup_eq_none.2 h
      rw [hnone, Function.update_self]
      simp
    · rw [Function.update_of_ne hk, List.dlookup_cons_ne _ _ hk]
      simp [view, AList.lookup]
theorem mem_foldl_assign {l : List (κ × ν)} {d : AList fun _ : κ => ν} {k : κ} :
    k ∈ l.foldl (fun d e => assign d e.1 e.2) d ↔ k ∈ d ∨ k ∈ l.map (·.1) := by
  induction l generalizing d with
  | nil => simp
  | cons e l ih =>
    rw [List.foldl_cons, ih, mem_assign, List.map_cons, List.mem_cons]
    tauto

theorem mem_ofPairs {l : List (κ × ν)} {k : κ} : k ∈ ofPairs l ↔ k ∈ l.map (·.1) := by
  rw [ofPairs, mem_foldl_assign]
  simp

/-- Items under new keys are assigned in their order. -/
theorem entries_foldl_assign {rest : List (Sigma fun _ : κ => ν)} {done : AList fun _ : κ => ν}
    (hnodup : (done.entries ++ rest).NodupKeys) :
    ((rest.map fun e => (e.1, e.2)).foldl (fun d e => assign d e.1 e.2) done).entries =
      done.entries ++ rest := by
  induction rest generalizing done with
  | nil => simp
  | cons e rest ih =>
    have hnew : e.1 ∉ done := by
      intro hmem
      have hkeys : (done.keys ++ e.1 :: rest.keys).Nodup := by
        simpa [List.NodupKeys, List.keys, AList.keys] using hnodup
      exact (List.disjoint_of_nodup_append hkeys) (AList.mem_keys.1 hmem) List.mem_cons_self
    have hentries := entries_assign_of_notMem (v := e.2) hnew
    rw [List.map_cons, List.foldl_cons, ih (by rw [hentries]; simpa using hnodup), hentries]
    simp

/-- The items of a dictionary are a dictionary's. -/
theorem ofPairs_entries (d : AList fun _ : κ => ν) :
    ofPairs (d.entries.map fun e => (e.1, e.2)) = d := by
  apply AList.ext
  rw [ofPairs, entries_foldl_assign (by simpa using d.nodupKeys)]
  simp

theorem mem_entries_iff_view {d : AList fun _ : κ => ν} {k : κ} {v : ν} :
    (⟨k, v⟩ : Sigma fun _ : κ => ν) ∈ d.entries ↔ view d k = some v := by
  rw [view_apply, AList.mem_lookup_iff.symm, Option.mem_def]

section Tables

variable {l l' : List (κ × ν)} {f : κ → Option ν} {d : AList fun _ : κ => ν}

/-- The list has, once, each item of the function. -/
structure Tabulates (l : List (κ × ν)) (f : κ → Option ν) : Prop where
  nodup : (l.map (·.1)).Nodup
  mem_iff : ∀ k v, (k, v) ∈ l ↔ f k = some v

omit [DecidableEq κ] in
theorem Tabulates.perm (h : Tabulates l f) (hperm : l'.Perm l) : Tabulates l' f where
  nodup := (hperm.map _).nodup_iff.2 h.nodup
  mem_iff k v := hperm.mem_iff.trans (h.mem_iff k v)

/-- The items of a dictionary. -/
theorem tabulates_entries (d : AList fun _ : κ => ν) :
    Tabulates (d.entries.map fun e => (e.1, e.2)) (view d) where
  nodup := by
    have hkeys : (d.entries.map fun e => (e.1, e.2)).map (·.1) = d.keys := by
      simp [AList.keys, List.keys]
    rw [hkeys]
    exact d.keys_nodup
  mem_iff k v := by
    rw [← mem_entries_iff_view, List.mem_map]
    constructor
    · intro h
      obtain ⟨⟨k', v'⟩, hmem, heq⟩ := h
      obtain ⟨rfl, rfl⟩ := Prod.mk.inj heq
      exact hmem
    · intro h
      exact ⟨⟨k, v⟩, h, rfl⟩

/-- What a dictionary holds after the items of a list were inserted one after another. -/
theorem view_foldl_insert (hnodup : (l.map (·.1)).Nodup) (k : κ) :
    (∀ v, (k, v) ∈ l → view (l.foldl (fun d e => d.insert e.1 e.2) d) k = some v) ∧
      (k ∉ l.map (·.1) → view (l.foldl (fun d e => d.insert e.1 e.2) d) k = view d k) := by
  induction l generalizing d with
  | nil => exact ⟨fun v h => absurd h (List.not_mem_nil), fun _ => rfl⟩
  | cons e l ih =>
    rw [List.map_cons, List.nodup_cons] at hnodup
    obtain ⟨hmem, habsent⟩ := ih (d := d.insert e.1 e.2) hnodup.2
    constructor
    · intro v hv
      obtain rfl | hv := List.mem_cons.1 hv
      · rw [List.foldl_cons, habsent hnodup.1, view_insert, Function.update_self]
      · exact hmem v hv
    · intro hk
      rw [List.map_cons, List.mem_cons, not_or] at hk
      rw [List.foldl_cons, habsent hk.2, view_insert, Function.update_of_ne hk.1]

/-- **A table read back** is the function it has the items of. -/
theorem Tabulates.view_foldl_insert (h : Tabulates l f) :
    view (l.foldl (fun d e => d.insert e.1 e.2) (∅ : AList fun _ : κ => ν)) = f := by
  funext k
  obtain ⟨hmem, habsent⟩ := Lib.view_foldl_insert (d := ∅) h.nodup k
  cases hf : f k with
  | some v => exact hmem v ((h.mem_iff k v).2 hf)
  | none =>
    refine (habsent ?_).trans (view_empty k)
    intro hk
    obtain ⟨⟨k', v⟩, hv, rfl⟩ := List.mem_map.1 hk
    rw [(h.mem_iff _ v).1 hv] at hf
    cases hf

end Tables

section Dropping

variable {drop : ν → Bool} {d d' d'' : AList fun _ : κ => ν} {k : κ} {v : ν}

/-- The list `d'` is `d` without some of the entries whose value is one to drop. -/
def Dropping (drop : ν → Bool) (d d' : AList fun _ : κ => ν) : Prop :=
  ∀ k, d'.lookup k = d.lookup k ∨ d'.lookup k = (d.lookup k).filter fun v => !drop v

/-- The list `d'` is `d` without the entries whose value is one to drop. -/
def Dropped (drop : ν → Bool) (d d' : AList fun _ : κ => ν) : Prop :=
  ∀ k, d'.lookup k = (d.lookup k).filter fun v => !drop v

theorem Dropping.refl : Dropping drop d d := fun _ => Or.inl rfl

theorem Dropped.dropping (h : Dropped drop d d') : Dropping drop d d' := fun k => Or.inr (h k)

/-- What is left was there. -/
theorem Dropping.lookup (h : Dropping drop d d') (hv : d'.lookup k = some v) :
    d.lookup k = some v := by
  obtain hsame | hfewer := h k
  · rw [← hsame, hv]
  · rw [hfewer, Option.filter_eq_some_iff] at hv
    exact hv.1

theorem Dropping.trans (h : Dropping drop d d') (h' : Dropping drop d' d'') :
    Dropping drop d d'' := by
  intro k
  obtain hsame | hfewer := h' k
  · rw [hsame]
    exact h k
  · refine Or.inr ?_
    obtain hsame | hfewer' := h k
    · rw [hfewer, hsame]
    · rw [hfewer, hfewer', Option.filter_filter]
      simp only [Bool.and_self]

/-- Entries that are gone stay gone where all that are to go are dropped. -/
theorem Dropping.dropped (h : Dropping drop d d') (h' : Dropped drop d' d'') :
    Dropped drop d d'' := by
  intro k
  obtain hsame | hfewer := h k
  · rw [h' k, hsame]
  · rw [h' k, hfewer, Option.filter_filter]
    simp only [Bool.and_self]

theorem Dropping.all (h : Dropping drop d d')
    (hnone : ∀ k v, d'.lookup k = some v → drop v = false) : Dropped drop d d' := by
  intro k
  obtain hsame | hfewer := h k
  · rw [← hsame]
    cases hv : d'.lookup k with
    | none => rfl
    | some v => rw [Option.filter_some, hnone k v hv, Bool.not_false, if_pos rfl]
  · exact hfewer

theorem dropping_erase (hdrop : ∀ v, d.lookup k = some v → drop v = true) :
    Dropping drop d (d.erase k) := by
  intro k'
  by_cases hk : k' = k
  · subst hk
    refine Or.inr ?_
    rw [AList.lookup_erase, eq_comm, Option.filter_eq_none_iff]
    intro v hv
    simp [hdrop v hv]
  · exact Or.inl (AList.lookup_erase_ne hk)

end Dropping

end Coppermind.Lib
