import Coppermind.Sources.Citation

/-!
# The order a write gives the keys

`_ordered` after `_with_kinds`: the keys of the schema that are there, in the schema's order, then
the others.  What is in this order stays in it, and nothing is lost but the keys of the schema that
hold nothing.
-/

namespace Coppermind.Sources

open Coppermind.Lib Coppermind.Frontmatter Coppermind.Schema

section Mappings

variable {entries : Entries} {k : Text} {v : Value}

theorem mem_of_get? (h : entries.get? k = some v) : (Value.str k, v) ∈ entries := by
  unfold Entries.get? at h
  obtain ⟨e, hfind, rfl⟩ := Option.map_eq_some_iff.1 h
  have htext : e.1 = .str k := isText_iff.1 (by simpa using List.find?_some hfind)
  rw [← htext]
  exact List.mem_of_find?_eq_some hfind

/-- A mapping holds a key once. -/
theorem get?_eq_some_iff (hnodup : (entries.map (·.1)).Nodup) :
    entries.get? k = some v ↔ (Value.str k, v) ∈ entries := by
  constructor
  · exact mem_of_get?
  · intro hmem
    induction entries with
    | nil => cases hmem
    | cons entry rest ih =>
      rw [List.map_cons, List.nodup_cons] at hnodup
      rw [get?_cons]
      obtain rfl | hmem := List.mem_cons.1 hmem
      · rw [if_pos (isText_iff.2 rfl)]
      · rw [if_neg, ih hnodup.2 hmem]
        intro htext
        rw [isText_iff.1 htext] at hnodup
        exact hnodup.1 (List.mem_map.2 ⟨_, hmem, rfl⟩)

theorem present?_eq_some_iff : present? entries k = some v ↔ entries.get? k = some v ∧ v ≠ .null := by
  unfold present?
  cases hget : entries.get? k with
  | none => simp
  | some w =>
    cases w with
    | null =>
      simp only [reduceCtorEq, Option.some.injEq, false_iff, not_and, not_not]
      exact Eq.symm
    | _ =>
      simp only [Option.some.injEq]
      refine ⟨fun h => ⟨h, ?_⟩, And.left⟩
      rw [← h]
      simp

theorem present?_map {f : Value → Value → Value}
    (hf : ∀ w, f (.str k) w = .null ↔ w = .null) :
    present? (entries.map fun e => (e.1, f e.1 e.2)) k = (present? entries k).map (f (.str k)) := by
  apply Option.ext
  intro w
  rw [present?_eq_some_iff, get?_map, Option.map_eq_some_iff, Option.map_eq_some_iff]
  constructor
  · rintro ⟨⟨v, hv, rfl⟩, hne⟩
    exact ⟨v, present?_eq_some_iff.2 ⟨hv, fun h => hne ((hf v).2 h)⟩, rfl⟩
  · rintro ⟨v, hv, rfl⟩
    obtain ⟨hget, hne⟩ := present?_eq_some_iff.1 hv
    exact ⟨⟨v, hget, rfl⟩, fun h => hne ((hf v).1 h)⟩

theorem has_map (f : Value → Value → Value) :
    Entries.has k (entries.map fun e => (e.1, f e.1 e.2)) = entries.has k := by
  rw [Entries.has, Entries.has, List.any_map]
  rfl

theorem set_map (f : Value → Value → Value) :
    Entries.set k (f (.str k) v) (entries.map fun e => (e.1, f e.1 e.2)) =
      (entries.set k v).map fun e => (e.1, f e.1 e.2) := by
  unfold Entries.set
  rw [has_map]
  split
  · rw [List.map_map, List.map_map]
    apply List.map_congr_left
    intro e _
    dsimp only [Function.comp_apply]
    cases htext : e.1.isText k with
    | true => simp [isText_iff.1 htext]
    | false => simp
  · rw [List.map_append]
    rfl

end Mappings

section Arranged

variable {py : Python} (schema : FrontmatterSchema)

/-- A key the schema knows. -/
def isKnown (key : Value) : Bool := schema.keys.any fun definition => key.isText definition.name

/-- The known keys that hold something, in the schema's order, then the others. -/
def arranged (values : Entries) : Entries :=
  schema.keys.foldl (placed values) [] ++ values.filter fun entry => !isKnown schema entry.1

variable {schema}

theorem ordered_eq (values : Entries) :
    ordered py schema values = arranged schema (withKinds py schema values) := rfl

theorem isKnown_iff {key : Value} :
    isKnown schema key = true ↔ ∃ definition ∈ schema.keys, key = .str definition.name := by
  simp only [isKnown, List.any_eq_true, isText_iff]

theorem foldl_placed_map {values : Entries} {f : Value → Value → Value}
    {definitions : List KeyDefinition}
    (hf : ∀ definition ∈ definitions, ∀ w, f (.str definition.name) w = .null ↔ w = .null)
    (known : Entries) :
    definitions.foldl (placed (values.map fun e => (e.1, f e.1 e.2)))
        (known.map fun e => (e.1, f e.1 e.2)) =
      (definitions.foldl (placed values) known).map fun e => (e.1, f e.1 e.2) := by
  induction definitions generalizing known with
  | nil => rfl
  | cons definition rest ih =>
    rw [List.foldl_cons, List.foldl_cons, ← ih fun d hd => hf d (List.mem_cons_of_mem _ hd)]
    congr 1
    unfold placed
    rw [present?_map (hf definition List.mem_cons_self)]
    cases present? values definition.name with
    | none => rfl
    | some v => exact set_map f

/-- Values that change as their keys say keep their place. -/
theorem arranged_map {values : Entries} {f : Value → Value → Value}
    (hf : ∀ key, isKnown schema key = true → ∀ w, f key w = .null ↔ w = .null) :
    arranged schema (values.map fun e => (e.1, f e.1 e.2)) =
      (arranged schema values).map fun e => (e.1, f e.1 e.2) := by
  unfold arranged
  rw [List.map_append, List.filter_map]
  congr 1
  exact foldl_placed_map
    (fun definition hd => hf _ (isKnown_iff.2 ⟨definition, hd, rfl⟩)) []

/-- Where the loop over the schema has arrived: every entry holds what is there under its key, and
each key stands once. -/
structure Placed (values known : Entries) : Prop where
  present : ∀ e ∈ known, ∃ name, e.1 = .str name ∧ present? values name = some e.2
  nodup : (known.map (·.1)).Nodup

theorem Placed.set {values known : Entries} (h : Placed values known) {name : Text} {v : Value}
    (hv : present? values name = some v) :
    Placed values (known.set name v) ∧
      ∀ e, e ∈ known.set name v ↔ e ∈ known ∨ e = (.str name, v) := by
  have hsame : ∀ e ∈ known, e.1.isText name = true → e = (.str name, v) := by
    intro e he htext
    obtain ⟨name', hname', hpresent⟩ := h.present e he
    have hkey := isText_iff.1 htext
    rw [hname'] at hkey
    obtain rfl := Value.str.inj hkey
    rw [hv] at hpresent
    exact Prod.ext hname' (Option.some.inj hpresent).symm
  unfold Entries.set
  by_cases hhas : Entries.has name known = true
  · have hid : (known.map fun entry => if entry.1.isText name then (entry.1, v) else entry) = known := by
      conv_rhs => rw [← List.map_id known]
      apply List.map_congr_left
      intro e he
      split
      · next htext =>
        rw [hsame e he htext]
        rfl
      · rfl
    rw [if_pos hhas, hid]
    refine ⟨h, fun e => ⟨Or.inl, ?_⟩⟩
    rintro (he | rfl)
    · exact he
    · obtain ⟨e, he, htext⟩ := List.any_eq_true.1 hhas
      rw [← hsame e he htext]
      exact he
  · rw [if_neg hhas]
    refine ⟨⟨?_, ?_⟩, ?_⟩
    · intro e he
      obtain he | he := List.mem_append.1 he
      · exact h.present e he
      · obtain rfl := List.mem_singleton.1 he
        exact ⟨name, rfl, hv⟩
    · rw [List.map_append]
      refine h.nodup.append (List.nodup_singleton _) ?_
      rintro key hkey hlast
      obtain rfl := List.mem_singleton.1 hlast
      obtain ⟨e, he, hname⟩ := List.mem_map.1 hkey
      exact hhas (List.any_eq_true.2 ⟨e, he, isText_iff.2 hname⟩)
    · intro e
      rw [List.mem_append, List.mem_singleton]

theorem placed_foldl {values known : Entries} (h : Placed values known)
    (definitions : List KeyDefinition) :
    Placed values (definitions.foldl (placed values) known) ∧
      ∀ e, e ∈ definitions.foldl (placed values) known ↔
        e ∈ known ∨ ∃ definition ∈ definitions, e.1 = .str definition.name ∧
          present? values definition.name = some e.2 := by
  induction definitions generalizing known with
  | nil => simp [h]
  | cons definition rest ih =>
    rw [List.foldl_cons]
    cases hpresent : present? values definition.name with
    | none =>
      have hskip : placed values known definition = known := by rw [placed, hpresent]
      rw [hskip]
      obtain ⟨hplaced, hmem⟩ := ih h
      refine ⟨hplaced, fun e => (hmem e).trans (or_congr_right ?_)⟩
      simp [hpresent]
    | some v =>
      have hset : placed values known definition = known.set definition.name v := by
        rw [placed, hpresent]
      rw [hset]
      obtain ⟨hnext, hadded⟩ := h.set hpresent
      obtain ⟨hplaced, hmem⟩ := ih hnext
      refine ⟨hplaced, fun e => (hmem e).trans ?_⟩
      rw [hadded, or_assoc]
      apply or_congr_right
      have hfirst : e = (Value.str definition.name, v) ↔
          e.1 = .str definition.name ∧ present? values definition.name = some e.2 := by
        rw [hpresent, Option.some.injEq, Prod.ext_iff]
        exact and_congr_right fun _ => eq_comm
      simp [hfirst]

/-- The known keys of a mapping, as the loop leaves them. -/
theorem known_spec (values : Entries) :
    Placed values (schema.keys.foldl (placed values) []) ∧
      ∀ e, e ∈ schema.keys.foldl (placed values) [] ↔
        ∃ definition ∈ schema.keys, e.1 = .str definition.name ∧
          present? values definition.name = some e.2 := by
  simpa using @placed_foldl _ [] ⟨by simp, List.nodup_nil⟩ schema.keys

variable {values : Entries}

/-- **Nothing is lost** in the order but known keys that hold nothing. -/
theorem mem_arranged (hnodup : (values.map (·.1)).Nodup) {e : Value × Value} :
    e ∈ arranged schema values ↔ e ∈ values ∧ ¬(isKnown schema e.1 = true ∧ e.2 = .null) := by
  rw [arranged, List.mem_append, (known_spec values).2, List.mem_filter]
  constructor
  · rintro (⟨definition, hd, hname, hpresent⟩ | ⟨he, hother⟩)
    · obtain ⟨hget, hne⟩ := present?_eq_some_iff.1 hpresent
      refine ⟨?_, fun h => hne h.2⟩
      have hmem := mem_of_get? hget
      rw [← hname] at hmem
      exact hmem
    · refine ⟨he, fun h => ?_⟩
      simp [h.1] at hother
  · rintro ⟨he, hkeep⟩
    by_cases hknown : isKnown schema e.1 = true
    · left
      obtain ⟨definition, hd, hname⟩ := isKnown_iff.1 hknown
      refine ⟨definition, hd, hname, present?_eq_some_iff.2 ⟨?_, fun h => hkeep ⟨hknown, h⟩⟩⟩
      rw [get?_eq_some_iff hnodup, ← hname]
      exact he
    · exact Or.inr ⟨he, by simp [hknown]⟩

theorem nodup_arranged (hnodup : (values.map (·.1)).Nodup) :
    ((arranged schema values).map (·.1)).Nodup := by
  obtain ⟨hplaced, hmem⟩ := @known_spec schema values
  rw [arranged, List.map_append]
  refine hplaced.nodup.append (hnodup.sublist (List.filter_sublist.map _)) ?_
  intro key hknown hother
  obtain ⟨e, he, rfl⟩ := List.mem_map.1 hknown
  obtain ⟨e', he', heq⟩ := List.mem_map.1 hother
  obtain ⟨definition, hd, hname, -⟩ := (hmem e).1 he
  have hfalse := (List.mem_filter.1 he').2
  rw [heq, isKnown_iff.2 ⟨definition, hd, hname⟩] at hfalse
  cases hfalse

/-- **The order is settled**: what is in it stays in it. -/
theorem arranged_arranged : arranged schema (arranged schema values) = arranged schema values := by
  obtain ⟨hplaced, hmem⟩ := @known_spec schema values
  have hnone : ∀ definition ∈ schema.keys, Entries.get? definition.name
      (values.filter fun entry => !isKnown schema entry.1) = none := by
    intro definition hd
    rw [Option.eq_none_iff_forall_not_mem]
    intro v hv
    have hfalse := (List.mem_filter.1 (mem_of_get? hv)).2
    rw [isKnown_iff.2 ⟨definition, hd, rfl⟩] at hfalse
    cases hfalse
  have hpresent : ∀ definition ∈ schema.keys,
      present? (arranged schema values) definition.name = present? values definition.name := by
    intro definition hd
    apply Option.ext
    intro v
    rw [present?_eq_some_iff, arranged, get?_append, hnone definition hd, Option.or_none,
      get?_eq_some_iff hplaced.nodup, hmem]
    constructor
    · rintro ⟨⟨other, -, hname, hv⟩, -⟩
      rw [Value.str.inj hname]
      exact hv
    · intro hv
      exact ⟨⟨definition, hd, rfl, hv⟩, (present?_eq_some_iff.1 hv).2⟩
  have hfold : ∀ (definitions : List KeyDefinition) (known : Entries),
      (∀ definition ∈ definitions, definition ∈ schema.keys) →
      definitions.foldl (placed (arranged schema values)) known =
        definitions.foldl (placed values) known := by
    intro definitions
    induction definitions with
    | nil => intro known _; rfl
    | cons definition rest ih =>
      intro known hsub
      rw [List.foldl_cons, List.foldl_cons, ih _ fun d hd => hsub d (List.mem_cons_of_mem _ hd)]
      rw [placed, placed, hpresent definition (hsub definition List.mem_cons_self)]
  conv_lhs => rw [arranged, hfold schema.keys [] fun _ hd => hd]
  conv_rhs => rw [arranged]
  congr 1
  rw [arranged, List.filter_append, List.filter_filter]
  have hempty : (schema.keys.foldl (placed values) []).filter (fun entry => !isKnown schema entry.1) =
      [] := by
    rw [List.filter_eq_nil_iff]
    intro e he
    obtain ⟨definition, hd, hname, -⟩ := (hmem e).1 he
    simp [isKnown_iff.2 ⟨definition, hd, hname⟩]
  rw [hempty, List.nil_append]
  simp

end Arranged

end Coppermind.Sources
