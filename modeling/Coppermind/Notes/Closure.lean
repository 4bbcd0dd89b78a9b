import Coppermind.Frontmatter.Lookup
import Coppermind.Notes.Adoption
import Coppermind.Schema.Agreement

/-!
# What adoption fills

One turn of the loop of `_adoption_changes` fills the keys that are required, empty and have a
default (`Fillable`), whatever the order of the schema.  Every turn but the last fills an empty key
of the schema, so that the loop ends, and it ends at a mapping in which nothing is fillable.
-/

namespace Coppermind.Notes

open Coppermind.Lib Coppermind.Frontmatter Coppermind.Schema

section Statement

variable (lib : Libraries) (schema : FrontmatterSchema) (localNow : DateTime)

/-- `{**frontmatter, **changes}`. -/
def updated (frontmatter : Entries) (changes : Changes) : Entries :=
  changes.foldl (fun effective change => effective.set change.1 change.2) frontmatter

/-- The values adoption may fill. -/
def availableValues (noteId : Text) : Changes :=
  setDefault (setDefault (setChange schema.defaults schema.roles.idKey (.str noteId))
    schema.roles.schemaVersionKey (.int 1)) schema.roles.dateKey (.date localNow.date)

/-- The changes before the loop: the identifier and the date. -/
def firstChanges (frontmatter : Entries) (noteId : Text) : Changes :=
  let changes : Changes :=
    if (present? frontmatter schema.roles.idKey).isNone then [(schema.roles.idKey, .str noteId)] else []
  if (present? frontmatter schema.roles.dateKey).isNone &&
      (noteDate lib.py schema.roles.dateKey frontmatter).isNone then
    setChange changes schema.roles.dateKey
      (if (parseNoteTime lib.py (frontmatter.get? "time".toList)).present then .date localNow.date
      else defaultNoteTime lib schema localNow frontmatter)
  else changes

/-- The `while True` of `_adoption_changes`: from changes and a mapping, the mappings it asks the
schema about and the changes it returns. -/
inductive Fills (available : Changes) : Changes → Entries → List Entries → Changes → Prop
  | last {changes changes' : Changes} {effective effective' : Entries} :
      fillRequired available (schema.requiredKeys lib.py effective) schema.keys
        (changes, effective, false) = (changes', effective', false) →
      Fills available changes effective [effective] changes'
  | turn {changes changes' result : Changes} {effective effective' : Entries}
      {mappings : List Entries} :
      fillRequired available (schema.requiredKeys lib.py effective) schema.keys
        (changes, effective, false) = (changes', effective', true) →
      Fills available changes' effective' mappings result →
      Fills available changes effective (effective :: mappings) result

/-- A key that is required, empty and has a value to fill in. -/
def Fillable (available : Changes) (required : List Text) (effective : Entries) (key : Text) : Prop :=
  key ∈ required ∧ present? effective key = none ∧ (change? available key).isSome

/-- The definitions of one key that give it a default give it the same. -/
def ConsistentDefaults : Prop :=
  ∀ d ∈ schema.keys, ∀ e ∈ schema.keys, d.name = e.name →
    d.default ∈ [none, some .null] ∨ e.default ∈ [none, some .null] ∨ d.default = e.default

end Statement

section Changes

theorem change?_cons (entry : Text × Value) (changes : Changes) (k : Text) :
    change? (entry :: changes) k = if entry.1 = k then some entry.2 else change? changes k := by
  unfold change?
  by_cases h : entry.1 = k
  · rw [List.find?_cons_of_pos (by simpa using h), if_pos h]
    rfl
  · rw [List.find?_cons_of_neg (by simpa using h), if_neg h]

theorem any_key_iff {changes : Changes} {key : Text} :
    changes.any (·.1 == key) = true ↔ (change? changes key).isSome := by
  induction changes with
  | nil => simp [change?]
  | cons entry rest ih =>
    rw [List.any_cons, change?_cons]
    by_cases h : entry.1 = key
    · simp [h]
    · simp [h, ih]

theorem change?_append_singleton {changes : Changes} {key : Text} {value : Value}
    (h : change? changes key = none) (k : Text) :
    change? (changes ++ [(key, value)]) k = if k = key then some value else change? changes k := by
  induction changes with
  | nil =>
    rw [List.nil_append, change?_cons]
    by_cases hk : k = key
    · simp [hk]
    · simp [hk, Ne.symm hk]
  | cons entry rest ih =>
    rw [change?_cons] at h
    rw [List.cons_append, change?_cons, change?_cons]
    by_cases hentry : entry.1 = key
    · rw [if_pos hentry] at h
      cases h
    · rw [if_neg hentry] at h
      rw [ih h]
      by_cases hk : k = key
      · rw [if_neg (by rwa [hk]), if_pos hk, if_pos hk]
      · rw [if_neg hk, if_neg hk]

theorem change?_replace (changes : Changes) (key : Text) (value : Value) (k : Text) :
    change? (changes.map fun entry => if entry.1 == key then (key, value) else entry) k =
      if k = key then (change? changes key).map fun _ => value else change? changes k := by
  induction changes with
  | nil => simp [change?]
  | cons entry rest ih =>
    rw [List.map_cons, change?_cons, change?_cons, change?_cons, ih]
    by_cases hentry : entry.1 = key
    · by_cases hk : k = key
      · simp [hentry, hk]
      · simp [hentry, hk, Ne.symm hk]
    · by_cases hk : k = key
      · simp [hentry, hk]
      · simp [hentry, hk]

theorem change?_setChange (changes : Changes) (key : Text) (value : Value) (k : Text) :
    change? (setChange changes key value) k = if k = key then some value else change? changes k := by
  unfold setChange
  by_cases hany : changes.any (·.1 == key) = true
  · rw [if_pos hany, change?_replace]
    rw [any_key_iff, Option.isSome_iff_exists] at hany
    obtain ⟨old, hold⟩ := hany
    rw [hold, Option.map_some]
  · rw [if_neg hany]
    rw [any_key_iff, Bool.not_eq_true, Option.isSome_eq_false_iff, Option.isNone_iff_eq_none] at hany
    exact change?_append_singleton hany k

theorem change?_setDefault (changes : Changes) (key : Text) (value : Value) (k : Text) :
    change? (setDefault changes key value) k =
      if k = key then some ((change? changes key).getD value) else change? changes k := by
  unfold setDefault
  by_cases hany : changes.any (·.1 == key) = true
  · rw [if_pos hany]
    rw [any_key_iff, Option.isSome_iff_exists] at hany
    obtain ⟨old, hold⟩ := hany
    by_cases hk : k = key
    · rw [if_pos hk, hk, hold, Option.getD_some]
    · rw [if_neg hk]
  · rw [if_neg hany]
    rw [any_key_iff, Bool.not_eq_true, Option.isSome_eq_false_iff, Option.isNone_iff_eq_none] at hany
    rw [change?_append_singleton hany, hany, Option.getD_none]

/-- The keys of a mapping are set once each. -/
theorem nodup_setChange {changes : Changes} (h : (changes.map (·.1)).Nodup) (key : Text)
    (value : Value) : ((setChange changes key value).map (·.1)).Nodup := by
  unfold setChange
  split
  · rw [List.map_map]
    have hkeys : (fun entry : Text × Value => entry.1) ∘
        (fun entry => if entry.1 == key then (key, value) else entry) = (·.1) := by
      funext entry
      by_cases hentry : entry.1 = key <;> simp [hentry]
    rwa [hkeys]
  · next hany =>
    rw [List.map_append, List.nodup_append]
    refine ⟨h, by simp, ?_⟩
    rintro k hk _ hlast rfl
    obtain ⟨entry, hentry, rfl⟩ := List.mem_map.1 hk
    obtain hlast : entry.1 = key := by simpa using hlast
    exact hany (List.any_eq_true.2 ⟨entry, hentry, by simpa using hlast⟩)

/-- A mapping after changes: a change counts, and else what was there. -/
theorem get?_updated {changes : Changes} (h : (changes.map (·.1)).Nodup) (frontmatter : Entries)
    (k : Text) :
    (updated frontmatter changes).get? k = (change? changes k).or (frontmatter.get? k) := by
  induction changes generalizing frontmatter with
  | nil => rfl
  | cons entry rest ih =>
    rw [List.map_cons, List.nodup_cons] at h
    have hrest := ih h.2 (frontmatter.set entry.1 entry.2)
    rw [updated, List.foldl_cons]
    change (updated _ rest).get? k = _
    rw [hrest, change?_cons]
    by_cases hk : entry.1 = k
    · subst hk
      have hnone : change? rest entry.1 = none := by
        by_contra hsome
        rw [← Ne, Option.ne_none_iff_isSome, ← any_key_iff, List.any_eq_true] at hsome
        obtain ⟨other, hother, heq⟩ := hsome
        exact h.1 (List.mem_map.2 ⟨other, hother, by simpa using heq⟩)
      rw [hnone, Option.none_or, get?_set_self, if_pos rfl, Option.some_or]
    · rw [get?_set_of_ne (Ne.symm hk), if_neg hk]

end Changes

section Turn

variable {available : Changes} {required : List Text}

theorem present?_eq_none {entries others : Entries} {k : Text} (h : entries.get? k = others.get? k) :
    present? entries k = present? others k := by
  unfold present?
  rw [h]

theorem Fillable.congr {entries others : Entries} {k : Text} (h : entries.get? k = others.get? k) :
    Fillable available required entries k ↔ Fillable available required others k := by
  unfold Fillable
  rw [present?_eq_none h]

/-- What the fold over some definitions does. -/
structure Turned (available : Changes) (required names : List Text) (changes : Changes)
    (effective : Entries) (added : Bool) (filled : Changes × Entries × Bool) : Prop where
  filled_get : ∀ k, k ∈ names → Fillable available required effective k →
    filled.2.1.get? k = change? available k ∧ change? filled.1 k = change? available k
  other_get : ∀ k, ¬ (k ∈ names ∧ Fillable available required effective k) →
    filled.2.1.get? k = effective.get? k ∧ change? filled.1 k = change? changes k
  added_iff : filled.2.2 = true ↔
    added = true ∨ ∃ k, k ∈ names ∧ Fillable available required effective k
  nodup : (changes.map (·.1)).Nodup → (filled.1.map (·.1)).Nodup

/-- A definition that nothing is filled for. -/
theorem Turned.skip {names : List Text} {changes : Changes} {effective : Entries} {added : Bool}
    {filled : Changes × Entries × Bool} {name : Text}
    (h : Turned available required names changes effective added filled)
    (hname : ¬ Fillable available required effective name) :
    Turned available required (name :: names) changes effective added filled := by
  have hsame : ∀ k, k ∈ name :: names ∧ Fillable available required effective k ↔
      k ∈ names ∧ Fillable available required effective k := by
    intro k
    constructor
    · rintro ⟨hk, hfill⟩
      obtain rfl | hk := List.mem_cons.1 hk
      · exact absurd hfill hname
      · exact ⟨hk, hfill⟩
    · exact fun hk => ⟨List.mem_cons_of_mem _ hk.1, hk.2⟩
  refine ⟨fun k hk hfill => h.filled_get k ((hsame k).1 ⟨hk, hfill⟩).1 hfill, ?_, ?_, h.nodup⟩
  · intro k hk
    exact h.other_get k (fun hboth => hk ((hsame k).2 hboth))
  · simp only [hsame]
    exact h.added_iff

/-- A definition whose key is filled. -/
theorem Turned.fill {names : List Text} {changes : Changes} {effective : Entries} {added : Bool}
    {filled : Changes × Entries × Bool} {name : Text} {value : Value}
    (h : Turned available required names (setChange changes name value) (effective.set name value)
      true filled)
    (hname : Fillable available required effective name)
    (hvalue : change? available name = some value) :
    Turned available required (name :: names) changes effective added filled := by
  have hother : ∀ k, k ≠ name → (Fillable available required (effective.set name value) k ↔
      Fillable available required effective k) := fun k hk =>
    Fillable.congr (get?_set_of_ne hk effective)
  refine ⟨?_, ?_, ?_, fun hnodup => h.nodup (nodup_setChange hnodup name value)⟩
  · intro k hk hfill
    by_cases hagain : k ∈ names ∧ Fillable available required (effective.set name value) k
    · exact h.filled_get k hagain.1 hagain.2
    · obtain ⟨hget, hchange⟩ := h.other_get k hagain
      have heq : k = name := by
        by_contra hne
        exact hagain ⟨(List.mem_cons.1 hk).resolve_left hne, (hother k hne).2 hfill⟩
      subst heq
      rw [hget, hchange, get?_set_self, change?_setChange, if_pos rfl, hvalue]
      exact ⟨rfl, rfl⟩
  · intro k hk
    have hne : k ≠ name := by
      rintro rfl
      exact hk ⟨List.mem_cons_self, hname⟩
    obtain ⟨hget, hchange⟩ := h.other_get k fun hboth =>
      hk ⟨List.mem_cons_of_mem _ hboth.1, (hother k hne).1 hboth.2⟩
    rw [hget, hchange, get?_set_of_ne hne, change?_setChange, if_neg hne]
    exact ⟨rfl, rfl⟩
  · exact ⟨fun _ => .inr ⟨name, List.mem_cons_self, hname⟩, fun _ => h.added_iff.2 (.inl rfl)⟩

theorem turned_fillRequired (definitions : List KeyDefinition) (changes : Changes)
    (effective : Entries) (added : Bool) :
    Turned available required (definitions.map (·.name)) changes effective added
      (fillRequired available required definitions (changes, effective, added)) := by
  induction definitions generalizing changes effective added with
  | nil =>
    refine ⟨nofun, fun k _ => ⟨rfl, rfl⟩, ?_, id⟩
    constructor
    · exact .inl
    · rintro (h | ⟨k, hk, -⟩)
      · exact h
      · cases hk
  | cons definition rest ih =>
    rw [fillRequired, List.map_cons]
    cases hvalue : change? available definition.name with
    | none =>
      apply (ih changes effective added).skip
      rintro ⟨-, -, hsome⟩
      rw [hvalue] at hsome
      cases hsome
    | some value =>
      by_cases hfill : definition.name ∈ required ∧ (present? effective definition.name).isNone
      · simp only [if_pos hfill]
        exact (ih _ _ true).fill ⟨hfill.1, Option.isNone_iff_eq_none.1 hfill.2, by rw [hvalue]; rfl⟩
          hvalue
      · simp only [if_neg hfill]
        apply (ih changes effective added).skip
        rintro ⟨hrequired, hempty, -⟩
        exact hfill ⟨hrequired, Option.isNone_iff_eq_none.2 hempty⟩

end Turn

section Loop

variable {lib : Libraries} {schema : FrontmatterSchema} {available : Changes}

/-- What a schema requires depends on what is looked up. -/
theorem mem_requiredKeys_congr {k : Text} {entries others : Entries}
    (h : ∀ k, entries.get? k = others.get? k) :
    k ∈ schema.requiredKeys lib.py entries ↔ k ∈ schema.requiredKeys lib.py others := by
  have hrequires : ∀ definition, requires definition entries = requires definition others := by
    intro definition
    unfold requires
    simp only [h]
  simp only [mem_requiredKeys, hrequires, FrontmatterSchema.dateSatisfiedByTime, h]

/-- The next turn of the loop. -/
abbrev turned (lib : Libraries) (schema : FrontmatterSchema) (available changes : Changes)
    (effective : Entries) : Changes × Entries × Bool :=
  fillRequired available (schema.requiredKeys lib.py effective) schema.keys (changes, effective, false)

theorem turned_spec (changes : Changes) (effective : Entries) :
    (∀ k, Fillable available (schema.requiredKeys lib.py effective) effective k →
      (turned lib schema available changes effective).2.1.get? k = change? available k ∧
        change? (turned lib schema available changes effective).1 k = change? available k) ∧
    (∀ k, ¬ Fillable available (schema.requiredKeys lib.py effective) effective k →
      (turned lib schema available changes effective).2.1.get? k = effective.get? k ∧
        change? (turned lib schema available changes effective).1 k = change? changes k) ∧
    ((turned lib schema available changes effective).2.2 = true ↔
      ∃ k, Fillable available (schema.requiredKeys lib.py effective) effective k) ∧
    ((changes.map (·.1)).Nodup → ((turned lib schema available changes effective).1.map (·.1)).Nodup) := by
  have h := @turned_fillRequired available (schema.requiredKeys lib.py effective) schema.keys changes
    effective false
  have hnames : ∀ k, Fillable available (schema.requiredKeys lib.py effective) effective k →
      k ∈ schema.keys.map (·.name) := by
    rintro k ⟨hrequired, -, -⟩
    obtain ⟨definition, hmem, -, -, rfl⟩ := mem_requiredKeys.1 hrequired
    exact List.mem_map_of_mem hmem
  refine ⟨fun k hk => h.filled_get k (hnames k hk) hk, ?_, ?_, h.nodup⟩
  · exact fun k hk => h.other_get k fun hboth => hk hboth.2
  · rw [h.added_iff]
    constructor
    · rintro (hfalse | ⟨k, -, hk⟩)
      · cases hfalse
      · exact ⟨k, hk⟩
    · rintro ⟨k, hk⟩
      exact .inr ⟨k, hnames k hk, hk⟩

/-- The keys of the schema that are empty. -/
def emptyKeys (schema : FrontmatterSchema) (effective : Entries) : List KeyDefinition :=
  schema.keys.filter fun definition => (present? effective definition.name).isNone

/-- A turn that fills a key leaves fewer of them empty. -/
theorem length_emptyKeys_lt (hnull : ∀ k, change? available k ≠ some .null) (changes : Changes)
    (effective : Entries) (h : (turned lib schema available changes effective).2.2 = true) :
    (emptyKeys schema (turned lib schema available changes effective).2.1).length <
      (emptyKeys schema effective).length := by
  obtain ⟨hfilled, hother, hadded, -⟩ := @turned_spec lib schema available changes effective
  generalize turned lib schema available changes effective = filled at hfilled hother hadded h
  have hpresent : ∀ k, Fillable available (schema.requiredKeys lib.py effective) effective k →
      (present? filled.2.1 k).isNone = false := by
    intro k hk
    obtain ⟨value, hvalue⟩ := Option.isSome_iff_exists.1 hk.2.2
    have hne : value ≠ .null := by
      rintro rfl
      exact hnull k hvalue
    rw [present?_of_get? ((hfilled k hk).1.trans hvalue) hne]
    rfl
  have hle : ∀ k, (present? filled.2.1 k).isNone = true → (present? effective k).isNone = true := by
    intro k hk
    by_cases hfill : Fillable available (schema.requiredKeys lib.py effective) effective k
    · rw [hpresent k hfill] at hk
      cases hk
    · rwa [present?_eq_none (hother k hfill).1] at hk
  have hsub : emptyKeys schema filled.2.1 = (emptyKeys schema effective).filter
      fun definition => (present? filled.2.1 definition.name).isNone := by
    rw [emptyKeys, emptyKeys, List.filter_filter]
    apply List.filter_congr
    intro definition _
    by_cases hk : (present? filled.2.1 definition.name).isNone = true
    · rw [hk, hle _ hk]
      rfl
    · rw [Bool.not_eq_true] at hk
      rw [hk]
      rfl
  rw [hsub, List.length_filter_lt_length_iff_exists]
  obtain ⟨k, hk⟩ := hadded.1 h
  obtain ⟨definition, hmem, -, -, rfl⟩ := mem_requiredKeys.1 hk.1
  refine ⟨definition, List.mem_filter.2 ⟨hmem, Option.isNone_iff_eq_none.2 hk.2.1⟩, ?_⟩
  rw [hpresent _ hk]
  exact Bool.false_ne_true

/-- **The loop ends**, within the turns the model gives it. -/
theorem fills_fillLoop (hnull : ∀ k, change? available k ≠ some .null) {fuel : Nat}
    {changes : Changes} {effective : Entries} (hfuel : (emptyKeys schema effective).length < fuel) :
    ∃ mappings, Fills lib schema available changes effective mappings
      (fillLoop lib schema available fuel changes effective) := by
  induction fuel generalizing changes effective with
  | zero => omega
  | succ fuel ih =>
    rw [fillLoop]
    cases hturned : turned lib schema available changes effective with
    | mk changes' rest =>
      obtain ⟨effective', added⟩ := rest
      simp only [hturned]
      cases added with
      | false => exact ⟨_, .last hturned⟩
      | true =>
        have hlt := @length_emptyKeys_lt lib schema available hnull changes effective
          (by rw [hturned])
        rw [hturned] at hlt
        obtain ⟨mappings, hfills⟩ := @ih changes' effective' (by simp only at hlt; omega)
        exact ⟨_, .turn hturned hfills⟩

/-- The changes so far are what the mapping has beyond the file. -/
structure Ahead (frontmatter : Entries) (changes : Changes) (effective : Entries) : Prop where
  nodup : (changes.map (·.1)).Nodup
  get? : ∀ k, effective.get? k = (change? changes k).or (frontmatter.get? k)

theorem Ahead.turned {frontmatter effective : Entries} {changes : Changes}
    (h : Ahead frontmatter changes effective) :
    Ahead frontmatter (turned lib schema available changes effective).1
      (turned lib schema available changes effective).2.1 := by
  obtain ⟨hfilled, hother, -, hnodup⟩ := @turned_spec lib schema available changes effective
  refine ⟨hnodup h.nodup, ?_⟩
  intro k
  by_cases hfill : Fillable available (schema.requiredKeys lib.py effective) effective k
  · obtain ⟨hget, hchange⟩ := hfilled k hfill
    obtain ⟨value, hvalue⟩ := Option.isSome_iff_exists.1 hfill.2.2
    rw [hget, hchange, hvalue, Option.some_or]
  · obtain ⟨hget, hchange⟩ := hother k hfill
    rw [hget, hchange, h.get? k]

/-- **The last mapping** has nothing fillable. -/
theorem Fills.closed {frontmatter effective : Entries} {changes result : Changes}
    {mappings : List Entries} (h : Fills lib schema available changes effective mappings result)
    (hahead : Ahead frontmatter changes effective) :
    ∃ final, Ahead frontmatter result final ∧
      ∀ k, ¬ Fillable available (schema.requiredKeys lib.py final) final k := by
  induction h with
  | @last changes changes' effective effective' hturned =>
    have hnext := @Ahead.turned lib schema available _ _ _ hahead
    have hadded := (@turned_spec lib schema available changes effective).2.2.1
    simp only [turned, hturned] at hnext hadded
    have hnone : ∀ k, ¬ Fillable available (schema.requiredKeys lib.py effective) effective k := by
      intro k hk
      exact absurd (hadded.2 ⟨k, hk⟩) Bool.false_ne_true
    have hother := (@turned_spec lib schema available changes effective).2.1
    simp only [turned, hturned] at hother
    refine ⟨effective, ⟨hnext.nodup, ?_⟩, hnone⟩
    intro k
    rw [hahead.get? k, (hother k (hnone k)).2]
  | @turn changes changes' result effective effective' mappings hturned _ ih =>
    have hnext := @Ahead.turned lib schema available _ _ _ hahead
    simp only [turned, hturned] at hnext
    exact ih hnext

/-- A change of the loop is to a key some mapping was required to have. -/
theorem Fills.written {effective : Entries} {changes result : Changes} {mappings : List Entries}
    (h : Fills lib schema available changes effective mappings result) {k : Text}
    (hwritten : change? result k ≠ change? changes k) :
    ∃ mapping ∈ mappings, k ∈ schema.requiredKeys lib.py mapping := by
  induction h with
  | @last changes changes' effective effective' hturned =>
    have hother := (@turned_spec lib schema available changes effective).2.1
    simp only [turned, hturned] at hother
    refine ⟨effective, List.mem_singleton_self _, ?_⟩
    by_contra hnot
    exact hwritten (hother k fun hfill => hnot hfill.1).2
  | @turn changes changes' result effective effective' mappings hturned _ ih =>
    have hother := (@turned_spec lib schema available changes effective).2.1
    simp only [turned, hturned] at hother
    by_cases hlater : change? result k = change? changes' k
    · refine ⟨effective, List.mem_cons_self, ?_⟩
      by_contra hnot
      exact hwritten (hlater.trans (hother k fun hfill => hnot hfill.1).2)
    · obtain ⟨mapping, hmem, hrequired⟩ := ih hlater
      exact ⟨mapping, List.mem_cons_of_mem _ hmem, hrequired⟩

/-- A key with a value is left alone. -/
theorem Fills.kept {effective : Entries} {changes result : Changes} {mappings : List Entries}
    (h : Fills lib schema available changes effective mappings result) {k : Text} {value : Value}
    (hpresent : present? effective k = some value) : change? result k = change? changes k := by
  have hnot : ∀ {entries : Entries}, present? entries k = some value →
      ¬ Fillable available (schema.requiredKeys lib.py entries) entries k := by
    rintro entries hsome ⟨-, hempty, -⟩
    rw [hsome] at hempty
    cases hempty
  induction h with
  | @last changes changes' effective effective' hturned =>
    have hother := (@turned_spec lib schema available changes effective).2.1
    simp only [turned, hturned] at hother
    exact (hother k (hnot hpresent)).2
  | @turn changes changes' result effective effective' mappings hturned _ ih =>
    have hother := (@turned_spec lib schema available changes effective).2.1
    simp only [turned, hturned] at hother
    obtain ⟨hget, hchange⟩ := hother k (hnot hpresent)
    rw [← hchange]
    exact ih (by rwa [present?_eq_none hget])

end Loop

section Order

variable {lib : Libraries} {schema schema' : FrontmatterSchema} {available available' : Changes}

/-- Two schemas that ask for the same keys of mappings that look alike. -/
def Alike (lib : Libraries) (schema schema' : FrontmatterSchema) : Prop :=
  ∀ (entries entries' : Entries), (∀ k, entries.get? k = entries'.get? k) →
    ∀ k, k ∈ schema.requiredKeys lib.py entries ↔ k ∈ schema'.requiredKeys lib.py entries'

theorem Alike.fillable_iff (hrequired : Alike lib schema schema')
    (havailable : ∀ k, change? available k = change? available' k) {entries entries' : Entries}
    (h : ∀ k, entries.get? k = entries'.get? k) (k : Text) :
    Fillable available (schema.requiredKeys lib.py entries) entries k ↔
      Fillable available' (schema'.requiredKeys lib.py entries') entries' k := by
  unfold Fillable
  rw [hrequired entries entries' h k, present?_eq_none (h k), havailable k]

/-- Turns under two such schemas do the same. -/
theorem Alike.turned (hrequired : Alike lib schema schema')
    (havailable : ∀ k, change? available k = change? available' k) {changes changes' : Changes}
    {entries entries' : Entries} (hchanges : ∀ k, change? changes k = change? changes' k)
    (h : ∀ k, entries.get? k = entries'.get? k) :
    (∀ k, change? (turned lib schema available changes entries).1 k =
        change? (turned lib schema' available' changes' entries').1 k) ∧
      (∀ k, (turned lib schema available changes entries).2.1.get? k =
        (turned lib schema' available' changes' entries').2.1.get? k) ∧
      (turned lib schema available changes entries).2.2 =
        (turned lib schema' available' changes' entries').2.2 := by
  obtain ⟨hfilled, hother, hadded, -⟩ := @turned_spec lib schema available changes entries
  obtain ⟨hfilled', hother', hadded', -⟩ := @turned_spec lib schema' available' changes' entries'
  have hsame := hrequired.fillable_iff havailable h
  refine ⟨?_, ?_, ?_⟩
  · intro k
    by_cases hk : Fillable available (schema.requiredKeys lib.py entries) entries k
    · rw [(hfilled k hk).2, (hfilled' k ((hsame k).1 hk)).2, havailable]
    · rw [(hother k hk).2, (hother' k fun hk' => hk ((hsame k).2 hk')).2, hchanges]
  · intro k
    by_cases hk : Fillable available (schema.requiredKeys lib.py entries) entries k
    · rw [(hfilled k hk).1, (hfilled' k ((hsame k).1 hk)).1, havailable]
    · rw [(hother k hk).1, (hother' k fun hk' => hk ((hsame k).2 hk')).1, h]
  · rw [Bool.eq_iff_iff, hadded, hadded']
    exact exists_congr hsame

/-- **Two loops** over schemas that ask alike make the same changes. -/
theorem Fills.agree (hrequired : Alike lib schema schema')
    (havailable : ∀ k, change? available k = change? available' k) {changes changes' : Changes}
    {entries entries' : Entries} {mappings mappings' : List Entries} {result result' : Changes}
    (hfills : Fills lib schema available changes entries mappings result)
    (hfills' : Fills lib schema' available' changes' entries' mappings' result')
    (hchanges : ∀ k, change? changes k = change? changes' k)
    (h : ∀ k, entries.get? k = entries'.get? k) (k : Text) : change? result k = change? result' k := by
  induction hfills generalizing changes' entries' mappings' with
  | @last changes₁ result₁ entries₁ filled₁ hturned =>
    obtain ⟨hsame, -, hadded⟩ := hrequired.turned havailable hchanges h
    simp only [Notes.turned, hturned] at hsame hadded
    cases hfills' with
    | last hturned' =>
      rw [hturned'] at hsame
      exact hsame k
    | turn hturned' _ =>
      rw [hturned'] at hadded
      cases hadded
  | @turn changes₁ next₁ result₁ entries₁ filled₁ mappings₁ hturned _ ih =>
    obtain ⟨hsame, hget, hadded⟩ := hrequired.turned havailable hchanges h
    simp only [Notes.turned, hturned] at hsame hget hadded
    cases hfills' with
    | last hturned' =>
      rw [hturned'] at hadded
      cases hadded
    | turn hturned' hrest' =>
      rw [hturned'] at hsame hget
      exact ih hrest' hsame hget

/-- A schema asks for the same keys in whatever order it lists them. -/
theorem alike_of_perm (hkeys : schema.keys.Perm schema'.keys) (hroles : schema.roles = schema'.roles) :
    Alike lib schema schema' := by
  intro entries entries' h k
  rw [mem_requiredKeys_congr h]
  simp only [mem_requiredKeys, hroles, hkeys.mem_iff]

theorem change?_addDefault (out : Changes) (definition : KeyDefinition) (k : Text) :
    (definition.name = k ∧ ∃ value, value ≠ .null ∧ definition.default = some value ∧
        change? (FrontmatterSchema.addDefault out definition) k = some value) ∨
      ((definition.name = k → definition.default ∈ [none, some .null]) ∧
        change? (FrontmatterSchema.addDefault out definition) k = change? out k) := by
  unfold FrontmatterSchema.addDefault
  split
  · next hnone => exact .inr ⟨fun _ => by rw [hnone]; simp, rfl⟩
  · next hnull => exact .inr ⟨fun _ => by rw [hnull]; simp, rfl⟩
  · next value hne hvalue =>
    rw [change?_setChange]
    by_cases hk : definition.name = k
    · exact .inl ⟨hk, value, fun h => hne (by rw [h]), hvalue, if_pos hk.symm⟩
    · exact .inr ⟨fun h => absurd h hk, if_neg (Ne.symm hk)⟩

/-- What the defaults of a schema have for a key: the default of one of its definitions, or nothing
where none gives one. -/
theorem change?_defaults (keys : List KeyDefinition) (out : Changes) (k : Text) :
    (∃ definition ∈ keys, definition.name = k ∧ ∃ value, value ≠ .null ∧
        definition.default = some value ∧
        change? (keys.foldl FrontmatterSchema.addDefault out) k = some value) ∨
      ((∀ definition ∈ keys, definition.name = k → definition.default ∈ [none, some .null]) ∧
        change? (keys.foldl FrontmatterSchema.addDefault out) k = change? out k) := by
  induction keys generalizing out with
  | nil => exact .inr ⟨nofun, rfl⟩
  | cons definition rest ih =>
    rw [List.foldl_cons]
    obtain ⟨other, hmem, hother⟩ | ⟨hrest, hsame⟩ := ih (FrontmatterSchema.addDefault out definition)
    · exact .inl ⟨other, List.mem_cons_of_mem _ hmem, hother⟩
    · rw [hsame]
      obtain ⟨hname, hvalue⟩ | ⟨hfirst, hkept⟩ := change?_addDefault out definition k
      · exact .inl ⟨definition, List.mem_cons_self, hname, hvalue⟩
      · refine .inr ⟨?_, hkept⟩
        intro d hd
        obtain rfl | hd := List.mem_cons.1 hd
        · exact hfirst
        · exact hrest d hd

theorem change?_defaults_perm (hkeys : schema.keys.Perm schema'.keys)
    (hconsistent : ConsistentDefaults schema) (k : Text) :
    change? schema.defaults k = change? schema'.defaults k := by
  unfold FrontmatterSchema.defaults
  obtain ⟨d, hd, hdk, v, hv, hdv, hleft⟩ | ⟨hnone, hleft⟩ := change?_defaults schema.keys [] k
  · obtain ⟨e, he, hek, w, hw, hew, hright⟩ | ⟨hnone', -⟩ := change?_defaults schema'.keys [] k
    · have hsame := hconsistent d hd e (hkeys.mem_iff.2 he) (hdk.trans hek.symm)
      rw [hdv, hew] at hsame
      simp only [List.mem_cons, reduceCtorEq, Option.some.injEq, hv, hw, List.not_mem_nil, or_false,
        false_or] at hsame
      rw [hleft, hright, hsame]
    · have hdefault := hnone' d (hkeys.mem_iff.1 hd) hdk
      rw [hdv] at hdefault
      simp [hv] at hdefault
  · obtain ⟨e, he, hek, w, hw, hew, -⟩ | ⟨-, hright⟩ := change?_defaults schema'.keys [] k
    · have hdefault := hnone e (hkeys.mem_iff.2 he) hek
      rw [hew] at hdefault
      simp [hw] at hdefault
    · rw [hleft, hright]

end Order

section Adoption

variable {lib : Libraries} {schema schema' : FrontmatterSchema} {localNow : DateTime}

theorem ne_null_setDefault {changes : Changes} {key : Text} {value : Value}
    (h : ∀ k, change? changes k ≠ some .null) (hvalue : value ≠ .null) (k : Text) :
    change? (setDefault changes key value) k ≠ some .null := by
  rw [change?_setDefault]
  split
  · cases hold : change? changes key with
    | none => simpa using hvalue
    | some old =>
      rw [Option.getD_some, ← hold]
      exact h key
  · exact h k

theorem available_ne_null (noteId : Text) (k : Text) :
    change? (availableValues schema localNow noteId) k ≠ some .null := by
  refine ne_null_setDefault (ne_null_setDefault ?_ (by simp)) (by simp) k
  intro k
  rw [change?_setChange]
  split
  · simp
  · unfold FrontmatterSchema.defaults
    obtain ⟨-, -, -, value, hvalue, -, hsome⟩ | ⟨-, hnone⟩ := change?_defaults schema.keys [] k
    · rw [hsome]
      simpa using hvalue
    · rw [hnone]
      simp [change?]

/-- The first changes are of the identifier and the date, and of empty keys. -/
theorem firstChanges_spec (frontmatter : Entries) (noteId : Text) :
    ((firstChanges lib schema localNow frontmatter noteId).map (·.1)).Nodup ∧
      ∀ k, (change? (firstChanges lib schema localNow frontmatter noteId) k).isSome = true →
        (k = schema.roles.idKey ∨ k = schema.roles.dateKey) ∧ present? frontmatter k = none := by
  unfold firstChanges
  simp only
  have hidentity : ∀ changes : Changes, changes = (if (present? frontmatter schema.roles.idKey).isNone
      then [(schema.roles.idKey, Value.str noteId)] else []) →
      (changes.map (·.1)).Nodup ∧ ∀ k, (change? changes k).isSome = true →
        k = schema.roles.idKey ∧ present? frontmatter k = none := by
    rintro changes rfl
    by_cases hid : (present? frontmatter schema.roles.idKey).isNone = true
    · rw [if_pos hid]
      refine ⟨List.nodup_singleton _, ?_⟩
      intro k hk
      rw [change?_cons] at hk
      by_cases hkey : schema.roles.idKey = k
      · rw [← hkey]
        exact ⟨rfl, Option.isNone_iff_eq_none.1 hid⟩
      · rw [if_neg hkey] at hk
        cases hk
    · rw [if_neg hid]
      exact ⟨List.nodup_nil, fun k hk => by cases hk⟩
  generalize hchanges : (if (present? frontmatter schema.roles.idKey).isNone
      then [(schema.roles.idKey, Value.str noteId)] else []) = changes
  obtain ⟨hnodup, hid⟩ := hidentity changes hchanges.symm
  split
  · next hdate =>
    refine ⟨nodup_setChange hnodup _ _, ?_⟩
    intro k hk
    rw [change?_setChange] at hk
    by_cases hkey : k = schema.roles.dateKey
    · rw [Bool.and_eq_true] at hdate
      rw [hkey]
      exact ⟨.inr rfl, Option.isNone_iff_eq_none.1 hdate.1⟩
    · rw [if_neg hkey] at hk
      exact ⟨.inl (hid k hk).1, (hid k hk).2⟩
  · exact ⟨hnodup, fun k hk => ⟨.inl (hid k hk).1, (hid k hk).2⟩⟩

theorem adoptionChanges_eq (frontmatter : Entries) (noteId : Text) :
    adoptionChanges lib schema localNow frontmatter noteId =
      fillLoop lib schema (availableValues schema localNow noteId) (schema.keys.length + 1)
        (firstChanges lib schema localNow frontmatter noteId)
        (updated frontmatter (firstChanges lib schema localNow frontmatter noteId)) := rfl

/-- The loop of one adoption. -/
theorem fills_adoptionChanges (frontmatter : Entries) (noteId : Text) :
    ∃ mappings, Fills lib schema (availableValues schema localNow noteId)
      (firstChanges lib schema localNow frontmatter noteId)
      (updated frontmatter (firstChanges lib schema localNow frontmatter noteId)) mappings
      (adoptionChanges lib schema localNow frontmatter noteId) := by
  rw [adoptionChanges_eq]
  exact fills_fillLoop (available_ne_null noteId) (Nat.lt_succ_of_le (List.length_filter_le _ _))

/-- **Adoption** fills the closure of what the schema requires: the loop ends; at its end every key
that is required and has a value to fill in holds one; what had a value keeps it; what is written
beyond the identifier and the date was required of a mapping of the loop; and the order of the
schema does not matter while the definitions of one key agree on its default. -/
theorem adoption_closure (frontmatter : Entries) (noteId : Text) :
    (∃ mappings, Fills lib schema (availableValues schema localNow noteId)
        (firstChanges lib schema localNow frontmatter noteId)
        (updated frontmatter (firstChanges lib schema localNow frontmatter noteId)) mappings
        (adoptionChanges lib schema localNow frontmatter noteId) ∧
      ∀ k, (change? (adoptionChanges lib schema localNow frontmatter noteId) k).isSome = true →
        k = schema.roles.idKey ∨ k = schema.roles.dateKey ∨
          ∃ mapping ∈ mappings, k ∈ schema.requiredKeys lib.py mapping) ∧
    (∀ k ∈ schema.requiredKeys lib.py
        (updated frontmatter (adoptionChanges lib schema localNow frontmatter noteId)),
      (change? (availableValues schema localNow noteId) k).isSome = true →
        (present? (updated frontmatter (adoptionChanges lib schema localNow frontmatter noteId))
          k).isSome = true) ∧
    (∀ k value, present? frontmatter k = some value →
      (updated frontmatter (adoptionChanges lib schema localNow frontmatter noteId)).get? k =
        some value) ∧
    ∀ schema' : FrontmatterSchema, schema.keys.Perm schema'.keys → schema.roles = schema'.roles →
      ConsistentDefaults schema → ∀ k,
        ((change? (adoptionChanges lib schema localNow frontmatter noteId) k).isSome = true ↔
          (change? (adoptionChanges lib schema' localNow frontmatter noteId) k).isSome = true) := by
  obtain ⟨hnodup, hfirst⟩ := @firstChanges_spec lib schema localNow frontmatter noteId
  obtain ⟨mappings, hfills⟩ := @fills_adoptionChanges lib schema localNow frontmatter noteId
  have hahead : Ahead frontmatter (firstChanges lib schema localNow frontmatter noteId)
      (updated frontmatter (firstChanges lib schema localNow frontmatter noteId)) :=
    ⟨hnodup, get?_updated hnodup frontmatter⟩
  obtain ⟨final, hfinal, hclosed⟩ := hfills.closed hahead
  have hsame : ∀ k, (updated frontmatter
      (adoptionChanges lib schema localNow frontmatter noteId)).get? k = final.get? k := by
    intro k
    rw [get?_updated hfinal.nodup, hfinal.get? k]
  refine ⟨⟨mappings, hfills, ?_⟩, ?_, ?_, ?_⟩
  · intro k hk
    by_cases hwritten : change? (adoptionChanges lib schema localNow frontmatter noteId) k =
        change? (firstChanges lib schema localNow frontmatter noteId) k
    · rw [hwritten] at hk
      obtain ⟨hid | hdate, -⟩ := hfirst k hk
      · exact .inl hid
      · exact .inr (.inl hdate)
    · exact .inr (.inr (hfills.written hwritten))
  · intro k hrequired havailable
    rw [mem_requiredKeys_congr hsame] at hrequired
    rw [present?_eq_none (hsame k), ← Option.ne_none_iff_isSome]
    intro hempty
    exact hclosed k ⟨hrequired, hempty, havailable⟩
  · intro k value hpresent
    have hnone : change? (firstChanges lib schema localNow frontmatter noteId) k = none := by
      by_contra hsome
      obtain ⟨-, hempty⟩ := hfirst k (Option.ne_none_iff_isSome.1 hsome)
      rw [hpresent] at hempty
      cases hempty
    have hget : (updated frontmatter (firstChanges lib schema localNow frontmatter noteId)).get? k =
        frontmatter.get? k := by
      rw [get?_updated hnodup, hnone, Option.none_or]
    have hkept := hfills.kept ((present?_eq_none hget).trans hpresent)
    rw [get?_updated hfinal.nodup, hkept, hnone, Option.none_or, get?_of_present? hpresent]
  · intro schema' hkeys hroles hconsistent k
    obtain ⟨mappings', hfills'⟩ := @fills_adoptionChanges lib schema' localNow frontmatter noteId
    have hsameFirst : firstChanges lib schema' localNow frontmatter noteId =
        firstChanges lib schema localNow frontmatter noteId := by
      unfold firstChanges defaultNoteTime
      rw [hroles]
    have havailable : ∀ k, change? (availableValues schema localNow noteId) k =
        change? (availableValues schema' localNow noteId) k := by
      intro k
      simp only [availableValues, change?_setDefault, change?_setChange, hroles,
        change?_defaults_perm hkeys hconsistent]
    rw [hsameFirst] at hfills'
    rw [hfills.agree (alike_of_perm hkeys hroles) havailable hfills' (fun _ => rfl) (fun _ => rfl) k]

end Adoption

section Sample

/-- A schema whose file defines `status` twice, with two defaults, beside a key that one of them asks
for. -/
def twiceDefined (first second : String) : FrontmatterSchema where
  keys := (["id", "date", "type", "context", "account", "reviewed", "sources", "tags",
      "schema_version"].map fun name => { name := name.toList }) ++
    [{ name := "status".toList, required := true, default := some (.str first.toList) },
      { name := "status".toList, required := true, default := some (.str second.toList) },
      { name := "ticket".toList, default := some (.str "none".toList),
        requiredWhen := some "status".toList, requiredWhenValues := ["open".toList] }]
  roles := plainSchema.roles

def sampleNow : DateTime := ⟨⟨2026, 7, 31⟩, 9, 30, 0, 0, none⟩

/-- Listed the other way round, the definitions have adoption fill another key. -/
theorem twiceDefined_order :
    (twiceDefined "open" "closed").keys.Perm (twiceDefined "closed" "open").keys ∧
      (change? (adoptionChanges plainLibraries (twiceDefined "open" "closed") sampleNow [] "x".toList)
        "ticket".toList).isSome = false ∧
      (change? (adoptionChanges plainLibraries (twiceDefined "closed" "open") sampleNow [] "x".toList)
        "ticket".toList).isSome = true := by
  refine ⟨?_, by decide +kernel, by decide +kernel⟩
  exact (List.Perm.swap _ _ _).append_left _

end Sample

end Coppermind.Notes
