import Coppermind.Schema.Keys

/-!
# Normalised tags

`normalize_tags` replaces each alias by the tag it stands for and drops repeats.  Where no canonical
tag is an alias, as the schema's validator demands, what it returns it leaves as it is.
-/

namespace Coppermind.Schema

open Coppermind.Lib Coppermind.Frontmatter

variable {schema : FrontmatterSchema}

/-- No canonical tag is an alias. -/
def Chainless (schema : FrontmatterSchema) : Prop :=
  ∀ e ∈ schema.tagAliases, ∀ e' ∈ schema.tagAliases, e'.1 ≠ e.2

theorem canonicalTag_cases (tag : Value) : schema.canonicalTag tag = tag ∨
    ∃ e ∈ schema.tagAliases, schema.canonicalTag tag = .str e.2 := by
  cases tag with
  | str s =>
    unfold FrontmatterSchema.canonicalTag
    dsimp only
    cases hfind : schema.tagAliases.find? (·.1 == s) with
    | none => exact Or.inl rfl
    | some e => exact Or.inr ⟨e, List.mem_of_find?_eq_some hfind, rfl⟩
  | _ => exact Or.inl rfl

theorem canonicalTag_canonicalTag (h : Chainless schema) (tag : Value) :
    schema.canonicalTag (schema.canonicalTag tag) = schema.canonicalTag tag := by
  obtain hself | ⟨e, he, hcanonical⟩ := @canonicalTag_cases schema tag
  · rw [hself, hself]
  · rw [hcanonical]
    unfold FrontmatterSchema.canonicalTag
    dsimp only
    have hnone : schema.tagAliases.find? (·.1 == e.2) = none := by
      rw [List.find?_eq_none]
      intro e' he'
      simpa using h e he e' he'
    rw [hnone]
    rfl

/-- One turn of the loop of `normalize_tags`. -/
def addTag (schema : FrontmatterSchema) (normalized : List Value) (tag : Value) : List Value :=
  if normalized.any (schema.canonicalTag tag).pyEq then normalized
  else normalized ++ [schema.canonicalTag tag]

theorem normalizeTags_eq (tags : List Value) :
    schema.normalizeTags tags = tags.foldl (addTag schema) [] := rfl

/-- Canonical tags, none of them equal to one before it. -/
structure Normal (schema : FrontmatterSchema) (tags : List Value) : Prop where
  canonical : ∀ tag ∈ tags, schema.canonicalTag tag = tag
  apart : tags.Pairwise fun tag later => later.pyEq tag = false

theorem Normal.addTag (haliases : Chainless schema) {normalized : List Value}
    (h : Normal schema normalized) (tag : Value) : Normal schema (addTag schema normalized tag) := by
  unfold Schema.addTag
  split
  · exact h
  · next hnew =>
    constructor
    · intro other hother
      obtain hother | hother := List.mem_append.1 hother
      · exact h.canonical other hother
      · obtain rfl := List.mem_singleton.1 hother
        exact canonicalTag_canonicalTag haliases tag
    · rw [List.pairwise_append]
      refine ⟨h.apart, List.pairwise_singleton .., ?_⟩
      intro earlier hearlier later hlater
      obtain rfl := List.mem_singleton.1 hlater
      have hall := List.any_eq_false.1 (Bool.eq_false_iff.2 hnew)
      exact Bool.eq_false_iff.2 (hall earlier hearlier)

theorem normal_foldl (haliases : Chainless schema) (tags : List Value) {normalized : List Value}
    (h : Normal schema normalized) : Normal schema (tags.foldl (addTag schema) normalized) := by
  induction tags generalizing normalized with
  | nil => exact h
  | cons tag rest ih => exact ih (h.addTag haliases tag)

theorem normal_normalizeTags (haliases : Chainless schema) (tags : List Value) :
    Normal schema (schema.normalizeTags tags) :=
  normal_foldl haliases tags ⟨by simp, List.Pairwise.nil⟩

theorem foldl_of_normal (tags normalized : List Value) (h : Normal schema (normalized ++ tags)) :
    tags.foldl (addTag schema) normalized = normalized ++ tags := by
  induction tags generalizing normalized with
  | nil => simp
  | cons tag rest ih =>
    have hcanonical : schema.canonicalTag tag = tag := h.canonical tag (by simp)
    have hnew : normalized.any tag.pyEq = false := by
      rw [List.any_eq_false]
      intro earlier hearlier
      have hapart := (List.pairwise_append.1 h.apart).2.2 earlier hearlier tag List.mem_cons_self
      simp [hapart]
    have hstep : addTag schema normalized tag = normalized ++ [tag] := by
      rw [addTag, hcanonical, if_neg (by simp [hnew])]
    rw [List.foldl_cons, hstep, ih (normalized ++ [tag]) (by simpa using h)]
    simp

/-- **Tags are settled** once they are normalised. -/
theorem normalizeTags_of_normal {tags : List Value} (h : Normal schema tags) :
    schema.normalizeTags tags = tags := by
  rw [normalizeTags_eq, foldl_of_normal tags [] (by simpa using h), List.nil_append]

/-- A normalised tag is one of the list, or one an alias stands for. -/
theorem mem_normalizeTags {tags : List Value} {tag : Value} (h : tag ∈ schema.normalizeTags tags) :
    tag ∈ tags ∨ ∃ e ∈ schema.tagAliases, tag = .str e.2 := by
  have hfold : ∀ (rest normalized : List Value), (∀ t ∈ normalized, t ∈ tags ∨
      ∃ e ∈ schema.tagAliases, t = .str e.2) → (∀ t ∈ rest, t ∈ tags) →
      tag ∈ rest.foldl (addTag schema) normalized →
      tag ∈ tags ∨ ∃ e ∈ schema.tagAliases, tag = .str e.2 := by
    intro rest
    induction rest with
    | nil => exact fun normalized hn _ hmem => hn tag hmem
    | cons t rest ih =>
      intro normalized hn hrest hmem
      apply ih _ ?_ (fun t ht => hrest t (List.mem_cons_of_mem _ ht)) hmem
      intro t' ht'
      unfold addTag at ht'
      split at ht'
      · exact hn t' ht'
      · obtain ht' | ht' := List.mem_append.1 ht'
        · exact hn t' ht'
        · obtain rfl := List.mem_singleton.1 ht'
          obtain hself | ⟨e, he, hcanonical⟩ := @canonicalTag_cases schema t
          · rw [hself]
            exact Or.inl (hrest t List.mem_cons_self)
          · exact Or.inr ⟨e, he, hcanonical⟩
  exact hfold tags [] (by simp) (fun t ht => ht) h

end Coppermind.Schema
