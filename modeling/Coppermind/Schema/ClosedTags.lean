import Coppermind.Frontmatter.Equality
import Coppermind.Schema.Tags

/-!
# Closed tags

The tags a schema lists, what `validate_tags` has against them, and `tag_problems`, which refuses
the tags a write would add.  It looks a tag up in a `dict` and in a `set`, by its hash, and a list
or a mapping has none.
-/

namespace Coppermind.Schema

open Coppermind.Lib Coppermind.Lib.Text Coppermind.Frontmatter

/-- `TagMode`. -/
inductive TagMode where
  | «open»
  | closed
deriving DecidableEq, Repr

/-- What `FrontmatterSchema` says of tags. -/
structure TaggedSchema extends FrontmatterSchema where
  /-- The listed tags, without what they mean. -/
  tags : List Text := []
  tagMode : TagMode := .open

/-- `TypeError: unhashable type`. -/
inductive TypeError where
  | unhashable (value : Value)

/-- `TAG_PATTERN.fullmatch`: the characters of a tag, the first no `#`. -/
def isTagText (tag : Text) : Bool :=
  !tag.isEmpty && tag.head? != some '#' && tag.all fun c => !isSpace c && c != ','

section Refused

variable (py : Python)

/-- Whether `hash(value)` returns. -/
def hashable : Value → Bool
  | .seq _ _ | .map _ => false
  | .other text => py.hashes text
  | _ => true

/-- Values that are looked up or collected by their hashes, in turn. -/
def hashed (values : List Value) : Except TypeError (List Value) :=
  match values.find? fun value => !hashable py value with
  | some value => .error (.unhashable value)
  | none => .ok values

variable (schema : FrontmatterSchema)

/-- The tags a frontmatter lists. -/
def tagsOf (frontmatter : Entries) : Option (List Value) :=
  (frontmatter.get? schema.roles.tagsKey).bind items?

/-- The tags of the note as it is. -/
def carriedTags (current : Option Entries) : List Value :=
  (current.bind (tagsOf schema)).getD []

def tagProblem (tag : Value) : PyStr :=
  PyStr.ofText schema.roles.tagsKey ++ PyStr.lit ": " ++ py.repr tag ++
    PyStr.lit " is not a listed tag, and tags are closed"

/-- `tag not in self.tags and tag not in already`. -/
def isNewTag (listed : List Text) (already : List Value) (tag : Value) : Bool :=
  !(listed.any fun name => tag.isText name) && !(already.any fun held => held.pyEq tag)

/-- `tag_problems`; the tags listed, where tags are closed. -/
def tagProblems (closedTags : Option (List Text)) (frontmatter : Entries)
    (current : Option Entries) : Except TypeError (List PyStr) :=
  match closedTags, tagsOf schema frontmatter with
  | some listed, some tags => do
    let already ← hashed py ((carriedTags schema current).map schema.canonicalTag)
    let tags ← hashed py (schema.normalizeTags tags)
    return (tags.filter (isNewTag listed already)).map (tagProblem py schema)
  | _, _ => .ok []

end Refused

namespace TaggedSchema

variable (schema : TaggedSchema)

def closedTags : Option (List Text) :=
  match schema.tagMode with
  | .closed => some schema.tags
  | .open => none

/-- What `validate_tags` has against one alias. -/
def aliasProblem (repr : Text → PyStr) (entry : Text × Text) : Option PyStr :=
  let named := PyStr.lit "tag alias " ++ repr entry.1
  if entry.1 = entry.2 then some (named ++ PyStr.lit " names itself")
  else if entry.1 ∈ schema.tags then some (named ++ PyStr.lit " is also a listed tag")
  else if schema.tagAliases.any (·.1 == entry.2) then
    some (named ++ PyStr.lit " points at " ++ repr entry.2 ++ PyStr.lit ", which is itself an alias")
  else if schema.tagMode = .closed ∧ entry.2 ∉ schema.tags then
    some (named ++ PyStr.lit " points at " ++ repr entry.2 ++
      PyStr.lit ", which closed tags would refuse because it is not listed")
  else none

/-- `validate_tags`: the text of the `ValueError` it raises, if it does. -/
def validateTags (py : Python) : Option PyStr :=
  let repr := fun tag : Text => py.repr (.str tag)
  let bad := (schema.tags ++ schema.tagAliases.map (·.1) ++ schema.tagAliases.map (·.2)).filter
    fun tag => !isTagText tag
  if bad ≠ [] then
    some (PyStr.lit "tags may not be empty, contain spaces or commas, or start with #: " ++
      (PyStr.lit ", ").intercalate (bad.map repr))
  else schema.tagAliases.findSome? (schema.aliasProblem repr)

/-- `tag_problems`. -/
def tagProblems (py : Python) (frontmatter : Entries) (current : Option Entries) :
    Except TypeError (List PyStr) :=
  Schema.tagProblems py schema.toFrontmatterSchema schema.closedTags frontmatter current

end TaggedSchema

section Normalised

variable {schema : FrontmatterSchema}

/-- One of the tags is `==` to this one once both are canonical. -/
def Occurs (schema : FrontmatterSchema) (tag : Value) (tags : List Value) : Prop :=
  ∃ earlier ∈ tags, (schema.canonicalTag tag).pyEq (schema.canonicalTag earlier) = true

theorem normalizeTags_append_singleton (tags : List Value) (tag : Value) :
    schema.normalizeTags (tags ++ [tag]) = addTag schema (schema.normalizeTags tags) tag := by
  rw [normalizeTags_eq, normalizeTags_eq, List.foldl_append]
  rfl

/-- Every tag of a list is there once normalised, itself or one `==` to it. -/
theorem normalized_of_mem (tags : List Value) {tag : Value} (h : tag ∈ tags) :
    ∃ normal ∈ schema.normalizeTags tags, schema.canonicalTag tag = normal ∨
      (schema.canonicalTag tag).pyEq normal = true := by
  induction tags using List.reverseRecOn with
  | nil => cases h
  | append_singleton tags last ih =>
    rw [normalizeTags_append_singleton, addTag]
    obtain h | h := List.mem_append.1 h
    · obtain ⟨normal, hnormal, heq⟩ := ih h
      split
      · exact ⟨normal, hnormal, heq⟩
      · exact ⟨normal, List.mem_append_left _ hnormal, heq⟩
    · obtain rfl := List.mem_singleton.1 h
      split
      · next hany =>
        obtain ⟨normal, hnormal, heq⟩ := List.any_eq_true.1 hany
        exact ⟨normal, hnormal, Or.inr heq⟩
      · exact ⟨_, List.mem_append_right _ List.mem_cons_self, Or.inl rfl⟩

/-- A normalised tag is the canonical form of a tag of the list. -/
theorem exists_of_normalized (tags : List Value) {normal : Value}
    (h : normal ∈ schema.normalizeTags tags) : ∃ tag ∈ tags, schema.canonicalTag tag = normal := by
  induction tags using List.reverseRecOn with
  | nil => cases h
  | append_singleton tags last ih =>
    have hearlier : normal ∈ schema.normalizeTags tags →
        ∃ tag ∈ tags ++ [last], schema.canonicalTag tag = normal := by
      intro h
      obtain ⟨tag, htag, heq⟩ := ih h
      exact ⟨tag, List.mem_append_left _ htag, heq⟩
    rw [normalizeTags_append_singleton, addTag] at h
    split at h
    · exact hearlier h
    · obtain h | h := List.mem_append.1 h
      · exact hearlier h
      · exact ⟨last, by simp, (List.mem_singleton.1 h).symm⟩

/-- **Order of first occurrence**: a tag adds its canonical form at the end, unless a tag before
it has that form. -/
theorem normalizeTags_snoc (tags : List Value) (tag : Value) :
    (Occurs schema tag tags → schema.normalizeTags (tags ++ [tag]) = schema.normalizeTags tags) ∧
      (¬Occurs schema tag tags → schema.normalizeTags (tags ++ [tag]) =
        schema.normalizeTags tags ++ [schema.canonicalTag tag]) := by
  rw [normalizeTags_append_singleton, addTag]
  constructor
  · rintro ⟨earlier, hearlier, heq⟩
    obtain ⟨normal, hnormal, heq'⟩ := @normalized_of_mem schema tags _ hearlier
    refine if_pos (List.any_eq_true.2 ⟨normal, hnormal, ?_⟩)
    obtain rfl | heq' := heq'
    · exact heq
    · exact pyEq_trans _ _ _ heq heq'
  · intro hnew
    refine if_neg fun hany => hnew ?_
    obtain ⟨normal, hnormal, heq⟩ := List.any_eq_true.1 hany
    obtain ⟨earlier, hearlier, rfl⟩ := exists_of_normalized tags hnormal
    exact ⟨earlier, hearlier, heq⟩

/-- What normalising tags promises. -/
structure NormalisesOnce (schema : FrontmatterSchema) : Prop where
  idempotent : ∀ tags, schema.normalizeTags (schema.normalizeTags tags) = schema.normalizeTags tags
  no_alias : ∀ tags, ∀ tag ∈ schema.normalizeTags tags, ∀ e ∈ schema.tagAliases, tag ≠ .str e.1
  no_repeat : ∀ tags, (schema.normalizeTags tags).Pairwise fun tag later => later.pyEq tag = false
  order_nil : schema.normalizeTags [] = []
  order_snoc : ∀ tags tag,
    (Occurs schema tag tags → schema.normalizeTags (tags ++ [tag]) = schema.normalizeTags tags) ∧
      (¬Occurs schema tag tags → schema.normalizeTags (tags ++ [tag]) =
        schema.normalizeTags tags ++ [schema.canonicalTag tag])

theorem ne_alias_of_canonical {tag : Value} (h : schema.canonicalTag tag = tag)
    (hchain : Chainless schema) {e : Text × Text} (he : e ∈ schema.tagAliases) : tag ≠ .str e.1 := by
  rintro rfl
  unfold FrontmatterSchema.canonicalTag at h
  dsimp only at h
  cases hfind : schema.tagAliases.find? (·.1 == e.1) with
  | none => exact absurd (List.find?_eq_none.1 hfind e he) (by simp)
  | some found =>
    rw [hfind] at h
    have hcanonical : found.2 = e.1 := Value.str.inj h
    exact hchain found (List.mem_of_find?_eq_some hfind) e he hcanonical.symm

theorem normalisesOnce (hchain : Chainless schema) : NormalisesOnce schema where
  idempotent tags := normalizeTags_of_normal (normal_normalizeTags hchain tags)
  no_alias tags tag htag _ he :=
    ne_alias_of_canonical ((normal_normalizeTags hchain tags).canonical tag htag) hchain he
  no_repeat tags := (normal_normalizeTags hchain tags).apart
  order_nil := rfl
  order_snoc := normalizeTags_snoc

end Normalised

section Closed

variable {py : Python} {schema : TaggedSchema} {frontmatter : Entries} {current : Option Entries}

/-- An alias of a schema that is accepted stands for no alias. -/
theorem chainless_of_validateTags (h : schema.validateTags py = none) :
    Chainless schema.toFrontmatterSchema := by
  intro e he e' he' hchain
  unfold TaggedSchema.validateTags at h
  dsimp only at h
  split at h
  · cases h
  · have hnone := List.findSome?_eq_none_iff.1 h e he
    unfold TaggedSchema.aliasProblem at hnone
    dsimp only at hnone
    split at hnone
    · cases hnone
    · split at hnone
      · cases hnone
      · have hany : schema.tagAliases.any (·.1 == e.2) = true :=
          List.any_eq_true.2 ⟨e', he', beq_iff_eq.2 hchain⟩
        rw [if_pos hany] at hnone
        cases hnone

/-- A canonical tag that is neither listed nor carried by the note as it is. -/
structure New (schema : TaggedSchema) (current : Option Entries) (tag : Value) : Prop where
  unlisted : ∀ name ∈ schema.tags, tag ≠ .str name
  added : ∀ held ∈ carriedTags schema.toFrontmatterSchema current,
    (schema.canonicalTag held).pyEq tag = false

/-- There is one problem for each new tag of the frontmatter's list, and no other. -/
structure RefusedExactly (schema : TaggedSchema) (tags : List Value) (current : Option Entries)
    (refused : List Value) : Prop where
  sublist : refused.Sublist (schema.normalizeTags tags)
  new : ∀ tag ∈ refused, New schema current tag
  complete : ∀ tag ∈ tags, New schema current (schema.canonicalTag tag) ↔
    ∃ one ∈ refused, schema.canonicalTag tag = one ∨ (schema.canonicalTag tag).pyEq one = true

/-- `tag_problems` returns, with the problems of the new tags; a write that adds none is taken. -/
structure RefusesNew (py : Python) (schema : TaggedSchema) (frontmatter : Entries)
    (current : Option Entries) : Prop where
  returns : ∃ refused,
    schema.tagProblems py frontmatter current =
        .ok (refused.map (tagProblem py schema.toFrontmatterSchema)) ∧
      RefusedExactly schema ((tagsOf schema.toFrontmatterSchema frontmatter).getD []) current refused
  unchanged : (∀ tag ∈ (tagsOf schema.toFrontmatterSchema frontmatter).getD [],
      ∃ held ∈ carriedTags schema.toFrontmatterSchema current,
        (schema.canonicalTag held).pyEq (schema.canonicalTag tag) = true) →
    schema.tagProblems py frontmatter current = .ok []

/-- Where the frontmatter lists tags, every one of them has a hash, and every one of the note's. -/
def AllHashable (py : Python) (schema : TaggedSchema) (frontmatter : Entries)
    (current : Option Entries) : Prop :=
  ∀ tags, tagsOf schema.toFrontmatterSchema frontmatter = some tags →
    (∀ tag ∈ tags, hashable py tag = true) ∧
      ∀ held ∈ carriedTags schema.toFrontmatterSchema current, hashable py held = true

theorem hashable_canonicalTag (schema : FrontmatterSchema) (tag : Value) :
    hashable py (schema.canonicalTag tag) = hashable py tag := by
  cases tag with
  | str s =>
    obtain h | ⟨e, -, h⟩ := @canonicalTag_cases schema (.str s)
    · rw [h]
    · rw [h]
      rfl
  | _ => rfl

/-- What is `==` to a value with a hash holds no others, as that value does not. -/
theorem hashable_of_pyEq {v w : Value} (h : v.pyEq w = true) (hw : hashable py w = true) :
    hashable py v = true := by
  cases pyEq_iff.1 h with
  | scalar hv' hw' =>
    cases v with
    | seq _ _ | map _ => cases hv'
    | other text =>
      obtain rfl := Option.some.inj hv'
      cases w with
      | other text' =>
        obtain rfl := Scalar.other.inj (Option.some.inj hw')
        exact hw
      | float f =>
        obtain ⟨n, -, hn⟩ := Option.map_eq_some_iff.1 hw'
        cases hn
      | _ => cases hw'
    | _ => rfl
  | seq _ => cases hw
  | map _ _ => cases hw

theorem hashed_eq_ok {values found : List Value} :
    hashed py values = .ok found ↔ (∀ v ∈ values, hashable py v = true) ∧ found = values := by
  unfold hashed
  cases hfind : values.find? fun value => !hashable py value with
  | some value =>
    have hbad := List.find?_some hfind
    constructor
    · intro h
      cases h
    · rintro ⟨hall, -⟩
      rw [hall value (List.mem_of_find?_eq_some hfind)] at hbad
      cases hbad
  | none =>
    have hall : ∀ v ∈ values, hashable py v = true := by
      intro v hv
      simpa using List.find?_eq_none.1 hfind v hv
    constructor
    · intro h
      exact ⟨hall, (Except.ok.inj h).symm⟩
    · rintro ⟨-, rfl⟩
      rfl

theorem str_pyEq {s : Text} {w : Value} (h : (Value.str s).pyEq w = true) : w = .str s := by
  cases w with
  | str t => exact congrArg Value.str (eq_of_beq h).symm
  | _ => cases h

/-- What has a hash and is `==` to another is compared the other way round as well. -/
theorem pyEq_symm_of_hashable {v w : Value} (hv : hashable py v = true) (h : v.pyEq w = true) :
    w.pyEq v = true := by
  rw [pyEq_iff] at h ⊢
  cases h with
  | scalar hv' hw => exact .scalar hw hv'
  | seq h => cases hv
  | map hlength h => cases hv

theorem isNewTag_iff {tag : Value} : isNewTag schema.tags
    ((carriedTags schema.toFrontmatterSchema current).map schema.canonicalTag) tag = true ↔
      New schema current tag := by
  unfold isNewTag
  simp only [Bool.and_eq_true, Bool.not_eq_true', List.any_eq_false, List.mem_map,
    forall_exists_index, and_imp, forall_apply_eq_imp_iff₂]
  constructor
  · rintro ⟨hlisted, hadded⟩
    refine ⟨?_, fun held hheld => Bool.eq_false_iff.2 (hadded held hheld)⟩
    rintro name hname rfl
    exact hlisted name hname (beq_self_eq_true name)
  · rintro ⟨hlisted, hadded⟩
    refine ⟨?_, fun held hheld => Bool.eq_false_iff.1 (hadded held hheld)⟩
    intro name hname htext
    cases tag with
    | str t =>
      obtain rfl := eq_of_beq htext
      exact hlisted t hname rfl
    | _ => cases htext

/-- A tag is new together with what it is `==` to. -/
theorem New.of_pyEq {v w : Value} (h : New schema current w) (heq : v.pyEq w = true) :
    New schema current v := by
  refine ⟨?_, fun held hheld => Bool.eq_false_iff.2 fun hcarried => ?_⟩
  · rintro name hname rfl
    exact h.unlisted name hname (str_pyEq heq)
  · exact Bool.eq_false_iff.1 (h.added held hheld) (pyEq_trans _ _ _ hcarried heq)

theorem New.to_pyEq {v w : Value} (h : New schema current v) (hv : hashable py v = true)
    (heq : v.pyEq w = true) : New schema current w :=
  h.of_pyEq (pyEq_symm_of_hashable hv heq)

theorem hashable_normalized {tags : List Value} :
    (∀ v ∈ schema.normalizeTags tags, hashable py v = true) ↔ ∀ v ∈ tags, hashable py v = true := by
  constructor
  · intro h tag htag
    obtain ⟨normal, hnormal, heq⟩ := @normalized_of_mem schema.toFrontmatterSchema tags _ htag
    rw [← hashable_canonicalTag schema.toFrontmatterSchema]
    obtain heq | heq := heq
    · rw [heq]
      exact h normal hnormal
    · exact hashable_of_pyEq heq (h normal hnormal)
  · intro h normal hnormal
    obtain ⟨tag, htag, rfl⟩ := exists_of_normalized tags hnormal
    rw [hashable_canonicalTag]
    exact h tag htag

/-- Where `tag_problems` returns for a list of tags, and the problems. -/
theorem tagProblems_eq_ok (hclosed : schema.tagMode = .closed) {tags : List Value}
    {problems : List PyStr} (htags : tagsOf schema.toFrontmatterSchema frontmatter = some tags) :
    schema.tagProblems py frontmatter current = .ok problems ↔
      AllHashable py schema frontmatter current ∧
        problems = ((schema.normalizeTags tags).filter (isNewTag schema.tags
          ((carriedTags schema.toFrontmatterSchema current).map schema.canonicalTag))).map
            (tagProblem py schema.toFrontmatterSchema) := by
  have hcarried : (∀ v ∈ (carriedTags schema.toFrontmatterSchema current).map schema.canonicalTag,
      hashable py v = true) ↔
        ∀ held ∈ carriedTags schema.toFrontmatterSchema current, hashable py held = true := by
    simp only [List.forall_mem_map, hashable_canonicalTag]
  have hall : AllHashable py schema frontmatter current ↔
      (∀ tag ∈ tags, hashable py tag = true) ∧
        ∀ held ∈ carriedTags schema.toFrontmatterSchema current, hashable py held = true := by
    unfold AllHashable
    rw [htags]
    simp only [Option.some.injEq, forall_eq']
  have hrun : schema.tagProblems py frontmatter current =
      (hashed py ((carriedTags schema.toFrontmatterSchema current).map schema.canonicalTag)).bind
        fun already => (hashed py (schema.normalizeTags tags)).bind fun tags =>
          .ok ((tags.filter (isNewTag schema.tags already)).map
            (tagProblem py schema.toFrontmatterSchema)) := by
    unfold TaggedSchema.tagProblems TaggedSchema.closedTags Schema.tagProblems
    rw [hclosed, htags]
    rfl
  rw [hrun, hall, ← hcarried, ← @hashable_normalized py schema tags]
  constructor
  · intro h
    cases halready : hashed py
        ((carriedTags schema.toFrontmatterSchema current).map schema.canonicalTag) with
    | error _ =>
      rw [halready] at h
      cases h
    | ok already =>
      rw [halready] at h
      cases hnormal : hashed py (schema.normalizeTags tags) with
      | error _ =>
        change (hashed py (schema.normalizeTags tags)).bind _ = _ at h
        rw [hnormal] at h
        cases h
      | ok normal =>
        change (hashed py (schema.normalizeTags tags)).bind _ = _ at h
        rw [hnormal] at h
        obtain ⟨hcarried, rfl⟩ := hashed_eq_ok.1 halready
        obtain ⟨htags, rfl⟩ := hashed_eq_ok.1 hnormal
        exact ⟨⟨htags, hcarried⟩, (Except.ok.inj h).symm⟩
  · rintro ⟨⟨htags, hcarried⟩, rfl⟩
    rw [hashed_eq_ok.2 ⟨hcarried, rfl⟩]
    change (hashed py (schema.normalizeTags tags)).bind _ = _
    rw [hashed_eq_ok.2 ⟨htags, rfl⟩]
    rfl

theorem refusedExactly {tags : List Value} (h : ∀ tag ∈ tags, hashable py tag = true) :
    RefusedExactly schema tags current ((schema.normalizeTags tags).filter (isNewTag schema.tags
      ((carriedTags schema.toFrontmatterSchema current).map schema.canonicalTag))) := by
  refine ⟨List.filter_sublist, fun tag htag => isNewTag_iff.1 (List.mem_filter.1 htag).2, ?_⟩
  intro tag htag
  constructor
  · intro hnew
    obtain ⟨normal, hnormal, heq⟩ := @normalized_of_mem schema.toFrontmatterSchema tags _ htag
    refine ⟨normal, List.mem_filter.2 ⟨hnormal, isNewTag_iff.2 ?_⟩, heq⟩
    obtain rfl | heq := heq
    · exact hnew
    · have hhash : hashable py (schema.canonicalTag tag) = true := by
        rw [hashable_canonicalTag]
        exact h tag htag
      exact hnew.to_pyEq hhash heq
  · rintro ⟨one, hone, heq⟩
    have hnew := isNewTag_iff.1 (List.mem_filter.1 hone).2
    obtain rfl | heq := heq
    · exact hnew
    · exact hnew.of_pyEq heq

theorem refusesNew_of_allHashable (hclosed : schema.tagMode = .closed)
    (h : AllHashable py schema frontmatter current) : RefusesNew py schema frontmatter current := by
  cases htags : tagsOf schema.toFrontmatterSchema frontmatter with
  | none =>
    have hok : schema.tagProblems py frontmatter current = .ok [] := by
      unfold TaggedSchema.tagProblems TaggedSchema.closedTags Schema.tagProblems
      rw [hclosed, htags]
    refine ⟨⟨[], hok, ?_⟩, fun _ => hok⟩
    rw [htags]
    exact ⟨List.nil_sublist _, by simp, by simp⟩
  | some tags =>
    have hok := (tagProblems_eq_ok hclosed htags).2 ⟨h, rfl⟩
    have hexact := @refusedExactly py schema current tags (h tags htags).1
    refine ⟨⟨_, hok, by rwa [htags]⟩, fun hcarried => ?_⟩
    rw [htags] at hcarried
    rw [hok, List.map_eq_nil_iff.2]
    -- A tag that is refused is one of the list, and the note carries that one.
    refine List.eq_nil_iff_forall_not_mem.2 fun one hone => ?_
    obtain ⟨tag, htag, rfl⟩ := exists_of_normalized tags (hexact.sublist.subset hone)
    obtain ⟨held, hheld, heq⟩ := hcarried tag htag
    exact Bool.eq_false_iff.1 ((hexact.new _ hone).added held hheld) heq

/-- **Closed tags refuse the new ones**, exactly where every tag has a hash. -/
theorem refusesNew_iff (hvalid : schema.validateTags py = none) :
    NormalisesOnce schema.toFrontmatterSchema ∧ (schema.tagMode = .closed →
      ∀ frontmatter current, RefusesNew py schema frontmatter current ↔
        AllHashable py schema frontmatter current) := by
  refine ⟨normalisesOnce (chainless_of_validateTags hvalid), fun hclosed frontmatter current =>
    ⟨?_, refusesNew_of_allHashable hclosed⟩⟩
  rintro ⟨⟨refused, hok, -⟩, -⟩ tags htags
  exact ((tagProblems_eq_ok hclosed htags).1 hok).1 tags htags

end Closed

section Samples

def sampleText (value : Value) : PyStr := (str? value).getD []

def samplePython : Python where
  str := sampleText
  repr value := PyStr.lit "'" ++ sampleText value ++ PyStr.lit "'"
  isoformat _ := []
  casefold := id
  dateFromIso _ := none
  datetimeFromIso _ := none
  timeFromIso _ := none

def sampleRoles : Roles where
  idKey := "id".toList
  dateKey := "date".toList
  typeKey := "type".toList
  contextKey := "context".toList
  accountKey := "account".toList
  reviewedKey := "reviewed".toList
  sourcesKey := "sources".toList
  tagsKey := "tags".toList
  schemaVersionKey := "schema_version".toList

/-- Closed tags with one tag listed, and one name for it. -/
def workSchema : TaggedSchema where
  keys := []
  roles := sampleRoles
  tagAliases := [("job".toList, "work".toList)]
  tags := ["work".toList]
  tagMode := .closed

/-- Frontmatter with these tags. -/
def taggedWith (tags : List Value) : Entries := [(.str "tags".toList, .seq false tags)]

theorem refusesNew_iff_work :
    workSchema.validateTags samplePython = none ∧ workSchema.tagMode = .closed ∧
      RefusesNew samplePython workSchema
        (taggedWith [.str "job".toList, .str "golf".toList, .int 1, .bool true, .str "chess".toList])
        (some (taggedWith [.str "chess".toList])) := by
  refine ⟨by decide, rfl, ((refusesNew_iff (by decide)).2 rfl _ _).2 ?_⟩
  intro tags htags
  obtain rfl := Option.some.inj htags
  decide

/-- A tag that is a list ends the write, also one that changes no tag. -/
theorem closedTags_raise :
    workSchema.validateTags samplePython = none ∧ workSchema.tagMode = .closed ∧
      ¬RefusesNew samplePython workSchema (taggedWith [.seq false [.str "a".toList]])
        (some (taggedWith [.seq false [.str "a".toList]])) := by
  refine ⟨by decide, rfl, ?_⟩
  rintro ⟨⟨refused, hok, -⟩, -⟩
  cases hok

end Samples

end Coppermind.Schema
