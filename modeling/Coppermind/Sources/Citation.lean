import Coppermind.Sources.Document
import Coppermind.Frontmatter.Lookup

/-!
# What a Review note says of its source

The frontmatter an ingest builds, written out and read back, cites the source and carries the
note's identity, in a schema whose roles do not share these keys.
-/

namespace Coppermind.Sources

open Coppermind.Lib Coppermind.Lib.Text Coppermind.Frontmatter Coppermind.Schema
open Coppermind.Notes (strValue setStr)

section Strings

variable {k : Text} {v : Value}

/-- A key that is a string with a lone surrogate is no text. -/
def Keyed (entries : Entries) : Prop :=
  ∀ e ∈ entries, ∀ points : PyStr, e.1 = .surrogateStr points → points.encodable = false

theorem encodable_ofText (t : Text) : (PyStr.ofText t).encodable = true := by
  unfold PyStr.encodable PyStr.ofText
  rw [List.all_eq_true]
  intro c hc
  obtain ⟨char, -, rfl⟩ := List.mem_map.1 hc
  have hvalid := char.valid
  simp only [PyStr.isSurrogate, Char.toNat, Bool.not_eq_true', Bool.and_eq_false_iff,
    decide_eq_false_iff_not, not_le]
  obtain h | h := hvalid
  · exact Or.inl h
  · exact Or.inr h.1

theorem map_ofNat_ofText (t : Text) : (PyStr.ofText t).map Char.ofNat = t := by
  simp [PyStr.ofText, Function.comp_def, Char.ofNat_toNat]

theorem strValue_ofText (t : Text) : strValue (PyStr.ofText t) = .str t := by
  unfold strValue
  rw [if_pos (encodable_ofText t), map_ofNat_ofText]

theorem ofText_injective {t u : Text} (h : PyStr.ofText t = PyStr.ofText u) : t = u := by
  rw [← map_ofNat_ofText t, h, map_ofNat_ofText]

theorem str?_eq_ofText {key : Value}
    (hkey : ∀ points : PyStr, key = .surrogateStr points → points.encodable = false) :
    str? key = some (PyStr.ofText k) ↔ key = .str k := by
  cases key with
  | str t =>
    constructor
    · intro h
      rw [ofText_injective (Option.some.inj h)]
    · rintro ⟨⟩
      rfl
  | surrogateStr points =>
    constructor
    · intro h
      obtain rfl := Option.some.inj h
      have hne := hkey _ rfl
      rw [encodable_ofText] at hne
      cases hne
    · rintro ⟨⟩
  | _ => simp [str?]

theorem Keyed.setStr {entries : Entries} (h : Keyed entries) (key : PyStr) :
    Keyed (setStr entries key v) := by
  unfold Notes.setStr
  split
  · intro e he points hpoints
    obtain ⟨e', he', rfl⟩ := List.mem_map.1 he
    refine h e' he' points ?_
    split at hpoints <;> exact hpoints
  · intro e he points hpoints
    obtain he | he := List.mem_append.1 he
    · exact h e he points hpoints
    · obtain rfl := List.mem_singleton.1 he
      change strValue key = _ at hpoints
      unfold strValue at hpoints
      split at hpoints
      · cases hpoints
      · next hne =>
        cases hpoints
        simpa using hne

theorem get?_setStr_self {entries : Entries} (h : Keyed entries) :
    Entries.get? k (setStr entries (PyStr.ofText k) v) = some v := by
  unfold Notes.setStr
  have hcongr : ∀ e ∈ entries, (if str? e.1 == some (PyStr.ofText k) then (e.1, v) else e) =
      if e.1.isText k then (e.1, v) else e := by
    intro e he
    have hiff : str? e.1 = some (PyStr.ofText k) ↔ e.1 = .str k := str?_eq_ofText (h e he)
    by_cases hkey : e.1 = .str k
    · simp [hkey, Value.isText, str?]
    · have hstr : (str? e.1 == some (PyStr.ofText k)) = false := by
        simpa using fun h => hkey (hiff.1 h)
      have htext : e.1.isText k = false := by rw [← Bool.not_eq_true, isText_iff]; exact hkey
      rw [hstr, htext]
  have hany : (entries.any fun e => str? e.1 == some (PyStr.ofText k)) = entries.has k := by
    unfold Entries.has
    rw [Bool.eq_iff_iff, List.any_eq_true, List.any_eq_true]
    constructor
    · rintro ⟨e, he, hkey⟩
      exact ⟨e, he, isText_iff.2 ((str?_eq_ofText (h e he)).1 (by simpa using hkey))⟩
    · rintro ⟨e, he, hkey⟩
      exact ⟨e, he, by simpa using (str?_eq_ofText (h e he)).2 (isText_iff.1 hkey)⟩
  rw [List.map_congr_left hcongr, hany, strValue_ofText]
  exact get?_set_self entries

theorem get?_setStr_of_ne {entries : Entries} {key : Value}
    (hkey : (∃ t, key = .str t) ∨ ∃ points : PyStr, key = .surrogateStr points ∧
      points.encodable = false) (hne : key ≠ .str k) :
    Entries.get? k (setStr entries ((str? key).getD []) v) = Entries.get? k entries := by
  have hstr : str? (.str k) ≠ some ((str? key).getD []) ∧
      strValue ((str? key).getD []) ≠ .str k := by
    obtain ⟨t, rfl⟩ | ⟨points, rfl, hencodable⟩ := hkey
    · change some (PyStr.ofText k) ≠ some (PyStr.ofText t) ∧ strValue (PyStr.ofText t) ≠ _
      rw [strValue_ofText]
      refine ⟨fun h => hne ?_, hne⟩
      rw [ofText_injective (Option.some.inj h)]
    · change some (PyStr.ofText k) ≠ some points ∧ strValue points ≠ _
      constructor
      · intro h
        obtain rfl := Option.some.inj h
        rw [encodable_ofText] at hencodable
        cases hencodable
      · simp [strValue, hencodable]
  unfold Notes.setStr
  split
  · rw [get?_replace fun key' => str? key' == some ((str? key).getD [])]
    have hfalse : (str? (.str k) == some ((str? key).getD [])) = false := by simpa using hstr.1
    simp [hfalse]
  · rw [get?_append, get?_cons, if_neg fun h => hstr.2 (isText_iff.1 h), get?_nil, Option.or_none]

/-- The values of a request over the defaults: one that a key is given everywhere it stands. -/
theorem get?_foldl_setStr {given : Entries}
    (hgiven : ∀ e ∈ given, (∃ t, e.1 = .str t) ∨ ∃ points : PyStr, e.1 = .surrogateStr points ∧
      points.encodable = false)
    (hvalue : ∀ e ∈ given, e.1 = .str k → e.2 = v) (values : Entries) (hvalues : Keyed values)
    (h : Entries.get? k values = some v ∨ ∃ e ∈ given, e.1 = .str k) :
    Entries.get? k (given.foldl (fun values e => setStr values ((str? e.1).getD []) e.2) values) =
      some v := by
  induction given generalizing values with
  | nil =>
    obtain h | ⟨e, he, -⟩ := h
    · exact h
    · cases he
  | cons entry rest ih =>
    rw [List.foldl_cons]
    apply ih (fun e he => hgiven e (List.mem_cons_of_mem _ he))
      (fun e he => hvalue e (List.mem_cons_of_mem _ he)) _ (hvalues.setStr _)
    by_cases hkey : entry.1 = .str k
    · left
      rw [hvalue entry List.mem_cons_self hkey, hkey]
      exact get?_setStr_self hvalues
    · rw [get?_setStr_of_ne (hgiven entry List.mem_cons_self) hkey]
      obtain h | ⟨e, he, hek⟩ := h
      · exact Or.inl h
      · obtain rfl | he := List.mem_cons.1 he
        · exact absurd hek hkey
        · exact Or.inr ⟨e, he, hek⟩

end Strings

section Ordered

variable {py : Python} {schema : FrontmatterSchema} {k : Text} {v : Value}

/-- One turn of the loop of `_ordered` over the keys of the schema. -/
def placed (values known : Entries) (definition : KeyDefinition) : Entries :=
  match present? values definition.name with
  | some value => known.set definition.name value
  | none => known

/-- Every key of the schema that is present is written first, the others after it. -/
theorem get?_ordered {values : Entries} (hv : withKind py schema (.str k) v ≠ .null)
    (h : values.get? k = some v) :
    (ordered py schema values).get? k = some (withKind py schema (.str k) v) := by
  have hkinds : (withKinds py schema values).get? k = some (withKind py schema (.str k) v) := by
    unfold withKinds
    rw [get?_map (withKind py schema), h, Option.map_some]
  have hpresent : present? (withKinds py schema values) k = some (withKind py schema (.str k) v) := by
    unfold present?
    rw [hkinds]
    split <;> simp_all
  -- What the loop over the schema has for the key, after any of its turns.
  have hknown : ∀ (definitions : List KeyDefinition) (known : Entries),
      Entries.get? k (definitions.foldl (placed (withKinds py schema values)) known) =
        if definitions.any (·.name == k) then some (withKind py schema (.str k) v)
        else known.get? k := by
    intro definitions
    induction definitions with
    | nil => intro known; rfl
    | cons definition rest ih =>
      intro known
      rw [List.foldl_cons, List.any_cons, ih]
      by_cases hname : definition.name = k
      · subst hname
        unfold placed
        rw [hpresent]
        dsimp only
        rw [get?_set_self]
        simp
      · have hne : (definition.name == k) = false := by simpa using hname
        have hsame : (placed (withKinds py schema values) known definition).get? k =
            known.get? k := by
          unfold placed
          cases present? (withKinds py schema values) definition.name with
          | none => rfl
          | some value => exact get?_set_of_ne (Ne.symm hname) known
        rw [hsame, hne, Bool.false_or]
  change Entries.get? k (schema.keys.foldl (placed (withKinds py schema values)) [] ++ _) = _
  rw [get?_append, hknown schema.keys []]
  cases hlisted : schema.keys.any (·.name == k) with
  | true => simp
  | false =>
    simp only [Bool.false_eq_true, if_false, get?_nil, Option.none_or]
    have hkeep : (schema.keys.any fun definition => (Value.str k).isText definition.name) = false := by
      rw [← hlisted]
      congr 1
      funext definition
      simp [Value.isText, Bool.beq_comm]
    have hfilter : ∀ entries : Entries, Entries.get? k (entries.filter fun entry =>
        !schema.keys.any fun definition => entry.1.isText definition.name) = entries.get? k := by
      intro entries
      induction entries with
      | nil => rfl
      | cons entry rest ih =>
        rw [List.filter_cons, get?_cons]
        cases htext : entry.1.isText k with
        | true =>
          rw [isText_iff.1 htext, hkeep]
          simp [get?_cons, htext]
        | false =>
          split
          · rw [get?_cons, htext, ih]
          · exact ih
    rw [hfilter, hkinds]

end Ordered

/-- The roles of the citation and of the identity share no key with a role that is written over
them, and the identity is not read as a date. -/
structure RolesApart (schema : FrontmatterSchema) : Prop where
  sources_ne_id : schema.roles.sourcesKey ≠ schema.roles.idKey
  sources_ne_date : schema.roles.sourcesKey ≠ schema.roles.dateKey
  sources_ne_reviewed : schema.roles.sourcesKey ≠ schema.roles.reviewedKey
  sources_ne_tags : schema.roles.sourcesKey ≠ schema.roles.tagsKey
  id_notMem : schema.roles.idKey ∉ dateKeys
  id_kind : ((schema.keys.reverse.find? (·.name == schema.roles.idKey)).any (·.kind == .date)) = false

section Note

variable {env : Env} {draw : Draw} {request : Request}

theorem withKind_sources {schema : FrontmatterSchema} {py : Python} (hroles : RolesApart schema)
    (cited : List Value) :
    withKind py schema (.str schema.roles.sourcesKey) (.seq false cited) = .seq false cited := by
  unfold withKind
  dsimp only
  split
  · rfl
  · rw [if_neg hroles.sources_ne_tags]

theorem withKind_id {schema : FrontmatterSchema} {py : Python} (hroles : RolesApart schema)
    (id : Text) : withKind py schema (.str schema.roles.idKey) (.str id) = .str id := by
  unfold withKind
  dsimp only
  rw [hroles.id_kind]
  simp

theorem keyed_defaults (defaults : List (Text × Value)) :
    Keyed (defaults.map fun d => (.str d.1, d.2)) := by
  intro e he points hpoints
  obtain ⟨d, -, rfl⟩ := List.mem_map.1 he
  cases hpoints

theorem mem_set {entries : Entries} {key : Text} {v : Value} {e : Value × Value}
    (h : e ∈ entries.set key v) : (∃ e' ∈ entries, e.1 = e'.1 ∧ (e.1 ≠ .str key → e = e')) ∨
      e = (.str key, v) := by
  unfold Entries.set at h
  split at h
  · obtain ⟨e', he', rfl⟩ := List.mem_map.1 h
    refine Or.inl ⟨e', he', ?_⟩
    split
    · next htext => exact ⟨rfl, fun hne => absurd (isText_iff.1 htext) hne⟩
    · exact ⟨rfl, fun _ => rfl⟩
  · obtain h | h := List.mem_append.1 h
    · exact Or.inl ⟨e, h, rfl, fun _ => rfl⟩
    · exact Or.inr (List.mem_singleton.1 h)

theorem value_of_mem_set {entries : Entries} {key : Text} {v : Value} {e : Value × Value}
    (h : e ∈ entries.set key v) (hkey : e.1 = .str key) : e.2 = v := by
  unfold Entries.set at h
  split at h
  · obtain ⟨e', -, rfl⟩ := List.mem_map.1 h
    split at hkey
    · next htext => simp [htext]
    · next htext => exact absurd (isText_iff.2 hkey) htext
  · next hhas =>
    obtain h | h := List.mem_append.1 h
    · exact absurd (List.any_eq_true.2 ⟨e, h, isText_iff.2 hkey⟩) hhas
    · rw [List.mem_singleton.1 h]

/-- The frontmatter of a request, with its keys. -/
theorem requestFrontmatter_keys : ∀ e ∈ requestFrontmatter env draw request,
    (∃ t, e.1 = .str t) ∨ ∃ points : PyStr, e.1 = .surrogateStr points ∧
      points.encodable = false := by
  intro e he
  obtain ⟨e', he', hkey, -⟩ | rfl := mem_set he
  · rw [hkey]
    obtain ⟨e'', he'', hkey', -⟩ | rfl := mem_set he'
    · rw [hkey']
      exact request.keys_str e'' he''
    · exact Or.inl ⟨_, rfl⟩
  · exact Or.inl ⟨_, rfl⟩

theorem requestFrontmatter_sources (hroles : RolesApart env.schema) :
    ∀ e ∈ requestFrontmatter env draw request, e.1 = .str env.schema.roles.sourcesKey →
      e.2 = .seq false [.str draw.sourceId] := by
  intro e he hkey
  obtain ⟨e', he', -, hsame⟩ | rfl := mem_set he
  · have hne : e.1 ≠ .str env.schema.roles.reviewedKey := by
      rw [hkey]
      intro h
      exact hroles.sources_ne_reviewed (Value.str.inj h)
    rw [hsame hne] at hkey ⊢
    exact value_of_mem_set he' hkey
  · exact absurd (Value.str.inj hkey) (Ne.symm hroles.sources_ne_reviewed)

theorem exists_requestFrontmatter_sources (hroles : RolesApart env.schema) :
    ∃ e ∈ requestFrontmatter env draw request, e.1 = .str env.schema.roles.sourcesKey := by
  have h : (requestFrontmatter env draw request).get? env.schema.roles.sourcesKey =
      some (.seq false [.str draw.sourceId]) := by
    rw [requestFrontmatter, get?_set_of_ne hroles.sources_ne_reviewed, get?_set_self]
  have hhas := @get?_isSome env.schema.roles.sourcesKey (requestFrontmatter env draw request)
  rw [h, Entries.has, eq_comm, Option.isSome_some, List.any_eq_true] at hhas
  obtain ⟨e, he, htext⟩ := hhas
  exact ⟨e, he, isText_iff.1 htext⟩

/-- The frontmatter before it is put in order. -/
def unordered (env : Env) (draw : Draw) (request : Request) : Entries :=
  let roles := env.schema.roles
  let defaults : Entries := env.schema.defaults.map fun d => (.str d.1, d.2)
  let values := (requestFrontmatter env draw request).foldl (fun values entry =>
    setStr values ((str? entry.1).getD []) entry.2) defaults
  let values := (noteDateValue env draw request).elim values fun date => values.set roles.dateKey date
  let values := values.set roles.idKey (.str draw.noteId)
  if values.has roles.schemaVersionKey then values else values.set roles.schemaVersionKey (.int 1)

theorem unordered_sources (hroles : RolesApart env.schema) :
    (unordered env draw request).get? env.schema.roles.sourcesKey =
      some (.seq false [.str draw.sourceId]) := by
  apply get?_setDefault
  rw [get?_set_of_ne hroles.sources_ne_id]
  have hgiven := get?_foldl_setStr (@requestFrontmatter_keys env draw request)
    (requestFrontmatter_sources hroles) (env.schema.defaults.map fun d => (.str d.1, d.2))
    (keyed_defaults _) (Or.inr (exists_requestFrontmatter_sources hroles))
  cases noteDateValue env draw request with
  | none => exact hgiven
  | some date => exact (get?_set_of_ne hroles.sources_ne_date _).trans hgiven

theorem unordered_id :
    (unordered env draw request).get? env.schema.roles.idKey = some (.str draw.noteId) :=
  get?_setDefault (get?_set_self _)

/-- The entries of the note as they are written. -/
def writtenFrontmatter (env : Env) (draw : Draw) (request : Request) : Entries :=
  (yamlMapping ⟨none, buildFrontmatter env draw request⟩).entries

/-- What a value is written as under its key. -/
def scalarUnder : Value → Value → Value
  | .str key, value => yamlScalar key value
  | _, value => value

theorem yamlMapping_entries (entries : Entries) :
    (yamlMapping ⟨none, entries⟩).entries = entries.map fun e => (e.1, scalarUnder e.1 e.2) := by
  unfold yamlMapping
  simp only [Mapping.isCommented, Option.isSome_none, Bool.false_eq_true, if_false]
  apply List.map_congr_left
  rintro ⟨key, value⟩ _
  cases key <;> rfl

theorem get?_yamlMapping {k : Text} (entries : Entries) :
    (yamlMapping ⟨none, entries⟩).entries.get? k = (entries.get? k).map (yamlScalar k) := by
  rw [yamlMapping_entries, get?_map scalarUnder]
  rfl

theorem yamlScalar_of_notMem {k : Text} {v : Value} (h : k ∉ dateKeys) : yamlScalar k v = v := by
  unfold yamlScalar
  rw [if_pos h]

theorem yamlScalar_seq {k : Text} {flow : Bool} {items : List Value} :
    yamlScalar k (.seq flow items) = .seq flow items := by
  unfold yamlScalar
  split <;> rfl

/-- **The note cites its source**. -/
theorem writtenFrontmatter_sources (hroles : RolesApart env.schema) :
    (writtenFrontmatter env draw request).get? env.schema.roles.sourcesKey =
      some (.seq false [.str draw.sourceId]) := by
  have hkind := @withKind_sources _ env.lib.py hroles [.str draw.sourceId]
  rw [writtenFrontmatter, get?_yamlMapping]
  change (Entries.get? _ (ordered _ _ (unordered env draw request))).map _ = _
  rw [get?_ordered (by rw [hkind]; simp) (unordered_sources hroles), hkind, Option.map_some,
    yamlScalar_seq]

/-- **The note carries its identity**. -/
theorem writtenFrontmatter_id (hroles : RolesApart env.schema) :
    (writtenFrontmatter env draw request).get? env.schema.roles.idKey = some (.str draw.noteId) := by
  have hkind := @withKind_id _ env.lib.py hroles draw.noteId
  rw [writtenFrontmatter, get?_yamlMapping]
  change (Entries.get? _ (ordered _ _ (unordered env draw request))).map _ = _
  rw [get?_ordered (by rw [hkind]; simp) unordered_id, hkind, Option.map_some,
    yamlScalar_of_notMem hroles.id_notMem]

end Note

end Coppermind.Sources
