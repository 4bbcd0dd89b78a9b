import Coppermind.Filing.File
import Coppermind.Frontmatter.BodyBytes
import Coppermind.Schema.Tags
import Coppermind.Sources.Canonical
import Coppermind.Sources.Citation
import Coppermind.Sources.Order

/-!
# What a read and a replace leave of a note

`replace_note` with the document `get_note` returned.  Every key goes through JSON, the kind its
key has, the comparison with what the file holds and the writer of scalars; `rewritten` is what
comes out.  It is the value the file held but for a text that is not the canonical one of its date,
a tag list and a date and time under `date` or `time`, and what it makes it leaves as it is.
-/

namespace Coppermind.Filing

open Coppermind.Lib Coppermind.Lib.Text Coppermind.Lib.Task Coppermind.Frontmatter Coppermind.Schema
open Coppermind.Artifacts (NotePath)
open Coppermind.Notes (FileBytes NoteId Settled JsonKey IsString WritesCodes strOf strValue jsonable
  jsonableItems jsonableEntries jsonable_jsonable jsonableItems_jsonableItems jsonableEntries_eq
  jsonable_strValue formatNoteTime strValue_cases storable)
open Coppermind.Sources

theorem strip_length_le (t : Text) : (strip t).length ≤ t.length := by
  rw [strip, List.rdropWhile, List.length_reverse]
  have houter := (List.dropWhile_suffix (l := (t.dropWhile isSpace).reverse) isSpace).length_le
  have hinner := (List.dropWhile_suffix (l := t) isSpace).length_le
  rw [List.length_reverse] at houter
  omega

section Values

variable (env : Env)

/-- A key whose values are dates: of several definitions of one key the last counts. -/
def isDateKind (schema : FrontmatterSchema) : Value → Bool
  | .str name => (schema.keys.reverse.find? (·.name == name)).any (·.kind == .date)
  | _ => false

/-- What a replace is sent for a value that a read hands out. -/
def handed (key v : Value) : Value :=
  withKind env.lib.py env.schema key (jsonable env.lib.py v)

/-- The value sent, but the one held where they are one as JSON. -/
def kept (sent held : Value) : Value := if sameJson env sent held then held else sent

/-- What a read and a replace make of a value. -/
def rewritten (key v : Value) : Value := scalarUnder key (kept env (handed env key v) v)

/-- The value a key is written back with: a text under a date's key as the date it spells, a tag
list normalised, each unless that is one with the file's as JSON, any other value as the file holds
it; and the scalar under `date` or `time` unquoted where it spells a local date and time. -/
def writtenBack (key v : Value) : Value :=
  scalarUnder key
    (if isDateKind env.schema key then
      match v with
      | .str _ => kept env (dateValue env.lib.py (jsonable env.lib.py v)) v
      | _ => v
    else if key.isText env.schema.roles.tagsKey then
      match v with
      | .seq _ items =>
        kept env (.seq false (env.schema.normalizeTags (jsonableItems env.lib.py items))) v
      | _ => v
    else v)

/-- What is accepted under a date's key: nothing, a date in the file and as it is sent, or the text
or the list that an account may be. -/
def Dated (key v : Value) : Prop :=
  v = .null ∨ (isDate env.lib.py v = true ∧ isDate env.lib.py (handed env key v) = true) ∨
    (str? v).isSome = true ∨ (items? v).isSome = true

/-- Tags that a second normalisation, of what JSON leaves of them, does not change. -/
def TagsStay (items : List Value) : Prop :=
  let tags := env.schema.normalizeTags (jsonableItems env.lib.py items)
  env.schema.normalizeTags (jsonableItems env.lib.py tags) = jsonableItems env.lib.py tags

variable {env} {key v w : Value}

theorem withKind_eq {py : Python} {schema : FrontmatterSchema} (key v : Value) :
    withKind py schema key v =
      if isDateKind schema key then dateValue py v
      else if key.isText schema.roles.tagsKey then
        match v with
        | .seq _ tags => .seq false (schema.normalizeTags tags)
        | _ => v
      else v := by
  cases key with
  | str name =>
    unfold withKind isDateKind
    cases v <;> simp only [Value.isText, beq_iff_eq]
  | _ => simp [withKind, isDateKind, Value.isText]

theorem sameJson_of_eq (h : jsonable env.lib.py v = jsonable env.lib.py w) :
    sameJson env v w = true := by
  rw [sameJson, h]
  exact same_self _

theorem kept_self (v : Value) : kept env v v = v := by
  unfold kept
  split <;> rfl

theorem kept_of_eq (h : jsonable env.lib.py v = jsonable env.lib.py w) : kept env v w = w := by
  rw [kept, if_pos (sameJson_of_eq h)]

variable (hpy : WritesCodes env.lib.py)

include hpy in
/-- What comes back as JSON has it is what the file holds. -/
theorem kept_jsonable (hv : loadable v = true) : kept env (jsonable env.lib.py v) v = v :=
  kept_of_eq (jsonable_jsonable hpy v hv)

theorem jsonable_str_of_codes (t : Text) (h : '\x00' ∉ t) : jsonable env.lib.py (.str t) = .str t := by
  have hnul : 0 ∉ PyStr.ofText t := by
    intro hmem
    obtain ⟨c, hc, hzero⟩ := List.mem_map.1 hmem
    have hnul : c = '\x00' := Char.ext (UInt32.toNat_inj.1 hzero)
    exact h (hnul ▸ hc)
  have hself := jsonable_strValue env.lib.py (Notes.isString_of_codes (Notes.codes_ofText t)) hnul
  rwa [strValue_ofText] at hself

theorem scalarUnder_str (name : Text) (v : Value) : scalarUnder (.str name) v = yamlScalar name v := rfl

theorem scalarUnder_of_not_str (h : ∀ t, v ≠ .str t) (hdatetime : ∀ d, v ≠ .datetime d) :
    scalarUnder key v = v := by
  cases key with
  | str name =>
    unfold scalarUnder yamlScalar
    dsimp only
    split
    · rfl
    · cases v with
      | str t => exact absurd rfl (h t)
      | datetime d => exact absurd rfl (hdatetime d)
      | _ => rfl
  | _ => rfl

theorem strValue_shape {py : Python} (points : PyStr) :
    (∃ t, strValue points = .str t) ∨ dateValue py (strValue points) = strValue points := by
  obtain h | h := strValue_cases points
  · exact Or.inl h
  · exact Or.inr (by rw [h]; rfl)

/-- A lone surrogate is still there in JSON, and no date is made of it. -/
theorem dateValue_surrogate {py : Python} {points : PyStr} (h : points.encodable = false) :
    dateValue py (jsonable py (.surrogateStr points)) = jsonable py (.surrogateStr points) := by
  have hstill : (storable points).encodable = false := by
    rw [PyStr.encodable, List.all_eq_false] at h ⊢
    obtain ⟨c, hc, hsurrogate⟩ := h
    refine ⟨c, List.mem_filter.2 ⟨hc, ?_⟩, hsurrogate⟩
    rw [decide_eq_true_eq]
    rintro rfl
    exact hsurrogate (by decide)
  rw [jsonable, strValue, if_neg (by simp [hstill])]
  rfl

/-- JSON is a text, or nothing that a date is made of. -/
theorem jsonable_shape (py : Python) (v : Value) :
    (∃ t, jsonable py v = .str t) ∨ dateValue py (jsonable py v) = jsonable py v := by
  cases v with
  | str s => exact strValue_shape _
  | surrogateStr points => exact strValue_shape _
  | date d => exact strValue_shape _
  | datetime d => exact strValue_shape _
  | timestamp d => exact strValue_shape _
  | other s => exact strValue_shape _
  | _ => exact Or.inr rfl

theorem strValue_ne_seq (points : PyStr) (flow : Bool) (items : List Value) :
    strValue points ≠ .seq flow items := by
  obtain ⟨t, h⟩ | h := strValue_cases points
  · rw [h]; simp
  · rw [h]; simp

theorem seq_of_jsonable {py : Python} {flow : Bool} {items : List Value}
    (h : jsonable py v = .seq flow items) : ∃ held, v = .seq flow held := by
  cases v with
  | seq flow' held =>
    simp only [jsonable, Value.seq.injEq] at h
    exact ⟨held, by rw [h.1]⟩
  | null | bool _ | int _ | float _ | map _ => cases h
  | _ => exact absurd h (strValue_ne_seq _ _ _)

theorem handed_of_other (hdate : isDateKind env.schema key = false)
    (hother : key.isText env.schema.roles.tagsKey = true → ∀ flow items, v ≠ .seq flow items) :
    handed env key v = jsonable env.lib.py v := by
  rw [handed, withKind_eq, hdate, if_neg Bool.false_ne_true]
  split
  · next htags =>
    split
    · next flow items hseq =>
      obtain ⟨held, rfl⟩ := seq_of_jsonable hseq
      exact absurd rfl (hother htags flow held)
    · rfl
  · rfl

theorem handed_of_tags (hdate : isDateKind env.schema key = false)
    (htags : key.isText env.schema.roles.tagsKey = true) (flow : Bool) (items : List Value) :
    handed env key (.seq flow items) =
      .seq false (env.schema.normalizeTags (jsonableItems env.lib.py items)) := by
  rw [handed, withKind_eq, hdate, if_neg Bool.false_ne_true, if_pos htags]
  rfl

theorem handed_of_date (hdate : isDateKind env.schema key = true) (v : Value) :
    handed env key v = dateValue env.lib.py (jsonable env.lib.py v) := by
  rw [handed, withKind_eq, hdate, if_pos rfl]

section Dates

variable (hiso : IsoTexts env.lib.py) {d : DateTime}

include hiso

theorem jsonable_date {day : Date} (h : day.isReal = true) :
    jsonable env.lib.py (.date day) = .str (isoDate day) := by
  rw [jsonable, hiso.isoformat_date day h, strValue_ofText]

theorem jsonable_timestamp (h : d.isReal = true) (hnaive : d.tzinfo = none) :
    jsonable env.lib.py (.timestamp d) = .str (isoDatetime d) := by
  rw [jsonable, hiso.isoformat_timestamp d h hnaive, strValue_ofText]

include hpy

/-- A date is written back as it is. -/
theorem kept_date {day : Date} (h : day.isReal = true) :
    kept env (handed env key (.date day)) (.date day) = .date day := by
  cases hdate : isDateKind env.schema key with
  | true =>
    rw [handed_of_date hdate, jsonable_date hiso h, dateValue_isoDate hiso h]
    exact kept_self _
  | false =>
    rw [handed_of_other hdate fun _ _ _ => by simp]
    exact kept_jsonable hpy (by simpa [loadable] using h)

/-- So is a date and time with whole seconds, of a year in four digits under a date's key. -/
theorem kept_timestamp (h : d.isReal = true) (hnaive : d.tzinfo = none) (hwhole : d.microsecond = 0)
    (hyear : isDateKind env.schema key = true → FullYear env.lib.py.padsYears d) :
    kept env (handed env key (.timestamp d)) (.timestamp d) = .timestamp d := by
  have hloadable : loadable (.timestamp d) = true := by simpa [loadable] using h
  have hself : handed env key (.timestamp d) = jsonable env.lib.py (.timestamp d) := by
    cases hdate : isDateKind env.schema key with
    | true =>
      rw [handed_of_date hdate, jsonable_timestamp hiso h hnaive,
        dateValue_isoDatetime hiso h hnaive hwhole, formatNoteTime_full h (hyear hdate) hwhole]
    | false => exact handed_of_other hdate fun _ _ _ => by simp
  rw [hself]
  exact kept_jsonable hpy hloadable

theorem rewritten_timestamp (h : d.isReal = true) (hnaive : d.tzinfo = none)
    (hwhole : d.microsecond = 0) (hyear : isDateKind env.schema key = true → FullYear env.lib.py.padsYears d) :
    rewritten env key (.timestamp d) = .timestamp d := by
  rw [rewritten, kept_timestamp hpy hiso h hnaive hwhole hyear]
  exact scalarUnder_of_not_str (by simp) (by simp)

/-- A canonical text is its own JSON form. -/
theorem jsonable_canonical (h : d.isReal = true) (hnaive : d.tzinfo = none)
    (hwhole : d.microsecond = 0) (hyear : FullYear env.lib.py.padsYears d) :
    jsonable env.lib.py (.str (formatNoteTime env.lib.py.padsYears d)) = .str (formatNoteTime env.lib.py.padsYears d) := by
  have hjson := jsonable_jsonable hpy (.timestamp d) (by simpa [loadable] using h)
  rwa [jsonable_timestamp hiso h hnaive, ← formatNoteTime_full h hyear hwhole] at hjson

/-- A canonical text stays, or stays the date and time it is written as. -/
theorem rewritten_canonical (hdate : isDateKind env.schema key = true) (h : d.isReal = true)
    (hnaive : d.tzinfo = none) (hwhole : d.microsecond = 0) (hyear : FullYear env.lib.py.padsYears d) :
    rewritten env key (scalarUnder key (.str (formatNoteTime env.lib.py.padsYears d))) =
      scalarUnder key (.str (formatNoteTime env.lib.py.padsYears d)) := by
  cases key with
  | str name =>
    by_cases hname : name ∈ dateKeys
    · rw [scalarUnder_str, yamlScalar_canonical hname h hnaive hwhole hyear]
      exact rewritten_timestamp hpy hiso h hnaive hwhole fun _ => hyear
    · have hplain : scalarUnder (.str name) (.str (formatNoteTime env.lib.py.padsYears d)) = .str (formatNoteTime env.lib.py.padsYears d) := by
        rw [scalarUnder_str, yamlScalar, if_pos hname]
      have hhanded : handed env (.str name) (.str (formatNoteTime env.lib.py.padsYears d)) = .str (formatNoteTime env.lib.py.padsYears d) := by
        rw [handed_of_date hdate, jsonable_canonical hpy hiso h hnaive hwhole hyear,
          formatNoteTime_full h hyear hwhole, dateValue_isoDatetime hiso h hnaive hwhole,
          formatNoteTime_full h hyear hwhole]
      rw [hplain, rewritten, hhanded, kept_self, hplain]
  | _ => exact absurd hdate Bool.false_ne_true

end Dates

theorem kept_of_not_same (h : ¬sameJson env v w = true) : kept env v w = v := by
  rw [kept, if_neg h]

include hpy in
/-- A normalised tag list stays, where JSON leaves no tag twice in it. -/
theorem rewritten_tags (hdate : isDateKind env.schema key = false)
    (htags : key.isText env.schema.roles.tagsKey = true) {items : List Value}
    (hitems : loadableItems items = true) (hstay : TagsStay env items) :
    rewritten env key
        (.seq false (env.schema.normalizeTags (jsonableItems env.lib.py items))) =
      .seq false (env.schema.normalizeTags (jsonableItems env.lib.py items)) := by
  have hmap : ∀ items : List Value,
      jsonableItems env.lib.py items = items.map (jsonable env.lib.py) := by
    intro items
    induction items with
    | nil => rfl
    | cons item rest ih => rw [jsonableItems, ih, List.map_cons]
  have htwice : ∀ tag ∈ env.schema.normalizeTags (jsonableItems env.lib.py items),
      jsonable env.lib.py (jsonable env.lib.py tag) = jsonable env.lib.py tag := by
    intro tag htag
    obtain htag | ⟨e, he, rfl⟩ := mem_normalizeTags htag
    · have hjson := jsonableItems_jsonableItems hpy items hitems
      rw [hmap (jsonableItems env.lib.py items)] at hjson
      conv_rhs at hjson => rw [← List.map_id (jsonableItems env.lib.py items)]
      rw [List.map_inj_left.1 hjson tag htag]
      exact List.map_inj_left.1 hjson tag htag
    · exact jsonable_jsonable hpy _ rfl
  rw [rewritten, handed_of_tags hdate htags, hstay, kept_of_eq]
  · exact scalarUnder_of_not_str (by simp) (by simp)
  · rw [jsonable, jsonable, Value.seq.injEq, hmap (jsonableItems _ _), hmap, List.map_map]
    exact ⟨rfl, List.map_congr_left htwice⟩

variable (hiso : IsoTexts env.lib.py)

include hpy hiso in
/-- A text that is kept, and read as a date under a date's key: what the writer of scalars makes of
it is of a year in four digits. -/
theorem fullYear_of_kept {t : Text} {name : Text} {d : DateTime}
    (hdate : isDate env.lib.py (handed env (.str name) (.str t)) = true)
    (hkind : isDateKind env.schema (.str name) = true)
    (hsame : sameJson env (handed env (.str name) (.str t)) (.str t) = true)
    (hlength : 16 ≤ (strip t).length) (hnul : '\x00' ∉ t)
    (hscalar : yamlScalar name (.str t) = .timestamp d) (hname : name ∈ dateKeys) :
    FullYear env.lib.py.padsYears d := by
  have hjson := @jsonable_str_of_codes env t hnul
  have hheld := eq_of_same _ _ hsame
  rw [handed_of_date hkind, hjson] at hdate hheld
  obtain ⟨day, hreal, hvalue⟩ | ⟨d', hreal, hnaive, hwhole, hyear, hvalue⟩ :=
    dateValue_of_isDate hiso hdate
  · -- A day is too short for a date and time.
    rw [hvalue, jsonable_date hiso hreal] at hheld
    have ht : isoDate day = t := by simpa [unstyled] using hheld
    rw [← ht, isoDate_eq hreal] at hlength
    have hle := strip_length_le (dayText day)
    have hten : (dayText day).length = 10 := rfl
    omega
  · rw [hvalue, jsonable_canonical hpy hiso hreal hnaive hwhole hyear] at hheld
    have ht : formatNoteTime env.lib.py.padsYears d' = t := by simpa [unstyled] using hheld
    rw [← ht, yamlScalar_canonical hname hreal hnaive hwhole hyear] at hscalar
    rw [← Value.timestamp.inj hscalar]
    exact hyear

include hpy hiso in
/-- **Settled**: what a read and a replace make of a value, they leave as it is. -/
theorem rewritten_rewritten (hv : loadable v = true)
    (hdate : isDateKind env.schema key = true →
      isDate env.lib.py (handed env key v) = true ∨ env.lib.py.padsYears = true)
    (hstay : key.isText env.schema.roles.tagsKey = true → ∀ flow items, v = .seq flow items →
      TagsStay env items) :
    rewritten env key (rewritten env key v) = rewritten env key v := by
  by_cases hsame : sameJson env (handed env key v) v = true
  · have hself : rewritten env key v = scalarUnder key v := by rw [rewritten, kept, if_pos hsame]
    cases key with
    | str name =>
      obtain hplain | ⟨hname, t, d, rfl, hlength, hnul, hscalar, hreal, hnaive, hwhole⟩ :=
        @yamlScalar_cases name _ hv
      · have hunquoted : rewritten env (.str name) v = v := hself.trans hplain
        rw [hunquoted, hunquoted]
      · rw [hself, scalarUnder_str, hscalar]
        refine rewritten_timestamp hpy hiso hreal hnaive hwhole fun hkind => ?_
        obtain hread | hpads := hdate hkind
        · exact fullYear_of_kept hpy hiso hread hkind hsame hlength hnul hscalar hname
        · exact Or.inl hpads
    | _ =>
      have hunquoted : rewritten env _ v = v := hself
      rw [hunquoted, hunquoted]
  · have hnew : rewritten env key v = scalarUnder key (handed env key v) := by
      rw [rewritten, kept_of_not_same hsame]
    have hne : handed env key v ≠ jsonable env.lib.py v := by
      intro h
      rw [h] at hsame
      exact hsame (sameJson_of_eq (jsonable_jsonable hpy v hv))
    rw [hnew]
    cases hkind : isDateKind env.schema key with
    | true =>
      rw [handed_of_date hkind] at hne ⊢
      obtain ⟨t, ht⟩ | hself := jsonable_shape env.lib.py v
      · have hread := hdate hkind
        rw [handed_of_date hkind, ht] at hread
        rw [ht] at hne ⊢
        obtain ⟨-, hself⟩ | ⟨day, hreal, hvalue⟩ | ⟨d, hreal, hnaive, hwhole, hvalue⟩ :=
          dateValue_cases hiso t
        · exact absurd hself hne
        · have hplain : scalarUnder key (.date day) = .date day :=
            scalarUnder_of_not_str (by simp) (by simp)
          rw [hvalue, hplain, rewritten, kept_date hpy hiso hreal, hplain]
        · rw [hvalue] at hread ⊢
          exact rewritten_canonical hpy hiso hkind hreal hnaive hwhole
            (hread.elim (fullYear_of_isDate hreal) Or.inl)
      · exact absurd hself hne
    | false =>
      by_cases htags : key.isText env.schema.roles.tagsKey = true ∧ ∃ flow items, v = .seq flow items
      · obtain ⟨htext, flow, items, rfl⟩ := htags
        rw [handed_of_tags hkind htext, scalarUnder_of_not_str (by simp) (by simp)]
        exact rewritten_tags hpy hkind htext (by simpa [loadable] using hv)
          (hstay htext flow items rfl)
      · refine absurd (handed_of_other hkind fun htext flow items hseq => ?_) hne
        exact htags ⟨htext, flow, items, hseq⟩

include hpy hiso in
/-- A date and time that is read as one, and so is what is sent for it, is written back as it is. -/
theorem kept_read_timestamp {d : DateTime} (hkind : isDateKind env.schema key = true)
    (hreal : d.isReal = true) (hread : isDate env.lib.py (.timestamp d) = true)
    (hsent : isDate env.lib.py (handed env key (.timestamp d)) = true) :
    kept env (handed env key (.timestamp d)) (.timestamp d) = .timestamp d := by
  have hnaive : d.tzinfo = none := by
    simpa [isDate, parseNoteTime] using hread
  rw [handed_of_date hkind, jsonable_timestamp hiso hreal hnaive] at hsent
  by_cases hwhole : d.microsecond = 0
  · rw [dateValue_isoDatetime hiso hreal hnaive hwhole] at hsent
    exact kept_timestamp hpy hiso hreal hnaive hwhole fun _ => fullYear_of_isDate hreal hsent
  · rw [dateValue_fraction hreal hwhole, isDate, parseNoteTime_str,
      parse_fraction hreal hwhole] at hsent
    cases hsent

include hpy hiso in
/-- **What a read and a replace make of a value**, where the schema accepts what the file holds and
what is sent. -/
theorem rewritten_eq (hv : loadable v = true)
    (hdated : isDateKind env.schema key = true → Dated env key v) :
    rewritten env key v = writtenBack env key v := by
  unfold rewritten writtenBack
  congr 1
  cases hkind : isDateKind env.schema key with
  | true =>
    rw [if_pos rfl]
    have hdated := hdated hkind
    cases v with
    | null =>
      have hhanded : handed env key .null = .null := by
        rw [handed_of_date hkind]
        rfl
      rw [hhanded]
      exact kept_self _
    | str t =>
      rw [handed_of_date hkind]
    | date d => exact kept_date hpy hiso (by simpa [loadable] using hv)
    | timestamp d =>
      obtain ⟨hread, hsent⟩ : isDate env.lib.py (.timestamp d) = true ∧
          isDate env.lib.py (handed env key (.timestamp d)) = true := by
        simpa [Dated, str?, items?] using hdated
      exact kept_read_timestamp hpy hiso hkind (by simpa [loadable] using hv) hread hsent
    | seq flow items =>
      rw [handed_of_date hkind]
      exact kept_jsonable hpy hv
    | surrogateStr points =>
      rw [handed_of_date hkind, dateValue_surrogate (by simpa [loadable] using hv)]
      exact kept_jsonable hpy hv
    | datetime d => cases hv
    | _ => simp [Dated, isDate, parseNoteTime, str?, items?] at hdated
  | false =>
    rw [if_neg Bool.false_ne_true]
    split
    · next htags =>
      cases v with
      | seq flow items => rw [handed_of_tags hkind htags]
      | _ =>
        rw [handed_of_other hkind fun _ _ _ => by simp]
        exact kept_jsonable hpy hv
    · next htags =>
      rw [handed_of_other hkind fun htext => absurd htext htags]
      exact kept_jsonable hpy hv

end Values

end Coppermind.Filing
