import Coppermind.Schema.Keys
import Coppermind.Frontmatter.Write
import Mathlib.Logic.Function.Basic
import Mathlib.Data.List.Sort

/-!
# The mirror row of a note

A row of the `notes` table, column by column, and what a note's frontmatter puts into it.
`Values` is a partial row, the argument of an `UPDATE`; `Column.admits` is what the type of
each column takes.
-/

namespace Coppermind.Notes

open Coppermind.Lib Coppermind.Lib.Text Coppermind.Frontmatter Coppermind.Schema

abbrev NoteId := PyStr

/-- A path relative to the notes root, with `/` between its components. -/
abbrev RelPath := PyStr

/-- A moment, in microseconds. -/
abbrev Instant := Int

/-- The bytes of a file: what decodes as UTF-8, and what does not. -/
inductive FileBytes where
  | utf8 (text : Text)
  | other (raw : List UInt8)
deriving DecidableEq

/-- `len(data)`. -/
def FileBytes.length : FileBytes → Nat
  | .utf8 text => (text.map Char.utf8Size).sum
  | .other raw => raw.length

/-- The columns a pass or a write assigns, `updated_at` apart. -/
inductive Column where
  | path | title | contentHash | sizeBytes | mtime | frontmatter | schemaVersion | type
  | context | account | date | reviewed | filed | sourceIds | artifactIds | tags | state
  | stateReason
deriving DecidableEq, Repr

/-- `ok`, `unparsed`, `missing` or `deleted`. -/
inductive NoteState where
  | ok | unparsed | missing | deleted
deriving DecidableEq, Repr

/-- The values of a column. -/
@[reducible] def Column.Cell : Column → Type
  | .path => RelPath
  | .title => Option PyStr
  | .contentHash => PyStr
  | .sizeBytes => Nat
  | .mtime => Option Instant
  | .frontmatter => Entries
  | .schemaVersion => Int
  | .type => Option PyStr
  | .context => Option PyStr
  | .account => List PyStr
  | .date => Option Date
  | .reviewed => Bool
  | .filed => Bool
  | .sourceIds => List PyStr
  | .artifactIds => List PyStr
  | .tags => List PyStr
  | .state => NoteState
  | .stateReason => Option PyStr

/-- `==` on the values of a column. -/
def Column.same : (c : Column) → c.Cell → c.Cell → Bool
  | .path, v, w => v == w
  | .title, v, w => v == w
  | .contentHash, v, w => v == w
  | .sizeBytes, v, w => v == w
  | .mtime, v, w => v == w
  | .frontmatter, v, w => (Value.map v).pyEq (.map w)
  | .schemaVersion, v, w => v == w
  | .type, v, w => v == w
  | .context, v, w => v == w
  | .account, v, w => v == w
  | .date, v, w => v == w
  | .reviewed, v, w => v == w
  | .filed, v, w => v == w
  | .sourceIds, v, w => v == w
  | .artifactIds, v, w => v == w
  | .tags, v, w => v == w
  | .state, v, w => v == w
  | .stateReason, v, w => v == w

/-- A row of the `notes` table. -/
structure Row where
  id : NoteId
  cells : (c : Column) → c.Cell
  firstSeenAt : Instant
  updatedAt : Instant

namespace Row

def path (row : Row) : RelPath := row.cells .path

def contentHash (row : Row) : PyStr := row.cells .contentHash

def sizeBytes (row : Row) : Nat := row.cells .sizeBytes

def mtime (row : Row) : Option Instant := row.cells .mtime

def state (row : Row) : NoteState := row.cells .state

def stateReason (row : Row) : Option PyStr := row.cells .stateReason

end Row

/-- The values an `UPDATE` assigns, or an `INSERT` gives. -/
abbrev Values := List ((c : Column) × c.Cell)

namespace Values

/-- The values a row would not already read back. -/
def changing (row : Row) (values : Values) : Values :=
  values.filter fun v => !v.1.same (row.cells v.1) v.2

def assign (cells : (c : Column) → c.Cell) (v : (c : Column) × c.Cell) : (c : Column) → c.Cell :=
  Function.update cells v.1 v.2

/-- `UPDATE notes SET …, updated_at = now`. -/
def apply (values : Values) (now : Instant) (row : Row) : Row :=
  { row with cells := values.foldl assign row.cells, updatedAt := now }

def mentions (values : Values) (c : Column) : Bool := values.any (·.1 == c)

end Values

/-- `_storable`. -/
def storable (s : PyStr) : PyStr := s.dropNul

/-- The value a string is. -/
def strValue (s : PyStr) : Value :=
  if s.encodable then .str (s.map Char.ofNat) else .surrogateStr s

/-- `mapping[key] = value` for any string key. -/
def setStr (entries : Entries) (key : PyStr) (value : Value) : Entries :=
  if entries.any (fun entry => str? entry.1 == some key) then
    entries.map fun entry => if str? entry.1 == some key then (entry.1, value) else entry
  else entries ++ [(strValue key, value)]

section Projection

variable (py : Python)

/-- `str(value)`. -/
def strOf : Value → PyStr
  | .str s => PyStr.ofText s
  | .surrogateStr points => points
  | .other text => PyStr.ofText text
  | value => py.str value

mutual

/-- `_jsonable`. -/
def jsonable : Value → Value
  | .map entries => .map (jsonableEntries entries [])
  | .seq flow items => .seq flow (jsonableItems items)
  | .date d => strValue (py.isoformat (.date d))
  | .datetime d => strValue (py.isoformat (.datetime d))
  | .timestamp d => strValue (py.isoformat (.timestamp d))
  | .str s => strValue (storable (PyStr.ofText s))
  | .surrogateStr points => strValue (storable points)
  | .null => .null
  | .bool b => .bool b
  | .int i => .int i
  | .float f => .float f
  | .other text => strValue (storable (PyStr.ofText text))
termination_by structural value => value

def jsonableItems : List Value → List Value
  | [] => []
  | item :: items => jsonable item :: jsonableItems items
termination_by structural items => items

/-- The comprehension over a mapping: a repeated key keeps its place and takes the last value. -/
def jsonableEntries : List (Value × Value) → Entries → Entries
  | [], done => done
  | entry :: rest, done => jsonableEntries rest (jsonableEntry entry done)
termination_by structural entries => entries

def jsonableEntry : Value × Value → Entries → Entries
  | (key, value), done => setStr done (storable (strOf py key)) (jsonable value)
termination_by structural entry => entry

end

/-- `_text`. -/
def textOf (value : Option Value) : Option PyStr := (value.bind str?).map storable

/-- `_as_int`. -/
def asInt : Value → Int
  | .int i => i
  | _ => 1

/-- The lexicographic order of strings. -/
def strLe : PyStr → PyStr → Bool
  | [], _ => true
  | _ :: _, [] => false
  | c :: s, d :: t => c < d || (c == d && strLe s t)

/-- `sorted({item for item in value if isinstance(item, str)}) if isinstance(value, list) else []`. -/
def idList (value : Option Value) : List PyStr :=
  (((value.bind items?).getD []).filterMap str?).dedup.insertionSort fun s t => strLe s t

/-- `value is True`. -/
def isTrue : Option Value → Bool
  | some (.bool b) => b
  | _ => false

/-- `_mirror_columns`. -/
def mirrorColumns (schema : FrontmatterSchema) (frontmatter : Entries) : Values :=
  let roles := schema.roles
  let reviewed := isTrue (frontmatter.get? roles.reviewedKey)
  [⟨.sourceIds, idList (frontmatter.get? roles.sourcesKey)⟩,
    ⟨.artifactIds, idList (frontmatter.get? schema.artifactsKey)⟩,
    ⟨.schemaVersion, asInt ((frontmatter.get? roles.schemaVersionKey).getD (.int 1))⟩,
    ⟨.type, textOf (frontmatter.get? roles.typeKey)⟩,
    ⟨.context, textOf (frontmatter.get? roles.contextKey)⟩,
    ⟨.account, (accountList (frontmatter.get? roles.accountKey)).map storable⟩,
    ⟨.date, noteDate py roles.dateKey frontmatter⟩,
    ⟨.reviewed, reviewed⟩] ++
  (if reviewed then [] else [⟨.filed, false⟩]) ++
  [⟨.tags, (((frontmatter.get? roles.tagsKey).bind items?).getD []).map
    fun tag => storable (strOf py tag)⟩]

end Projection

/-- The lines of a text without what ends them. -/
def bareLines (t : Text) : List Text :=
  (splitLines t).map fun line =>
    if [cr, lf].isSuffixOf line then line.dropLast.dropLast
    else if line.getLast?.any isLineBreak then line.dropLast
    else line

/-- `_title_of`: the first heading of the body, else the stem of the file's name. -/
def titleOf (body : Text) (fileName : PyStr) : PyStr :=
  match (bareLines body).find? fun line => ['#', ' '].isPrefixOf line with
  | some line => storable (PyStr.ofText (strip (line.drop 2)))
  | none => storable (PyStr.stem fileName)

/-- A `text` column takes it: no NUL and no lone surrogate. -/
def textAdmits (s : PyStr) : Bool := s.encodable && s.all (· ≠ 0)

mutual

/-- A `jsonb` column takes it: finite numbers, and strings a `text` column takes. -/
def jsonAdmits : Value → Bool
  | .null => true
  | .bool _ => true
  | .int _ => true
  | .float (.finite _) => true
  | .float _ => false
  | .str s => textAdmits (PyStr.ofText s)
  | .surrogateStr points => textAdmits points
  | .seq _ items => itemsAdmit items
  | .map entries => entriesAdmit entries
  | .date _ => false
  | .datetime _ => false
  | .timestamp _ => false
  | .other _ => false
termination_by structural value => value

def itemsAdmit : List Value → Bool
  | [] => true
  | item :: items => jsonAdmits item && itemsAdmit items
termination_by structural items => items

def entriesAdmit : List (Value × Value) → Bool
  | [] => true
  | entry :: rest => entryAdmits entry && entriesAdmit rest
termination_by structural entries => entries

def entryAdmits : Value × Value → Bool
  | (key, value) => (str? key).any textAdmits && jsonAdmits value
termination_by structural entry => entry

end

/-- What the type of a column takes. -/
def Column.admits : (c : Column) → c.Cell → Bool
  | .path, v => textAdmits v
  | .title, v => v.all textAdmits
  | .contentHash, v => textAdmits v
  | .sizeBytes, v => v < 2 ^ 63
  | .mtime, _ => true
  | .frontmatter, v => entriesAdmit v
  | .schemaVersion, v => -(2 ^ 31) ≤ v && v < 2 ^ 31
  | .type, v => v.all textAdmits
  | .context, v => v.all textAdmits
  | .account, v => v.all textAdmits
  | .date, _ => true
  | .reviewed, _ => true
  | .filed, _ => true
  | .sourceIds, v => v.all textAdmits
  | .artifactIds, v => v.all textAdmits
  | .tags, v => v.all textAdmits
  | .state, _ => true
  | .stateReason, v => v.all textAdmits

def Values.admitted (values : Values) : Bool := values.all fun v => v.1.admits v.2

section Cells

/-- No column is mirrored twice, and none that a file's stat and bytes give directly. -/
theorem mirrorColumns_columns (py : Python) (schema : FrontmatterSchema) (frontmatter : Entries) :
    (mirrorColumns py schema frontmatter).map (·.1) =
        [.sourceIds, .artifactIds, .schemaVersion, .type, .context, .account, .date, .reviewed,
          .filed, .tags] ∨
      (mirrorColumns py schema frontmatter).map (·.1) =
        [.sourceIds, .artifactIds, .schemaVersion, .type, .context, .account, .date, .reviewed,
          .tags] := by
  unfold mirrorColumns
  by_cases h : isTrue (frontmatter.get? schema.roles.reviewedKey) = true
  · exact Or.inr (by simp [h])
  · exact Or.inl (by simp [h])

theorem assign_same (cells : (c : Column) → c.Cell) (c : Column) (v : c.Cell) :
    Values.assign cells ⟨c, v⟩ c = v := by
  simp [Values.assign]

theorem assign_of_ne (cells : (c : Column) → c.Cell) {v : (c : Column) × c.Cell} {c : Column}
    (h : c ≠ v.1) : Values.assign cells v c = cells c := by
  simp [Values.assign, h]

/-- An update leaves the columns it does not mention alone. -/
theorem apply_cells_of_not_mentioned {values : Values} {c : Column}
    (h : values.mentions c = false) (now : Instant) (row : Row) :
    (values.apply now row).cells c = row.cells c := by
  show values.foldl Values.assign row.cells c = row.cells c
  generalize row.cells = cells
  induction values generalizing cells with
  | nil => rfl
  | cons v values ih =>
    simp only [Values.mentions, List.any_cons, Bool.or_eq_false_iff, beq_eq_false_iff_ne] at h
    rw [List.foldl_cons, ih h.2, assign_of_ne _ (Ne.symm h.1)]

theorem mentions_eq (values : Values) (c : Column) :
    values.mentions c = decide (c ∈ values.map (·.1)) := by
  induction values with
  | nil => rfl
  | cons v values ih =>
    simp only [Values.mentions, List.any_cons, List.map_cons, List.mem_cons] at ih ⊢
    rw [ih, Bool.decide_or, beq_eq_decide, decide_eq_decide.2 (eq_comm (a := v.1) (b := c))]

/-- An update that mentions each column once gives every column it mentions its value. -/
theorem apply_cells_of_mem {values : Values} {c : Column} {v : c.Cell}
    (hnodup : (values.map (·.1)).Nodup) (hmem : ⟨c, v⟩ ∈ values) (now : Instant) (row : Row) :
    (values.apply now row).cells c = v := by
  show values.foldl Values.assign row.cells c = v
  generalize row.cells = cells
  induction values generalizing cells with
  | nil => cases hmem
  | cons w values ih =>
    rw [List.map_cons, List.nodup_cons] at hnodup
    rw [List.foldl_cons]
    rcases List.mem_cons.1 hmem with rfl | hmem
    · have hrest : Values.mentions values c = false := by
        rw [mentions_eq]
        exact decide_eq_false hnodup.1
      have := apply_cells_of_not_mentioned hrest now
        { row with cells := Values.assign cells ⟨c, v⟩ }
      exact this.trans (assign_same cells c v)
    · exact ih hnodup.2 hmem _

/-- The values a row does not already have leave it with every value, up to what reads back as
the same. -/
theorem changing_apply_cells {values : Values} {c : Column} {v : c.Cell}
    (hnodup : (values.map (·.1)).Nodup) (hmem : ⟨c, v⟩ ∈ values) (now : Instant) (row : Row) :
    ((Values.changing row values).apply now row).cells c = v ∨
      (c.same (row.cells c) v = true ∧
        ((Values.changing row values).apply now row).cells c = row.cells c) := by
  have hsub : ((Values.changing row values).map (·.1)).Nodup :=
    hnodup.sublist (List.filter_sublist.map _)
  by_cases hsame : c.same (row.cells c) v = true
  · refine Or.inr ⟨hsame, apply_cells_of_not_mentioned ?_ now row⟩
    rw [mentions_eq]
    refine decide_eq_false fun hc => ?_
    obtain ⟨w, hw, hwc⟩ := List.mem_map.1 hc
    simp only [Values.changing, List.mem_filter, Bool.not_eq_true'] at hw
    obtain rfl : (⟨c, v⟩ : (c : Column) × c.Cell) = w :=
      List.inj_on_of_nodup_map hnodup hmem hw.1 hwc.symm
    rw [hw.2] at hsame
    cases hsame
  · refine Or.inl (apply_cells_of_mem hsub ?_ now row)
    rw [Values.changing, List.mem_filter]
    exact ⟨hmem, by simpa using hsame⟩

@[simp] theorem apply_id (values : Values) (now : Instant) (row : Row) :
    (values.apply now row).id = row.id := rfl

@[simp] theorem apply_updatedAt (values : Values) (now : Instant) (row : Row) :
    (values.apply now row).updatedAt = now := rfl

end Cells

section Strings

theorem strValue_cases (points : PyStr) :
    (∃ t, strValue points = .str t) ∨ strValue points = .surrogateStr points := by
  unfold strValue
  split
  · exact Or.inl ⟨_, rfl⟩
  · exact Or.inr rfl

theorem strValue_ne_bool (points : PyStr) (b : Bool) : strValue points ≠ .bool b := by
  unfold strValue
  split <;> simp

/-- A string of code points is its value's. -/
theorem strOf_strValue {py : Python} {points : PyStr} (h : ∀ c ∈ points, c < 0x110000) :
    strOf py (strValue points) = points := by
  unfold strValue
  split
  · next hencodable =>
    change (points.map Char.ofNat).map Char.toNat = points
    rw [List.map_map]
    conv_rhs => rw [← List.map_id points]
    apply List.map_congr_left
    intro c hc
    have hsurrogate := List.all_eq_true.1 hencodable c hc
    simp only [PyStr.isSurrogate, Bool.not_eq_true', Bool.and_eq_false_iff,
      decide_eq_false_iff_not] at hsurrogate
    have hlt := h c hc
    have hvalid : c.isValidChar := by
      unfold Nat.isValidChar
      omega
    have hof : Char.ofNat c = Char.ofNatAux c hvalid := dif_pos hvalid
    rw [Function.comp_apply, hof]
    rfl
  · rfl

end Strings

end Coppermind.Notes
