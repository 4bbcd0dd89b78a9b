import Coppermind.Notes.Row
import Coppermind.Artifacts.Store

/-!
# Giving a device-created file an identity

`planAdoption` is the part of `adopt_note` that is decided from the file's bytes before a
connection is asked for: the text to write and the row to insert.  `adoptionInsert` is the row.
-/

namespace Coppermind.Notes

open Coppermind.Lib Coppermind.Lib.Text Coppermind.Frontmatter Coppermind.Schema
open Coppermind.Artifacts (isValidId)

/-- What the store takes from libraries. -/
structure Libraries where
  yaml : RoundTrip
  py : Python
  /-- `content_hash`. -/
  hash : FileBytes → PyStr

/-- `fm.parse`. -/
def parse (yaml : RoundTrip) (text : Text) : Except Frontmatter.Raised (Entries × Text) := do
  let s ← (split text).mapError .frontmatter
  let m ← parseBlock yaml s.block
  return (m.entries, s.body)

/-- `adopt_note` leaves a file alone and says why, or fails with an exception of a class. -/
inductive Refusal where
  | invalid (cause : String)
  | raised (className : String)

/-- A `FrontmatterError` refuses the file by its category. -/
def refusalOf : Frontmatter.Raised → Refusal
  | .frontmatter e => .invalid e.category
  | .python className => .raised className

/-- `strftime` with a number of two digits. -/
def twoDigits (n : Nat) : String :=
  if n < 10 then "0" ++ toString n else toString n

/-- `strftime("%Y")`. -/
def yearDigits (pads : Bool) (year : Nat) : String :=
  let digits := toString year
  if pads then String.ofList (List.replicate (4 - digits.length) '0') ++ digits else digits

/-- `format_note_time`. -/
def formatNoteTime (pads : Bool) (d : DateTime) : Text :=
  (yearDigits pads d.date.year ++ "-" ++ twoDigits d.date.month ++ "-" ++ twoDigits d.date.day ++ "T" ++
    twoDigits d.hour ++ ":" ++ twoDigits d.minute ++ ":" ++ twoDigits d.second).toList

/-- `changes.get(key)`. -/
def change? (changes : Changes) (key : Text) : Option Value :=
  (changes.find? (·.1 == key)).map (·.2)

/-- `setdefault`. -/
def setDefault (changes : Changes) (key : Text) (value : Value) : Changes :=
  if changes.any (·.1 == key) then changes else changes ++ [(key, value)]

mutual

/-- `_unstorable`: a number that is not finite, or a string no encoding takes. -/
def unstorable : Value → Bool
  | .float (.finite _) => false
  | .float _ => true
  | .surrogateStr points => !PyStr.encodable points
  | .seq _ items => unstorableItems items
  | .map entries => unstorableEntries entries
  | _ => false
termination_by structural value => value

def unstorableItems : List Value → Bool
  | [] => false
  | item :: items => unstorable item || unstorableItems items
termination_by structural items => items

def unstorableEntries : List (Value × Value) → Bool
  | [] => false
  | entry :: rest => unstorableEntry entry || unstorableEntries rest
termination_by structural entries => entries

def unstorableEntry : Value × Value → Bool
  | (key, value) => unstorable key || unstorable value
termination_by structural entry => entry

end

section Plan

variable (lib : Libraries) (schema : FrontmatterSchema) (localNow : DateTime)

/-- `_default_note_time`. -/
def defaultNoteTime (frontmatter : Entries) : Value :=
  match asDate lib.py (frontmatter.get? schema.roles.dateKey) with
  | some day =>
    .str (formatNoteTime lib.py.padsYears { localNow with date := day, microsecond := 0 })
  | none => .str (formatNoteTime lib.py.padsYears localNow)

/-- The keys one turn of the loop of `_adoption_changes` fills. -/
def fillRequired (available : Changes) (required : List Text) :
    List KeyDefinition → Changes × Entries × Bool → Changes × Entries × Bool
  | [], filled => filled
  | definition :: rest, (changes, effective, added) =>
    match change? available definition.name with
    | none => fillRequired available required rest (changes, effective, added)
    | some value =>
      if definition.name ∈ required ∧ (present? effective definition.name).isNone then
        fillRequired available required rest
          (setChange changes definition.name value, effective.set definition.name value, true)
      else fillRequired available required rest (changes, effective, added)

/-- The loop of `_adoption_changes`; every turn but the last fills a key of the schema. -/
def fillLoop (available : Changes) : Nat → Changes → Entries → Changes
  | 0, changes, _ => changes
  | fuel + 1, changes, effective =>
    let (changes, effective, added) :=
      fillRequired available (schema.requiredKeys lib.py effective) schema.keys
        (changes, effective, false)
    if added then fillLoop available fuel changes effective else changes

/-- `_adoption_changes`. -/
def adoptionChanges (frontmatter : Entries) (noteId : Text) : Changes :=
  let roles := schema.roles
  let available := setChange schema.defaults roles.idKey (.str noteId)
  let available := setDefault available roles.schemaVersionKey (.int 1)
  let available := setDefault available roles.dateKey (.date localNow.date)
  let changes : Changes :=
    if (present? frontmatter roles.idKey).isNone then [(roles.idKey, .str noteId)] else []
  let changes :=
    if (present? frontmatter roles.dateKey).isNone &&
        (noteDate lib.py roles.dateKey frontmatter).isNone then
      setChange changes roles.dateKey
        (if (parseNoteTime lib.py (frontmatter.get? "time".toList)).present then
          .date localNow.date
        else defaultNoteTime lib schema localNow frontmatter)
    else changes
  let effective := changes.foldl (fun effective change => effective.set change.1 change.2) frontmatter
  fillLoop lib schema available (schema.keys.length + 1) changes effective

/-- `_with_canonical_tags`. -/
def withCanonicalTags (text : Text) : Except Frontmatter.Raised Text := do
  let (frontmatter, _) ← parse lib.yaml text
  match frontmatter.get? schema.roles.tagsKey with
  | some (.seq _ tags) =>
    let normalized := schema.normalizeTags tags
    if pyEqItems normalized tags then return text
    match ← replaceValueInPlace lib.yaml text schema.roles.tagsKey (.seq false normalized) with
    | some [] | none => return text
    | some replaced => return replaced
  | _ => return text

/-- A file the schema accepts with an identity: what to write and what to mirror. -/
structure Adoption where
  noteId : Text
  text : Text
  frontmatter : Entries
  body : Text
  mirrored : Entries

/-- The identifier, as the mirror keys its row. -/
def Adoption.id (adoption : Adoption) : NoteId := PyStr.ofText adoption.noteId

def sortedNames (names : List Text) : Text :=
  (", ".toList).intercalate (names.insertionSort fun s t => strLe (PyStr.ofText s) (PyStr.ofText t))

/-- What `adopt_note` decides from a file's bytes; `newId` is the identifier it would draw. -/
def planAdoption (newId : Text) (data : FileBytes) : Except Refusal Adoption :=
  match data with
  | .other _ => .error (.invalid "the file is not valid UTF-8")
  | .utf8 text => do
    let (frontmatter, _) ← (parse lib.yaml text).mapError refusalOf
    match frontmatter.get? schema.roles.sourcesKey with
    | some (.seq _ (_ :: _)) =>
      throw (.invalid "the store generated this file, so it is not a note to adopt")
    | _ => pure ()
    let noteId ← match present? frontmatter schema.roles.idKey with
      | none => pure newId
      | some (.str carried) =>
        if isValidId carried then pure carried
        else throw (.invalid "the id it carries is not a valid identifier")
      | some _ => throw (.invalid "the id it carries is not a valid identifier")
    let changes := adoptionChanges lib schema localNow frontmatter noteId
    let filled ← (fillMissing lib.yaml text changes).mapError refusalOf
    let adopted ← (withCanonicalTags lib schema filled).mapError refusalOf
    let (frontmatter, body) ← (parse lib.yaml adopted).mapError refusalOf
    let invalid := schema.invalidKeys lib.py frontmatter
    if invalid ≠ [] then
      throw (.invalid ("keys the schema refused: " ++ String.ofList (sortedNames invalid)))
    let mirrored := jsonableEntries lib.py frontmatter []
    if unstorableEntries mirrored then
      throw (.invalid "a value it carries is one the mirror cannot store")
    return { noteId, text := adopted, frontmatter, body, mirrored }

/-- The values of the row `adopt_note` inserts, for a file with this name and mtime. -/
def adoptionValues (adoption : Adoption) (path : RelPath) (fileName : PyStr) (mtime : Instant) :
    Values :=
  let data := FileBytes.utf8 adoption.text
  [⟨.path, path⟩, ⟨.title, some (titleOf adoption.body fileName)⟩, ⟨.contentHash, lib.hash data⟩,
    ⟨.sizeBytes, data.length⟩, ⟨.mtime, some mtime⟩, ⟨.frontmatter, adoption.mirrored⟩] ++
    mirrorColumns lib.py schema adoption.frontmatter ++ [⟨.state, .ok⟩]

end Plan

/-- The defaults of the columns of a new row. -/
def emptyCells : (c : Column) → c.Cell
  | .path => []
  | .title => none
  | .contentHash => []
  | .sizeBytes => 0
  | .mtime => none
  | .frontmatter => []
  | .schemaVersion => 1
  | .type => none
  | .context => none
  | .account => []
  | .date => none
  | .reviewed => false
  | .filed => false
  | .sourceIds => []
  | .artifactIds => []
  | .tags => []
  | .state => .ok
  | .stateReason => none

/-- `session.add(Note(…))`. -/
def newRow (id : NoteId) (values : Values) (firstSeenAt updatedAt : Instant) : Row :=
  { id, cells := values.foldl Values.assign emptyCells, firstSeenAt, updatedAt }

section Plain

def plainScalar (text : Text) : Value :=
  if text = [] then .null
  else if text = "true".toList then .bool true
  else .str text

def plainText : Value → Text
  | .str s => s
  | .bool b => if b then "true".toList else "false".toList
  | _ => []

/-- A line `key: value`. -/
def plainEntry (line : Text) : Option (Value × Value) :=
  match line.dropWhile (· ≠ ':') with
  | _ :: value => some (.str (line.takeWhile (· ≠ ':')), plainScalar (strip value))
  | [] => none

def plainLine (entry : Value × Value) : Text :=
  plainText entry.1 ++ [':', ' '] ++ plainText entry.2 ++ [lf]

/-- A YAML library on the blocks it is simplest on: lines `key: value`, each value a plain
string, `true` or nothing. -/
def plainYaml : RoundTrip where
  load := fun block => .ok (.mapping ⟨some block, (splitLines block).filterMap plainEntry⟩)
  loadGuessIndent := fun block =>
    .ok (.mapping ⟨some block, (splitLines block).filterMap plainEntry⟩, none, none)
  keyPosition := fun _ _ => (0, 0)
  dump := fun _ m => .ok (m.entries.flatMap plainLine)

/-- Libraries for notes with plain blocks and no dates; a text is its own hash. -/
def plainLibraries : Libraries where
  yaml := plainYaml
  py :=
    { str := fun _ => [], repr := fun _ => [], isoformat := fun _ => [], casefold := id
      dateFromIso := fun _ => none, datetimeFromIso := fun _ => none
      timeFromIso := fun _ => none }
  hash := fun data =>
    match data with
    | .utf8 text => PyStr.ofText text
    | .other _ => []

/-- The built-in roles, and no key a note needs. -/
def plainSchema : FrontmatterSchema where
  keys := []
  roles :=
    { idKey := "id".toList, dateKey := "date".toList, typeKey := "type".toList
      contextKey := "context".toList, accountKey := "account".toList
      reviewedKey := "reviewed".toList, sourcesKey := "sources".toList, tagsKey := "tags".toList
      schemaVersionKey := "schema_version".toList }

end Plain

end Coppermind.Notes
