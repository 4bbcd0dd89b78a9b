import Coppermind.Schema.NoteTime

/-!
# The frontmatter schema

Which keys a note carries, which of them play a role, and what a note's frontmatter fails on.
-/

namespace Coppermind.Schema

open Coppermind.Lib Coppermind.Lib.Text Coppermind.Frontmatter

inductive KeyKind where
  | string | int | date | bool | enum | list
deriving DecidableEq, Repr

/-- `KeyDefinition`. -/
structure KeyDefinition where
  name : Text
  kind : KeyKind := .string
  required : Bool := false
  default : Option Value := none
  vocabulary : List Text := []
  requiredWhen : Option Text := none
  requiredWhenValues : List Text := []

/-- The keys that play a role. -/
structure Roles where
  idKey : Text
  dateKey : Text
  typeKey : Text
  contextKey : Text
  accountKey : Text
  reviewedKey : Text
  sourcesKey : Text
  tagsKey : Text
  schemaVersionKey : Text
  /-- Roles a saved schema may predate. -/
  kindKey : Option Text := none
  artifactsKey : Option Text := none

/-- `FrontmatterSchema`. -/
structure FrontmatterSchema where
  keys : List KeyDefinition
  roles : Roles
  tagAliases : List (Text × Text) := []

namespace FrontmatterSchema

/-- `optional_role("kind_key")`. -/
def kindKey (schema : FrontmatterSchema) : Text := schema.roles.kindKey.getD "kind".toList

/-- `optional_role("artifacts_key")`. -/
def artifactsKey (schema : FrontmatterSchema) : Text :=
  schema.roles.artifactsKey.getD "artifacts".toList

end FrontmatterSchema

/-- `isinstance(value, str)`, and its code points. -/
def str? : Value → Option PyStr
  | .str s => some (PyStr.ofText s)
  | .surrogateStr points => some points
  | _ => none

def items? : Value → Option (List Value)
  | .seq _ items => some items
  | _ => none

def isWhite (c : Nat) : Bool := isSpace (Char.ofNat c)

/-- `text.strip()`. -/
def stripStr (s : PyStr) : PyStr := (s.dropWhile isWhite).rdropWhile isWhite

/-- `account_list`. -/
def accountList (value : Option Value) : List PyStr :=
  let items := match value with
    | some (.seq _ items) => items
    | some value => if (str? value).isSome then [value] else []
    | none => []
  items.foldl (fun names item =>
    match str? item with
    | some s =>
      let s := stripStr s
      if s ≠ [] ∧ s ∉ names then names ++ [s] else names
    | none => names) []

/-- `_requires`. -/
def requires (definition : KeyDefinition) (frontmatter : Entries) : Bool :=
  match definition.requiredWhen with
  | none | some [] => false
  | some key =>
    match frontmatter.get? key with
    | some (.str other) => other ∈ definition.requiredWhenValues
    | _ => false

/-- A value that is there: present and not `None`. -/
def present? (frontmatter : Entries) (key : Text) : Option Value :=
  match frontmatter.get? key with
  | none | some .null => none
  | some value => some value

/-- `out[key] = value`, in a mapping with text keys. -/
def setChange (out : List (Text × Value)) (key : Text) (value : Value) : List (Text × Value) :=
  if out.any (·.1 == key) then
    out.map fun entry => if entry.1 == key then (key, value) else entry
  else out ++ [(key, value)]

def problem (name : Text) (message : String) : Text × PyStr :=
  (name, PyStr.ofText name ++ PyStr.lit ": " ++ PyStr.lit message)

def commaJoin (values : List Text) : PyStr :=
  PyStr.ofText ((", ".toList).intercalate values)

section Checks

variable (py : Python)

/-- The text a `string` or `enum` check looks at: a datetime counts as its ISO text. -/
def checkedText (value : Value) : Option PyStr :=
  match value with
  | .datetime _ | .timestamp _ => some (py.isoformat value)
  | _ => str? value

/-- The text that was checked, as a value. -/
def shownText (value : Value) (text : PyStr) : Value :=
  match value with
  | .datetime _ | .timestamp _ => .str (text.map Char.ofNat)
  | _ => value

/-- `_check_value`. -/
def checkValue (definition : KeyDefinition) (value : Value) : List (Text × PyStr) :=
  let name := definition.name
  match definition.kind with
  | .bool => match value with
    | .bool _ => []
    | _ => [problem name "expected true or false"]
  | .int => match value with
    | .int _ => []
    | _ => [problem name "expected a whole number"]
  | .list => match value with
    | .seq _ _ => []
    | _ => [problem name "expected a list"]
  | .date =>
    if (parseNoteTime py (some value)).hasOffset then
      [problem name "must be a local date or date-and-time without a UTC offset"]
    else if isDate py value then []
    else [problem name "expected a date as YYYY-MM-DD or YYYY-MM-DDTHH:MM:SS"]
  | .string => if (checkedText py value).isSome then [] else [problem name "expected text"]
  | .enum =>
    match checkedText py value with
    | none => [problem name "expected text"]
    | some text =>
      if definition.vocabulary ≠ [] ∧ text ∉ definition.vocabulary.map PyStr.ofText then
        [(name, PyStr.ofText name ++ PyStr.lit ": " ++ py.repr (shownText value text) ++
          PyStr.lit " is not one of " ++ commaJoin definition.vocabulary)]
      else []

namespace FrontmatterSchema

variable (schema : FrontmatterSchema)

/-- `_date_satisfied_by_time`. -/
def dateSatisfiedByTime (frontmatter : Entries) : Bool :=
  (parseNoteTime py (frontmatter.get? "time".toList)).dateValue.isSome

/-- `required_keys`. -/
def requiredKeys (frontmatter : Entries) : List Text :=
  let hasTimeDate := dateSatisfiedByTime py frontmatter
  (schema.keys.filter fun definition =>
    (definition.required || requires definition frontmatter) &&
      !(definition.name == schema.roles.dateKey && hasTimeDate)).map (·.name)

/-- What an `account` value is checked for: a problem, no account at all, or nothing more. -/
inductive AccountCheck where
  | refused (problem : Text × PyStr)
  | blank
  | fine

def checkAccount (name : Text) (value : Value) : AccountCheck :=
  match value with
  | .seq _ items =>
    if items.any fun item => (str? item).isNone then .refused (problem name "expected text entries")
    else if accountList (some value) = [] then .blank else .fine
  | _ =>
    if (str? value).isNone then .refused (problem name "expected a list")
    else if accountList (some value) = [] then .blank else .fine

/-- The rest of the loop of `_problems` for a value that may be absent. -/
def keyProblems (hasTimeDate : Bool) (frontmatter : Entries) (definition : KeyDefinition)
    (value : Option Value) : List (Text × PyStr) :=
  let name := definition.name
  match value with
  | none =>
    if definition.required then
      if name = schema.roles.dateKey ∧ hasTimeDate then []
      else [problem name "required"]
    else if requires definition frontmatter then
      [(name, PyStr.ofText name ++ PyStr.lit ": required when " ++
        PyStr.ofText (definition.requiredWhen.getD []) ++ PyStr.lit " is one of " ++
        commaJoin definition.requiredWhenValues)]
    else []
  | some value => checkValue py definition value

/-- `kind_problem`. -/
def kindProblem (frontmatter : Entries) : List (Text × PyStr) :=
  match frontmatter.get? schema.kindKey with
  | some (.str kind) =>
    if kind = "artifact".toList then
      [problem schema.kindKey ("an artifact is never a note; store the file or link through " ++
        "POST /v1/artifacts and cite it from the note instead")]
    else []
  | _ => []

/-- `_problems`. -/
def problems (frontmatter : Entries) : List (Text × PyStr) :=
  let hasTimeDate := dateSatisfiedByTime py frontmatter
  (schema.keys.flatMap fun definition =>
    let value := present? frontmatter definition.name
    match value with
    | some given =>
      if definition.name = schema.roles.accountKey then
        match checkAccount definition.name given with
        | .refused problem => [problem]
        | .blank => schema.keyProblems py hasTimeDate frontmatter definition none
        | .fine => []
      else schema.keyProblems py hasTimeDate frontmatter definition value
    | none => schema.keyProblems py hasTimeDate frontmatter definition none) ++
  schema.kindProblem frontmatter

/-- `invalid_keys`: the names alone, in no particular order here. -/
def invalidKeys (frontmatter : Entries) : List Text :=
  ((schema.problems py frontmatter).map (·.1)).dedup

/-- One turn of the loop of `defaults`. -/
def addDefault (out : List (Text × Value)) (definition : KeyDefinition) : List (Text × Value) :=
  match definition.default with
  | none | some .null => out
  | some value => setChange out definition.name value

/-- `defaults`: of several definitions of one key the last that gives a default counts. -/
def defaults : List (Text × Value) :=
  schema.keys.foldl addDefault []

/-- `canonical_tag`. -/
def canonicalTag (tag : Value) : Value :=
  match tag with
  | .str s => (schema.tagAliases.find? (·.1 == s)).elim tag (.str ·.2)
  | _ => tag

/-- `normalize_tags`. -/
def normalizeTags (tags : List Value) : List Value :=
  tags.foldl (fun normalized tag =>
    let canonical := schema.canonicalTag tag
    if normalized.any canonical.pyEq then normalized else normalized ++ [canonical]) []

end FrontmatterSchema

end Checks

end Coppermind.Schema
