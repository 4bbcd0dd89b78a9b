import Coppermind.Frontmatter.Value
import Coppermind.Frontmatter.Split

/-!
# The writers of a frontmatter block

`patch`, `fillMissing` and `replaceValueInPlace` over the round trip loader and
dumper of the YAML library, which `RoundTrip` stands for.  A loaded mapping
remembers the block it was loaded from (`origin`): comments, quoting and style
travel with it into the dump.
-/

namespace Coppermind.Frontmatter

open Coppermind.Lib Coppermind.Lib.Text

/-- A mapping: a plain `dict`, or a `CommentedMap` loaded from the block `origin`. -/
structure Mapping where
  origin : Option Text
  entries : Entries

namespace Mapping

def empty : Mapping := ⟨none, []⟩

def isCommented (m : Mapping) : Bool := m.origin.isSome

def pop (m : Mapping) (key : Text) : Mapping := { m with entries := m.entries.pop key }

def set (m : Mapping) (key : Text) (value : Value) : Mapping :=
  { m with entries := m.entries.set key value }

end Mapping

/-- What a block loads to. -/
inductive Loaded where
  | none
  | mapping (m : Mapping)
  | notMapping

/-- What the YAML library raises: a `YAMLError` of some class with its problem
mark, the `IndexError` of the indentation guess, or anything else. -/
inductive YamlFailure where
  | yamlError (className message : String) (mark : Option (Nat × Nat))
  | indexError
  | other (className : String)

/-- The indentation a dump is written at. -/
structure Indent where
  mapping : Int
  sequence : Int
  offset : Int

/-- `yaml.indent(mapping=2, sequence=4, offset=2)`. -/
def Indent.house : Indent := ⟨2, 4, 2⟩

/-- The YAML library, read and written in round trip mode. -/
structure RoundTrip where
  load : Text → Except YamlFailure Loaded
  /-- `load_yaml_guess_indent`: the loaded block, its indentation and its sequence offset. -/
  loadGuessIndent : Text → Except YamlFailure (Loaded × Option Int × Option Int)
  /-- `mapping.lc.key(key)` of the mapping a block loads to: line and column. -/
  keyPosition : Text → Value → Nat × Nat
  dump : Indent → Mapping → Except YamlFailure Text

/-- What a writer raises. -/
inductive Raised where
  | frontmatter (e : FrontmatterError)
  | python (className : String)

/-- `_category`: the class name without its `Error`, in snake case. -/
def category (className : String) : String :=
  let words := if className.endsWith "Error" then (className.dropEnd 5).toString else className
  String.ofList <| words.toList.zipIdx.flatMap fun (c, i) =>
    if c.isUpper then (if i = 0 then [c.toLower] else ['_', c.toLower]) else [c]

/-- `_unparseable`, and anything that is no `YAMLError` as it was raised. -/
def raisedOf : YamlFailure → Raised
  | .yamlError className message mark =>
    .frontmatter ⟨message, category className, mark.map (·.1), mark.map (·.2)⟩
  | .indexError => .python "IndexError"
  | .other className => .python className

def mappingOf : Loaded → Except Raised Mapping
  | .none => .ok .empty
  | .mapping m => .ok m
  | .notMapping =>
    .error (.frontmatter { message := "frontmatter is not a mapping", category := "not_a_mapping" })

/-- `_ITEM_WITH_NO_VALUE.sub(r"\1 x", block)`: every list item left blank gets a value. -/
def lendItemValue (block : Text) : Text :=
  [lf].intercalate <| (block.splitOn lf).map fun line =>
    let bare := line.rdropWhile fun c => c = ' ' || c = '\t'
    if bare.getLast? = some '-' ∧ (bare.dropLast.all fun c => c = ' ' || c = '\t') then
      bare ++ [' ', 'x']
    else line

section Library

variable (lib : RoundTrip)

def parseBlock (block : Text) : Except Raised Mapping :=
  if block.notBlank then
    match lib.load block with
    | .ok loaded => mappingOf loaded
    | .error e => .error (raisedOf e)
  else .ok .empty

/-- `_indent_of`: no guess where the guess raises a `YAMLError` or an `IndexError`. -/
def indentOf (block : Text) : Except Raised (Option Int × Option Int) :=
  match lib.loadGuessIndent block with
  | .ok (_, indent, offset) => .ok (indent, offset)
  | .error (.other className) => .error (.python className)
  | .error _ => .ok (none, none)

def loadGuessingIndent (block : Text) : Except Raised (Loaded × Option Int × Option Int) :=
  match lib.loadGuessIndent block with
  | .ok result => .ok result
  | .error .indexError => do
    let loaded ← (lib.load block).mapError raisedOf
    let (indent, offset) ← indentOf lib (lendItemValue block)
    return (loaded, indent, offset)
  | .error e => .error (raisedOf e)

/-- `_indent_like`, from the house style. -/
def indentLike (indent offset : Option Int) : Indent :=
  match indent with
  | none => .house
  | some indent =>
    if indent < 2 then .house
    else match offset with
      | none => { Indent.house with mapping := indent }
      | some offset =>
        if 0 ≤ offset ∧ offset ≤ indent - 2 then { Indent.house with sequence := indent, offset }
        else .house

/-- `_yaml_mapping`: a plain `dict` has its dates written as dates. -/
def yamlMapping (m : Mapping) : Mapping :=
  if m.isCommented then m
  else
    { m with entries := m.entries.map fun entry =>
        match entry.1 with
        | .str key => (entry.1, yamlScalar key entry.2)
        | _ => entry }

/-- `_dump`. -/
def dump (indent : Indent) (m : Mapping) : Except Raised Text :=
  if m.entries = [] then .ok []
  else (lib.dump indent (yamlMapping m)).mapError raisedOf

/-- `_compose`: the block between its delimiters, and the body; the body alone
when there is nothing to write in the block. -/
def composeAt (indent : Indent) (m : Mapping) (body : Text) : Except Raised Text := do
  let block ← dump lib indent m
  if block = [] then return body
  let block := if block.getLast? = some lf then block else block ++ [lf]
  return delimiter ++ [lf] ++ (block ++ (delimiter ++ [lf] ++ body))

def compose (m : Mapping) (body : Text) : Except Raised Text :=
  composeAt lib .house m body

abbrev Changes := List (Text × Value)

/-- The mapping of a block and the indentation it is written back at. -/
def loadBlock (block : Text) : Except Raised (Mapping × Indent) :=
  if block.notBlank then do
    let (loaded, indent, offset) ← loadGuessingIndent lib block
    return (← mappingOf loaded, indentLike indent offset)
  else .ok (.empty, .house)

/-- The loops of `_patched`: every key of `unset` removed, every change set. -/
def applyChanges (m : Mapping) (changes : Changes) (unset : List Text) : Mapping :=
  changes.foldl (fun m change => m.set change.1 (yamlScalar change.1 change.2))
    (unset.foldl Mapping.pop m)

def patched (block body : Text) (changes : Changes) (unset : List Text) : Except Raised Text := do
  let (m, indent) ← loadBlock lib block
  composeAt lib indent (applyChanges m changes unset) body

def patch (text : Text) (changes : Changes) (unset : List Text) : Except Raised Text := do
  let s ← (split text).mapError .frontmatter
  patched lib s.block s.body changes unset

/-- What `_readable_block` reports; no `position` stands for its negative pair:
where the block starts and where, past that, its closing line starts. -/
structure Readable where
  block : Text
  body : Text
  position : Option (Nat × Nat)

def bareReturn : FrontmatterError :=
  { message := "frontmatter delimiter ends in a bare carriage return"
    category := "unsupported_line_endings" }

/-- `_DELIMITER_ENDINGS`. -/
def delimiterEndings : List Text := [[lf], [cr, lf]]

/-- `text.startswith(_DELIMITER_ENDINGS)`. -/
def startsWithEnding (t : Text) : Bool :=
  delimiterEndings.any fun ending => ending.isPrefixOf t

/-- The characters of `text` from `len(DELIMITER)` to `opening_length`. -/
def openingEnding (text : Text) (openingLength : Nat) : Text :=
  (text.drop delimiter.length).take (openingLength - delimiter.length)

def readableBlock (text : Text) : Except FrontmatterError Readable := do
  let s ← split text
  match s.openingLength with
  | none => return ⟨s.block, s.body, none⟩
  | some openingLength =>
    match findClosingDelimiter (text.drop openingLength) with
    | none => throw neverClosed
    | some closingOffset =>
      let afterClosing := text.drop (openingLength + closingOffset + delimiter.length)
      if openingEnding text openingLength ∉ delimiterEndings ∨
          (afterClosing ≠ [] ∧ startsWithEnding afterClosing = false) then
        throw bareReturn
      return ⟨s.block, s.body, some (openingLength, closingOffset)⟩

/-- `_appended`: the absent keys, dumped and spliced in before the closing line. -/
def appended (text : Text) (changes : Changes) (found : Readable) : Except Raised Text :=
  match found.position with
  | none => compose lib ⟨none, changes.map fun change => (.str change.1, change.2)⟩ found.body
  | some (openingLength, closingOffset) => do
    let (m, indent) ← loadBlock lib found.block
    let additions := changes.filter fun change => !m.entries.has change.1
    if additions = [] then return text
    let fragment ← dump lib indent ⟨none, additions.map fun change => (.str change.1, change.2)⟩
    let fragment := fragment.replaceLf (openingEnding text openingLength)
    let insertion := openingLength + closingOffset
    return text.take insertion ++ fragment ++ text.drop insertion

/-- `any(key in _parse_block(block) for key in changes)`. -/
def carriesAny (block : Text) (changes : Changes) : Except Raised Bool :=
  if changes = [] then .ok false
  else do
    let m ← parseBlock lib block
    return changes.any fun change => m.entries.has change.1

def fillMissing (text : Text) (changes : Changes) : Except Raised Text := do
  let found ← (readableBlock text).mapError .frontmatter
  if found.position.isSome && (← carriesAny lib found.block changes) then
    patched lib found.block found.body changes []
  else appended lib text changes found

/-- `_COMMENT.search`: a `#` that opens the text or follows white space. -/
def hasComment : Text → Bool
  | [] => false
  | c :: t => c = '#' || follows c t
where
  follows : Char → Text → Bool
    | _, [] => false
    | previous, c :: t => (isSpace previous && c = '#') || follows c t

/-- The lines of a value less the blank and comment lines that end them. -/
def trimSpan : List Text → List Text
  | [] => []
  | first :: rest =>
    first :: rest.rdropWhile fun line =>
      !line.notBlank || (lstripSpace line).head? = some '#'

/-- Where the lines of the next key start, past `line`. -/
def nextKeyLine (positions : List (Nat × Nat)) (line count : Nat) : Nat :=
  ((positions.map (·.1)).filter (line < ·)).min?.getD count

/-- `value` in flow style when the list it replaces was. -/
def likeCurrent (current value : Value) : Value :=
  match current, value with
  | .seq true _, .seq _ items => .seq true items
  | _, _ => value

/-- The reread mapping is the loaded one with `value` at `key` and nothing else changed. -/
def onlyChanged (reread m : Mapping) (key : Text) (value : Value) : Bool :=
  pyEqItems (reread.entries.map (·.1)) (m.entries.map (·.1)) &&
    (Value.map reread.entries).pyEq (.map (m.entries.set key value))

def replaceValueInPlace (text key : Text) (value : Value) : Except Raised (Option Text) := do
  let found ← (readableBlock text).mapError .frontmatter
  match found.position with
  | none => return none
  | some (openingLength, closingOffset) =>
    let block := found.block
    if !block.notBlank then return none
    let (m, indent) ← loadBlock lib block
    match m.entries.get? key with
    | none => return none
    | some current =>
      if !m.isCommented then return none
      let (line, column) := lib.keyPosition block (.str key)
      if column ≠ 0 then return none
      let lines := splitLines block
      let fin := nextKeyLine (m.entries.map fun entry => lib.keyPosition block entry.1) line
        lines.length
      match trimSpan ((lines.take fin).drop line) with
      | [] => throw (.python "IndexError")
      | first :: others =>
        let span := first :: others
        if span.any hasComment then return none
        let value := likeCurrent current value
        let ending := if [cr, lf].isSuffixOf first then [cr, lf] else [lf]
        let fragment ← dump lib indent ⟨none, [(.str key, value)]⟩
        let fragment := fragment.replaceLf ending
        let replacedBlock :=
          (lines.take line).flatten ++ fragment ++ (lines.drop (line + span.length)).flatten
        match parseBlock lib replacedBlock with
        | .error (.frontmatter _) => return none
        | .error e => throw e
        | .ok reread =>
          if onlyChanged reread m key value then
            return some (text.take openingLength ++ replacedBlock ++
              text.drop (openingLength + closingOffset))
          else return none

end Library

end Coppermind.Frontmatter
