import Coppermind.Dossiers.Changes

/-!
# The page of a dossier

`render`, what it writes below the delimiter, and `observe`, which reads a device's edits back: a
fact line is found by its marker, and other lines a person added are kept as a correction.
-/

namespace Coppermind.Dossiers

open Coppermind.Lib Coppermind.Lib.Text Coppermind.Frontmatter
open Coppermind.Notes (Instant FileBytes)

/-- `DELIMITER`. -/
def pageDelimiter : Text := "<!-- coppermind:dossier -->\n".toList

/-- A text cut around the first occurrence of another. -/
def cutAt (part : Text) : Text → Option (Text × Text)
  | [] => none
  | c :: t =>
    if part.isPrefixOf (c :: t) then some ([], (c :: t).drop part.length)
    else (cutAt part t).map fun (before, after) => (c :: before, after)

/-- `html.escape(…, quote=False)` of a character. -/
def escapeChar (c : Char) : Text :=
  if c = '&' then "&amp;".toList
  else if c = '<' then "&lt;".toList
  else if c = '>' then "&gt;".toList
  else [c]

/-- `label`. -/
def label (value : Text) : Text :=
  (value.map fun c => if c = '\n' ∨ c = '\r' then ' ' else c).flatMap escapeChar

/-- `"\n".join(lines)`. -/
def joinLines (lines : List Text) : Text := [lf].intercalate lines

/-- `text.split("\n")`. -/
def lfLines (text : Text) : List Text := text.splitOn lf

/-- A fact line: its text and its marker's identifier, as `FACT_LINE` reads one line. -/
def factLine? (line : Text) : Option (Text × Text) :=
  if "- ".toList.isPrefixOf line ∧ " -->".toList.isSuffixOf line then
    let inner := (line.drop 2).take (line.length - 6)
    let identity := inner.rtakeWhile fun c =>
      c.isAlphanum || c = '_' || c = '-'
    let before := inner.rdropWhile fun c => c.isAlphanum || c = '_' || c = '-'
    if identity ≠ [] ∧ " <!-- fact:".toList.isSuffixOf before ∧ 6 ≤ line.length then
      some (before.take (before.length - 11), identity)
    else none
  else none

/-- `FACT_LINE.findall`. -/
def factLines (block : Text) : List (Text × Text) := (lfLines block).filterMap factLine?

/-- The text of the last fact line with a marker. -/
def markedText? (block : Text) (identity : Text) : Option Text :=
  ((factLines block).reverse.find? (·.2 = identity)).map (·.1)

section Rendering

/-- `active_facts`. -/
def activeFacts (entity : Entity) (ledger : Ledger) : List Fact :=
  entity.facts.filter fun fact =>
    fact.state = .confirmed && fact.target.all fun target =>
      (ledger.find? target).any (·.retiredAt.isNone)

/-- The line of a fact. -/
def factLine (fact : Fact) : Text :=
  "- ".toList ++ label fact.predicate ++ ": ".toList ++ label fact.value ++ " <!-- fact:".toList ++
    fact.id ++ " -->".toList

/-- `[[path]]`. -/
def link (path : Text) : Text := "[[".toList ++ withoutMd path ++ "]]".toList

/-- The lines of a fact: its own, its target, other values and its evidence. -/
def factBlock (ledger : Ledger) (members : List Fact) (search : Bool) (fact : Fact) : List Text :=
  let values := (members.filter (·.predicate = fact.predicate)).map (·.value)
  [factLine fact] ++
    (match fact.target.bind ledger.find? with
      | some target => ["  - ".toList ++ link target.path]
      | none => []) ++
    (if 1 < values.dedup.length ∧
        fact.predicate ∉ ["interest".toList, "mentioned".toList, "note".toList] then
      ["  - Other recorded values are shown with their evidence.".toList]
    else []) ++
    (if search then []
    else
      ["  - Evidence: ".toList ++ link fact.evidence.path ++ ' ' :: label fact.evidence.date] ++
        if fact.evidence.quote = [] then [] else ["  - ".toList ++ label fact.evidence.quote])

/-- A heading and the facts under it. -/
def group (ledger : Ledger) (search : Bool) (heading : Text) (members : List Fact) : List Text :=
  ["## ".toList ++ heading, []] ++ members.flatMap (factBlock ledger members search) ++ [[]]

/-- `render`. -/
def render (entity : Entity) (ledger : Ledger) (search : Bool) : Text :=
  if entity.retiredAt.isSome then
    "\nRetired dossier. Restore through the entities API to use it again.\n".toList
  else
    match entity.redirect with
    | some target =>
      match ledger.find? target with
      | some target => "\nSee ".toList ++ link target.path ++ ".\n".toList
      | none => "\nRetired identity.\n".toList
    | none =>
      let facts := activeFacts entity ledger
      let interest := "interest".toList
      let listed (heading : String) (values : List Text) : List Text :=
        if values = [] then []
        else [heading.toList ++ (", ".toList).intercalate (values.map label), []]
      joinLines <|
        [[], "## ".toList ++ label entity.name, []] ++ listed "Aliases: " entity.aliases ++
          listed "Email: " entity.emails ++
          group ledger search "Facts".toList
            (facts.filter fun f => f.target.isNone && f.predicate ≠ interest) ++
          group ledger search "Relationships".toList (facts.filter (·.target.isSome)) ++
          group ledger search "Interests".toList
            (facts.filter fun f => f.target.isNone && f.predicate = interest) ++
          if search then []
          else
            ["## Supporting notes".toList, []] ++
              (sortedSet ((facts.filter (·.evidence.noteId.isSome)).map (·.evidence.path))).map
                (fun path => "- ".toList ++ link path) ++
              [[], "Edit a fact above to correct it; delete its line to withdraw it.".toList, []]

end Rendering

section Heads

variable (lib : RoundTrip)

/-- `fm.parse`. -/
def parse (text : Text) : Except Frontmatter.Raised (Mapping × Text) := do
  let parts ← (Frontmatter.split text).mapError .frontmatter
  let mapping ← parseBlock lib parts.block
  pure (mapping, parts.body)

def kindName : EntityKind → Text
  | .person => "person".toList
  | .company => "company".toList

/-- `# {label(name)}`, a blank line and the body. -/
def titleOf (entity : Entity) : Text := "# ".toList ++ label entity.name ++ [lf, lf]

/-- What `TITLE` matches at the start of a body. -/
def title? (body : Text) : Option Text :=
  if "# ".toList.isPrefixOf body then
    let line := body.takeWhile (· ≠ lf)
    match body.drop line.length with
    | a :: b :: _ => some (line ++ (if b = lf then [a, b] else [a]))
    | [a] => some (line ++ [a])
    | [] => none
  else none

/-- `GENERATED_KEYS`. -/
def generatedKeys : List Text := ["entity_id".toList, "type".toList, "aliases".toList]

/-- `owner_wrote`. -/
def ownerWrote (head : Text) : Except Frontmatter.Raised Bool := do
  let (fields, body) ← parse lib head
  let rest := match title? body with
    | some title => body.drop title.length
    | none => body
  pure ((fields.entries.any fun entry => match entry.1 with
    | .str key => key ∉ generatedKeys
    | _ => true) || notBlank rest)

def listValue (values : List Text) : Value := .seq false (values.map .str)

/-- `header`. -/
def header (entity : Entity) : Except Frontmatter.Raised Text := do
  let text ← Frontmatter.compose lib
    ⟨none, [(.str "entity_id".toList, .str entity.id), (.str "type".toList, .str (kindName entity.kind)),
      (.str "aliases".toList, listValue entity.aliases)]⟩ (titleOf entity)
  pure (text ++ pageDelimiter)

/-- The head already says what the ledger says. -/
def agrees (entity : Entity) (fields : Mapping) (body : Text) : Bool :=
  (fields.entries.get? "aliases".toList).any (·.pyEq (listValue entity.aliases)) &&
    (fields.entries.get? "type".toList).any (·.pyEq (.str (kindName entity.kind))) &&
    (title? body).all fun title => strip title = strip (titleOf entity)

/-- `regenerate`. -/
def regenerate (entity : Entity) (head : Text) : Except Frontmatter.Raised Text := do
  let (fields, body) ← parse lib head
  if agrees entity fields body then pure head
  else
    let patched ← Frontmatter.patch lib head
      [("type".toList, .str (kindName entity.kind)), ("aliases".toList, listValue entity.aliases)] []
    let parts ← (Frontmatter.split patched).mapError .frontmatter
    let front := patched.take (patched.length - parts.body.length)
    match title? body with
    | some title => pure (front ++ titleOf entity ++ parts.body.drop title.length)
    | none => pure (front ++ parts.body)

/-- `raw.decode().split(DELIMITER)[0]`. -/
def headOf (text : Text) : Text :=
  match cutAt pageDelimiter text with
  | some (head, _) => head
  | none => text

/-- `prefix`. -/
def pagePrefix (entity : Entity) : Option FileBytes → Except Frontmatter.Raised Text
  | none => header lib entity
  | some (.other _) => .error (.python "UnicodeDecodeError")
  | some (.utf8 text) => do
    let head ← regenerate lib entity (headOf text)
    pure (head ++ pageDelimiter)

/-- A page with its one delimiter: what stands above and below. -/
def pageParts? (text : Text) : Option (Text × Text) :=
  match cutAt pageDelimiter text with
  | none => none
  | some (head, block) =>
    if (cutAt pageDelimiter block).isSome then none else some (head, block)

end Heads

section Observing

variable (env : Env)

/-- One fact of a dossier against an edited block; a fact that was not on the page as generated, or
is not confirmed, is left alone. -/
def observeFact (entityId : Text) (generated block : Text) (raw : FileBytes) (now : Instant)
    (draft : Draft) (index : Nat) : Draft :=
  match (draft.ledger.find? entityId).bind fun e => e.facts[index]? with
  | none => draft
  | some fact =>
    match markedText? generated fact.id with
    | none => draft
    | some old =>
      if fact.state ≠ .confirmed then draft
      else
        match markedText? block fact.id with
        | none => { draft with ledger := draft.ledger.modify entityId (withdrawAt index) }
        | some line =>
          if line = old then draft
          else
            let text := env.unescape line
            let (predicate, value) := match cutAt ": ".toList text with
              | some (predicate, value) => (predicate, value)
              | none => ("note".toList, text)
            { ledger := draft.ledger.modify entityId fun e =>
                correction env e predicate value raw (some index) fact.target draft.drawn now
              drawn := draft.drawn + 1 }

/-- The lines of a text without their endings. -/
def bareLines (t : Text) : List Text := Notes.bareLines t

/-- The lines a person added below the delimiter. -/
def additions (generated block : Text) : List Text :=
  (bareLines block).filter fun line =>
    line.notBlank && line ∉ bareLines generated && (factLine? line).isNone

/-- An edited block, against the one that was generated. -/
def observeBlock (entityId : Text) (generated block : Text) (raw : FileBytes) (now : Instant)
    (draft : Draft) : Draft :=
  let count := ((draft.ledger.find? entityId).map (·.facts.length)).getD 0
  let draft := (List.range count).foldl (observeFact env entityId generated block raw now) draft
  let added := additions generated block
  let draft :=
    if added = [] then draft
    else
      { ledger := draft.ledger.modify entityId fun e =>
          correction env e "note".toList (joinLines added) raw none none draft.drawn now
        drawn := draft.drawn + 1 }
  let ledger := draft.ledger.modify entityId fun e =>
    { e with generated := some block, pending := none }
  { draft with
    ledger := ledger.receipt entityId "page correction".toList now
      { noteHash := some (env.contentHash raw) } }

/-- `observe`, of a page that is there. -/
def observePage (entity : Entity) (raw : FileBytes) (now : Instant) (draft : Draft) :
    Except Raised Draft :=
  match raw with
  | .other _ => .error .valueError
  | .utf8 text =>
    if text.any (·.toNat = 0) then .error .valueError
    else
      match parse env.lib text with
      | .error _ => .error .valueError
      | .ok (fields, _) =>
        match fields.entries.get? "entity_id".toList, pageParts? text with
        | some (.str id), some (head, block) =>
          if id ≠ entity.id then .error .valueError
          else
            match ownerWrote env.lib head with
            | .error _ => .error .valueError
            | .ok personal =>
              let settled := entity.pending = some block
              let generated := if settled then some block else entity.generated
              let ledger := draft.ledger.modify entity.id fun e =>
                { e with
                  personal := personal
                  generated := generated
                  pending := if settled then none else e.pending }
              match generated with
              | none => .ok { draft with ledger }
              | some old =>
                if block = old then .ok { draft with ledger }
                else .ok (observeBlock env entity.id old block raw now { draft with ledger })
        | _, _ => .error .valueError

/-- `observe`, of a page that is gone. -/
def observeGone (entity : Entity) (now : Instant) (draft : Draft) : Draft :=
  if entity.generated.isSome && entity.retiredAt.isNone then
    let ledger := draft.ledger.modify entity.id fun e => { e with retiredAt := some now }
    { draft with ledger := ledger.receipt entity.id "page deleted".toList now {} }
  else draft

end Observing

end Coppermind.Dossiers
