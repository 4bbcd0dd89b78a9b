import Mathlib.Data.Char
import Mathlib.Data.List.Lex
import Mathlib.Data.List.Sort
import Coppermind.Lib.Bounded
import Coppermind.Frontmatter.Write
import Coppermind.Naming
import Coppermind.Lib.Redirects
import Coppermind.Notes.Row

/-!
# The dossier ledger

`EntityLedger` and what the entity service does to it in memory: new dossiers, receipts,
corrections, and what notes contribute. A `Draft` is the ledger in memory and how many identifiers
were drawn.
-/

namespace Coppermind.Dossiers

open scoped Coppermind.Lib.Bounded
open Coppermind.Lib Coppermind.Lib.Text Coppermind.Frontmatter
open Coppermind.Notes (Instant FileBytes)

inductive FactState where
  | confirmed | withdrawn
deriving DecidableEq

inductive Origin where
  | metadata | prose | correction
deriving DecidableEq

inductive EntityKind where
  | person | company
deriving DecidableEq

/-- `Evidence`. -/
structure Evidence where
  noteId : Option Text := none
  noteHash : Text
  path : Text
  date : Text := []
  quote : Text := []
  extractionVersion : Text := "operator-v1".toList
deriving DecidableEq

/-- `Fact`. -/
structure Fact where
  id : Text
  predicate : Text
  value : Text
  target : Option Text := none
  state : FactState
  /-- `withdrawn_for == "evidence"`. -/
  withdrawnForEvidence : Bool := false
  evidence : Evidence
  origin : Origin
  supersedes : Option Text := none
  createdAt : Instant
deriving DecidableEq

/-- `EntityInput`. -/
structure EntityInput where
  kind : EntityKind
  name : Text
  aliases : List Text := []
  emails : List Text := []
deriving DecidableEq

/-- `Entity`. -/
structure Entity extends EntityInput where
  id : Text
  path : Text
  version : Nat := 1
  facts : List Fact := []
  retiredAt : Option Instant := none
  redirect : Option Text := none
  automatic : Bool := false
  generated : Option Text := none
  pending : Option Text := none
  personal : Bool := false
  problem : Option Text := none
deriving DecidableEq

/-- An entry of `receipts`: the keys it carries. -/
structure Receipt where
  entityId : Option Text := none
  action : Option Text := none
  version : Option Nat := none
  time : Option Instant := none
  target : Option Text := none
  source : Option Text := none
  preview : Option Text := none
  legacy : Option Text := none
  factId : Option Text := none
  noteHash : Option Text := none
  purge : Option Text := none
deriving DecidableEq

/-- `EntityLedger`. -/
structure Ledger where
  revision : Nat := 0
  entities : List Entity := []
  receipts : List Receipt := []
  suppressed : List Text := []
deriving DecidableEq

/-- The ledger in memory, and how many identifiers were drawn. -/
structure Draft where
  ledger : Ledger
  drawn : Nat

/-- What the service raises. -/
inductive Raised where
  | validationFailed (errors : List String)
  | notFound (id : Text)
  | versionConflict (current : Nat)
  | valueError
  | osError
  | metadataUnavailable
  /-- The loop along the redirects does not end. -/
  | hangs
deriving DecidableEq

/-- What an identity preview is the digest of. -/
structure Preview where
  subject : Text
  target : Option Text
  name : Option Text
  emails : Option (List Text)
  facts : List Text
  notes : List Text
  revision : Nat

/-- A contact correction; `raw` is the whole record. -/
structure ContactCorrection where
  name : Text
  sameAs : Text
  raw : Text

/-- `NoteRef`. -/
structure NoteRef where
  id : Text
  title : Text
  path : Text
  contentHash : Text
  frontmatter : Entries

/-- What the service asks of the language and its libraries. -/
structure Env where
  lower : Text → Text
  /-- `html.unescape`. -/
  unescape : Text → Text
  unicode : Naming.Unicode
  lib : RoundTrip
  /-- `str(value)`. -/
  str : Value → Text
  /-- `new_id`: the identifiers in the order they are drawn. -/
  newId : Nat → Text
  newId_injective : Function.Injective newId
  /-- `digest` of an address. -/
  digestText : Text → Text
  /-- `digest` of a list. -/
  digestList : List Text → Text
  digestPreview : Preview → Text
  digestCorrection : ContactCorrection → Text
  contentHash : FileBytes → Text

namespace Ledger

def find? (ledger : Ledger) (id : Text) : Option Entity := ledger.entities.find? (·.id = id)

/-- A change of the entity of an identifier. -/
def modify (ledger : Ledger) (id : Text) (f : Entity → Entity) : Ledger :=
  { ledger with entities := ledger.entities.map fun e => if e.id = id then f e else e }

/-- `ledger.entities[entity.id] = entity`. -/
def insert (ledger : Ledger) (entity : Entity) : Ledger :=
  if ledger.entities.any (·.id = entity.id) then ledger.modify entity.id fun _ => entity
  else { ledger with entities := ledger.entities ++ [entity] }

/-- Whom an entity redirects to. -/
def next (ledger : Ledger) (id : Text) : Option Text := (ledger.find? id).bind (·.redirect)

/-- `receipt`. -/
def receipt (ledger : Ledger) (id action : Text) (now : Instant) (details : Receipt) : Ledger :=
  let ledger := ledger.modify id fun e => { e with version := e.version + 1 }
  { ledger with
    receipts := ledger.receipts ++
      [{ details with
          entityId := some id
          action := some action
          version := (ledger.find? id).map (·.version)
          time := some now }] }

end Ledger

/-- `sorted(set(values))`. -/
def sortedSet (values : List Text) : List Text := values.dedup.insertionSort (· ≤ ·)

/-- `EntityInput.single_line`. -/
def singleLine (value : Text) : Option Text :=
  if value.notBlank ∧ ∀ c ∈ value, c ≠ '\n' ∧ c ≠ '\r' ∧ c.toNat ≠ 0 then some (strip value) else none

/-- `EntityInput.labels`. -/
def labels (values : List Text) : Option (List Text) :=
  if values.any (200 < ·.length) then none else (values.mapM singleLine).map sortedSet

/-- `EntityInput(…)`, none where it raises. -/
def entityInput? (kind : EntityKind) (name : Text) (aliases emails : List Text) :
    Option EntityInput :=
  if name.length < 1 ∨ 200 < name.length ∨ 100 < aliases.length ∨ 100 < emails.length then none
  else do
    let name ← singleLine name
    let aliases ← labels aliases
    let emails ← labels emails
    pure { kind, name, aliases, emails }

/-- `folder`. -/
def folderOf : EntityKind → Text
  | .person => "People".toList
  | .company => "Companies".toList

section Service

variable (env : Env)

/-- `email`. -/
def email (value : Text) : Option Text :=
  match Naming.rpartition? '@' (strip value) with
  | none => none
  | some (loc, domain) =>
    if loc = [] ∨ domain = [] ∨ value.any isSpace then none
    else if 200 < (strip value).length then none
    else if value.any fun c => c ∈ ['<', '>', '[', ']'] || c.toNat == 0 then none
    else some (loc ++ '@' :: env.lower domain)

/-- Some dossier that is no redirect has one of the addresses. -/
def taken (ledger : Ledger) (emails : List Text) : Bool :=
  ledger.entities.any fun e => e.redirect.isNone && emails.any (· ∈ e.emails)

/-- The path of a new page. -/
def pathOf (kind : EntityKind) (name identity : Text) : Text :=
  let stem := (Naming.sanitizeStem env.unicode name "Untitled".toList).take 90
  let stem := (Naming.dropToBytes 220 stem.reverse).reverse
  folderOf kind ++ '/' :: (stem ++ ' ' :: identity ++ ".md".toList)

/-- `make`, which draws the identifier of the new dossier. -/
def make (draft : Draft) (request : EntityInput) (automatic : Bool) :
    Except Raised (Draft × Text) :=
  match request.emails.mapM (email env) with
  | none => .error (.validationFailed ["emails must be exact email addresses"])
  | some addresses =>
    let emails := sortedSet addresses
    if taken draft.ledger emails then
      .error (.validationFailed ["email already belongs to a dossier; use an identity preview"])
    else
      let identity := env.newId draft.drawn
      let entity : Entity :=
        { request with
          emails := emails
          id := identity
          path := pathOf env request.kind request.name identity
          automatic := automatic }
      .ok (⟨draft.ledger.insert entity, draft.drawn + 1⟩, identity)

/-- The dossier that an address names: the last one that is no redirect and has it. -/
def byEmail (ledger : Ledger) (address : Text) : Option Text :=
  ((ledger.entities.filter fun e => e.redirect.isNone && address ∈ e.emails).getLast?).map (·.id)

/-- `path.removesuffix(".md")`. -/
def withoutMd (path : Text) : Text :=
  if ".md".toList.isSuffixOf path then path.take (path.length - 3) else path

/-- The dossier that a page path names. -/
def byPath (ledger : Ledger) (path : Text) : Option Text :=
  ((ledger.entities.filter fun e => withoutMd e.path = path).getLast?).map (·.id)

/-- The text between the brackets of a link, without its alias and extension. -/
def linkTarget (value : Text) : Option Text :=
  if "[[".toList.isPrefixOf value ∧ "]]".toList.isSuffixOf value then
    some (withoutMd (((value.drop 2).take (value.length - 4)).takeWhile (· ≠ '|')))
  else none

/-- `entity.redirect` followed to its end; as many steps as there are dossiers are enough unless the
redirects go round. -/
def resolve (ledger : Ledger) (id : Text) : Except Raised (Option Text) :=
  match ledger.find? id with
  | none => .ok none
  | some _ =>
    match Redirects.follow ledger.next ledger.entities.length id with
    | some found => .ok ((ledger.find? found).map (·.id))
    | none => .error .hangs

end Service

end Coppermind.Dossiers
