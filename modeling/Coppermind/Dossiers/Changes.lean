import Coppermind.Dossiers.Ledger

/-!
# What changes the ledger

The operations of the entity service on the ledger in memory: what reviewed notes contribute, the
migration of contact corrections, the changes a caller asks for, merges and splits among them, and
the scrubbing of a retention purge.
-/

namespace Coppermind.Dossiers

open Coppermind.Lib Coppermind.Lib.Text Coppermind.Frontmatter
open Coppermind.Notes (Instant FileBytes)

/-- Where a pass over the values of a note stands: the draft, the address index and the dossiers
mentioned. -/
structure Reading where
  draft : Draft
  index : Text → Option Text
  mentions : List Text

section Contributions

variable (env : Env)

/-- A value that names a dossier, through the redirects, unless it is retired. -/
def mention (reading : Reading) (id : Text) : Except Raised Reading :=
  match resolve reading.draft.ledger id with
  | .error e => .error e
  | .ok none => .ok reading
  | .ok (some id) =>
    match reading.draft.ledger.find? id with
    | some entity =>
      if entity.retiredAt.isSome || id ∈ reading.mentions then .ok reading
      else .ok { reading with mentions := reading.mentions ++ [id] }
    | none => .ok reading

/-- A value of a list in a note's frontmatter: a link to a page, or an address. -/
def readValue (fields : List Text) (paths : Text → Option Text) (key : Text) (reading : Reading)
    (value : Text) : Except Raised Reading :=
  match linkTarget value with
  | some path =>
    match paths path with
    | some id => mention reading id
    | none => .ok reading
  | none =>
    if key ∈ fields then
      match email env value with
      | none => .ok reading
      | some address =>
        match reading.index address with
        | some id => mention reading id
        | none =>
          if env.digestText address ∈ reading.draft.ledger.suppressed then .ok reading
          else
            match entityInput? .person address [] [address] with
            | none => .error .valueError
            | some request =>
              match make env reading.draft request true with
              | .error e => .error e
              | .ok (draft, id) =>
                mention
                  { reading with draft, index := Function.update reading.index address (some id) } id
    else .ok reading

/-- The values of one key. -/
def readKey (fields : List Text) (paths : Text → Option Text) (reading : Reading) :
    Value × Value → Except Raised Reading
  | (.str key, .seq _ items) =>
    items.foldlM (fun reading item =>
      match item with
      | .str value => readValue env fields paths key reading value
      | _ => .ok reading) reading
  | _ => .ok reading

/-- The fact that a note mentions a dossier. -/
def mentioned (note : NoteRef) (entityId : Text) (now : Instant) : Fact where
  id := env.digestList [note.id, note.contentHash, entityId, "metadata-v1".toList]
  predicate := "mentioned".toList
  value := note.title
  state := .confirmed
  origin := .metadata
  createdAt := now
  evidence :=
    { noteId := some note.id
      noteHash := note.contentHash
      path := note.path
      date := ((note.frontmatter.get? "date".toList).map env.str).getD []
      extractionVersion := "metadata-v1".toList }

/-- A fact is new to the dossier. -/
def addFact (fact : Fact) (entity : Entity) : Entity :=
  if entity.facts.any (·.id = fact.id) then entity
  else { entity with facts := entity.facts ++ [fact], version := entity.version + 1 }

/-- What a note contributes. -/
def contributeNote (fields : List Text) (paths : Text → Option Text) (now : Instant)
    (state : Draft × (Text → Option Text)) (note : NoteRef) :
    Except Raised (Draft × (Text → Option Text)) :=
  match note.frontmatter.foldlM (readKey env fields paths) ⟨state.1, state.2, []⟩ with
  | .error e => .error e
  | .ok reading =>
    let ledger := reading.mentions.foldl (fun ledger id =>
      ledger.modify id (addFact (mentioned env note id now))) reading.draft.ledger
    .ok ({ reading.draft with ledger }, reading.index)

/-- A fact against the notes that are there, and whether the dossier's version counts up. -/
def reviewFact (notes : List NoteRef) (fact : Fact) : Fact × Bool :=
  match fact.evidence.noteId with
  | none => (fact, false)
  | some noteId =>
    match notes.find? fun note => note.id = noteId && note.contentHash = fact.evidence.noteHash with
    | none =>
      if fact.state = .confirmed then
        ({ fact with state := .withdrawn, withdrawnForEvidence := true }, true)
      else (fact, false)
    | some note =>
      if fact.state = .withdrawn then
        if fact.withdrawnForEvidence then
          ({ fact with
              state := .confirmed
              withdrawnForEvidence := false
              evidence := { fact.evidence with path := note.path } }, true)
        else (fact, false)
      else ({ fact with evidence := { fact.evidence with path := note.path } }, false)

def reviewFacts (notes : List NoteRef) (entity : Entity) : Entity :=
  let reviewed := entity.facts.map (reviewFact notes)
  { entity with
    facts := reviewed.map (·.1)
    version := entity.version + (reviewed.filter (·.2)).length }

/-- `contribute`. -/
def contribute (fields : List Text) (notes : List NoteRef) (now : Instant) (draft : Draft) :
    Except Raised Draft :=
  let paths := byPath draft.ledger
  match notes.foldlM (contributeNote env fields paths now) (draft, byEmail draft.ledger) with
  | .error e => .error e
  | .ok (draft, _) =>
    let ledger := draft.ledger
    .ok { draft with
          ledger := { ledger with entities := ledger.entities.map (reviewFacts notes) } }

end Contributions

/-- `entity.redirect = target`. -/
def Entity.redirectTo (target : Text) (entity : Entity) : Entity :=
  { entity with redirect := some target }

section Migration

variable (env : Env)

/-- The dossiers the addresses name. -/
def matched (index : Text → Option Text) (addresses : List Text) : List Text :=
  (addresses.filterMap index).dedup

/-- `"contact:" + contact_id + ":" + digest(correction)`. -/
def correctionKey (contactId : Text) (correction : ContactCorrection) : Text :=
  "contact:".toList ++ contactId ++ ':' :: env.digestCorrection correction

/-- The dossier of one contact redirects to that of another. -/
def mergeInto (entityId targetId : Text) (ledger : Ledger) : Ledger :=
  match ledger.find? entityId with
  | none => ledger
  | some entity =>
    let ledger := ledger.modify targetId fun target =>
      { target with
        emails := sortedSet (target.emails ++ entity.emails)
        aliases := sortedSet (target.aliases ++ entity.aliases ++ [entity.name])
        facts := target.facts ++ entity.facts
        version := target.version + 1 }
    ledger.modify entityId (·.redirectTo targetId)

/-- The dossier a correction is about and the one it is the same as; both from the index. -/
def correctionPair (index : Text → Option Text) (addresses : Text → List Text) (contactId : Text)
    (correction : ContactCorrection) : Option (Text × Option Text) :=
  match matched index (addresses contactId) with
  | [entityId] =>
    if correction.sameAs = [] then some (entityId, none)
    else
      match matched index (addresses correction.sameAs) with
      | [targetId] => some (entityId, if targetId = entityId then none else some targetId)
      | _ => some (entityId, none)
  | _ => none

/-- One contact correction. -/
def migrateCorrection (migrated : List Text) (index : Text → Option Text)
    (addresses : Text → List Text) (now : Instant) (ledger : Ledger)
    (entry : Text × ContactCorrection) : Ledger :=
  let (contactId, correction) := entry
  let key := correctionKey env contactId correction
  if key ∈ migrated then ledger
  else
    match correctionPair index addresses contactId correction with
    | none => ledger
    | some (entityId, target) =>
      let ledger :=
        if correction.name = [] then ledger
        else ledger.modify entityId fun entity => { entity with name := correction.name }
      let ledger :=
        match target with
        | some targetId => mergeInto entityId targetId ledger
        | none => ledger
      ledger.receipt entityId "legacy contact correction".toList now { legacy := some key }

/-- The receipts of the old email view. -/
def migrateLegacy (migrated : List Text) (index : Text → Option Text) (ledger : Ledger)
    (entry : Text × Option Text) : Ledger :=
  if entry.1 ∈ migrated then ledger
  else
    match entry.2.bind index with
    | none => ledger
    | some entityId =>
      { ledger with
        receipts := ledger.receipts ++ [{ legacy := some entry.1, entityId := some entityId }] }

/-- `migrate`, whose address index is the one before it. -/
def migrate (legacy : List (Text × Option Text)) (corrections : List (Text × ContactCorrection))
    (addresses : Text → List Text) (now : Instant) (ledger : Ledger) : Ledger :=
  let migrated := ledger.receipts.filterMap (·.legacy)
  let index := byEmail ledger
  corrections.foldl (migrateCorrection env migrated index addresses now)
    (legacy.foldl (migrateLegacy migrated index) ledger)

end Migration

/-- The `action` of an `EntityChange`. -/
inductive Action where
  | rename | aliases | claim | correct | withdraw | restore | retire
  | mergePreview | merge | splitPreview | split
deriving DecidableEq

def Action.name : Action → Text
  | .rename => "rename".toList
  | .aliases => "aliases".toList
  | .claim => "claim".toList
  | .correct => "correct".toList
  | .withdraw => "withdraw".toList
  | .restore => "restore".toList
  | .retire => "retire".toList
  | .mergePreview => "merge-preview".toList
  | .merge => "merge".toList
  | .splitPreview => "split-preview".toList
  | .split => "split".toList

/-- `EntityChange`; `raw` is its JSON text. -/
structure EntityChange where
  version : Nat
  action : Action
  name : Option Text := none
  aliases : Option (List Text) := none
  emails : Option (List Text) := none
  factId : Option Text := none
  predicate : Text := "note".toList
  value : Text := []
  target : Option Text := none
  noteId : Option Text := none
  quote : Text := []
  factIds : List Text := []
  preview : Option Text := none
  raw : Text := []

/-- What `get_note` answers about a note. -/
structure NoteDocument where
  id : Text
  path : Text
  contentHash : Text
  reviewed : Bool
  body : Text
  date : Text

section Requests

variable (env : Env)

/-- The fact is withdrawn, and not for want of evidence. -/
def withdrawn (fact : Fact) : Fact := { fact with state := .withdrawn, withdrawnForEvidence := false }

/-- The fact at an index is withdrawn. -/
def withdrawAt (index : Nat) (entity : Entity) : Entity :=
  { entity with facts := entity.facts.modify index withdrawn }

/-- `correction`: a new fact, in place of the one at an index where there is one. -/
def correction (entity : Entity) (predicate value : Text) (raw : FileBytes)
    (previous : Option Nat) (target : Option Text) (drawn : Nat) (now : Instant) : Entity :=
  let fact : Fact :=
    { id := env.newId drawn
      predicate := predicate
      value := value
      target := target
      state := .confirmed
      evidence := { noteHash := env.contentHash raw, path := entity.path, quote := value }
      origin := .correction
      supersedes := previous.bind fun i => (entity.facts[i]?).map (·.id)
      createdAt := now }
  let entity := match previous with
    | some index => withdrawAt index entity
    | none => entity
  { entity with facts := entity.facts ++ [fact] }

/-- The target of a change is no active dossier. -/
def inactiveTarget (ledger : Ledger) (target : Option Text) : Bool :=
  match target with
  | none | some [] => false
  | some id =>
    match ledger.find? id with
    | none => true
    | some entity => entity.retiredAt.isSome || entity.redirect.isSome

/-- New aliases and addresses. -/
def changeAliases (ledger : Ledger) (entity : Entity) (change : EntityChange) :
    Except Raised Ledger :=
  match entityInput? entity.kind entity.name (change.aliases.getD entity.aliases)
      (change.emails.getD entity.emails) with
  | none => .error .valueError
  | some candidate =>
    let refused := .error (.validationFailed ["email is invalid or already belongs to another dossier"])
    match candidate.emails.mapM (email env) with
    | none => refused
    | some addresses =>
      if ledger.entities.any fun e =>
          e.id ≠ entity.id && e.redirect.isNone && addresses.any (· ∈ e.emails) then refused
      else
        .ok (ledger.modify entity.id fun e =>
          { e with aliases := candidate.aliases, emails := addresses })

/-- A quoted claim. -/
def changeClaim (draft : Draft) (entity : Entity) (change : EntityChange)
    (getNote : Text → Except Raised NoteDocument) (now : Instant) : Except Raised Draft :=
  match change.noteId with
  | none => .error (.validationFailed ["claims need a reviewed note and an exact prose quotation"])
  | some noteId =>
    if noteId = [] ∨ ¬change.quote.notBlank then
      .error (.validationFailed ["claims need a reviewed note and an exact prose quotation"])
    else
      match getNote noteId with
      | .error e => .error e
      | .ok note =>
        if ¬note.reviewed ∨ ¬change.quote <:+: note.body then
          .error (.validationFailed ["claim evidence must quote the current reviewed note"])
        else
          let fact : Fact :=
            { id := env.newId draft.drawn
              predicate := change.predicate
              value := change.value
              target := change.target
              state := .confirmed
              origin := .prose
              createdAt := now
              evidence :=
                { noteId := some note.id
                  path := note.path
                  noteHash := note.contentHash
                  quote := change.quote
                  date := note.date
                  extractionVersion := "agent-v1".toList } }
          let ledger := draft.ledger.modify entity.id fun e => { e with facts := e.facts ++ [fact] }
          .ok ⟨ledger, draft.drawn + 1⟩

/-- The actions on one dossier, its receipt apart. `pageExists` answers for a restored page. -/
def changeOne (draft : Draft) (entity : Entity) (change : EntityChange)
    (getNote : Text → Except Raised NoteDocument) (pageExists : Bool) (now : Instant) :
    Except Raised Draft :=
  let fact := change.factId.bind fun id => entity.facts.findIdx? (·.id = id)
  if (change.action = .correct ∨ change.action = .withdraw) ∧ fact.isNone then
    .error (.validationFailed ["fact_id must name a fact on this dossier"])
  else if inactiveTarget draft.ledger change.target then
    .error (.validationFailed ["target must name an active dossier"])
  else
    let modified (f : Entity → Entity) := .ok { draft with ledger := draft.ledger.modify entity.id f }
    match change.action with
    | .rename =>
      match singleLine (change.name.getD []) with
      | none => .error .valueError
      | some name => modified fun e => { e with name := name }
    | .aliases =>
      match changeAliases env draft.ledger entity change with
      | .error e => .error e
      | .ok ledger => .ok { draft with ledger }
    | .claim => changeClaim env draft entity change getNote now
    | .correct =>
      .ok
        { ledger := draft.ledger.modify entity.id fun e =>
            correction env e change.predicate change.value (.utf8 change.raw) fact change.target
              draft.drawn now
          drawn := draft.drawn + 1 }
    | .withdraw => modified (withdrawAt (fact.getD 0))
    | .retire => modified fun e => { e with retiredAt := some now }
    | .restore =>
      if entity.redirect.isSome then
        .error (.validationFailed
          ["merged IDs remain redirects; preview a split to separate facts"])
      else
        modified fun e =>
          { e with
            retiredAt := none
            generated := if pageExists then e.generated else none
            pending := if pageExists then e.pending else none }
    | _ => .ok draft

/-- The last fact of an identifier. -/
def lastWith? (facts : List Fact) (id : Text) : Option Nat :=
  (facts.reverse.findIdx? (·.id = id)).map (facts.length - 1 - ·)

/-- A fact of a merged dossier among those of its target. -/
def mergeFact (facts : List Fact) (fact : Fact) : List Fact :=
  match lastWith? facts fact.id with
  | none => facts ++ [fact]
  | some i =>
    -- A split leaves a withdrawn copy behind.
    if (facts[i]?.any (·.state = .withdrawn)) ∧ fact.state = .confirmed then facts.set i fact
    else facts

/-- Every fact about a merged dossier is about its target. -/
def retarget (entityId targetId : Text) (entity : Entity) : Entity :=
  { entity with
    facts := entity.facts.map fun fact =>
      if fact.target = some entityId then { fact with target := some targetId } else fact
    version := entity.version + (entity.facts.filter (·.target = some entityId)).length }

/-- The merge of `entity` into `target`. -/
def merge (entity target : Entity) (ledger : Ledger) : Ledger :=
  let ledger := ledger.modify target.id fun e =>
    { e with
      facts := entity.facts.foldl mergeFact e.facts
      aliases := sortedSet (e.aliases ++ entity.aliases ++ [entity.name])
      emails := sortedSet (e.emails ++ entity.emails) }
  let ledger := ledger.modify entity.id (·.redirectTo target.id)
  { ledger with entities := ledger.entities.map (retarget entity.id target.id) }

/-- The split of the selected facts off `entity`. -/
def split (draft : Draft) (entity : Entity) (change : EntityChange) :
    Except Raised (Draft × Text) :=
  match entityInput? entity.kind (change.name.getD []) [] [] with
  | none => .error .valueError
  | some request =>
    match make env draft request false with
    | .error e => .error e
    | .ok (draft, targetId) =>
      let selected := entity.facts.filter fun fact => fact.id ∈ change.factIds
      let ledger := draft.ledger.modify targetId fun e => { e with facts := e.facts ++ selected }
      let ledger := ledger.modify entity.id fun e =>
        { e with
          facts := e.facts.map fun fact => if fact.id ∈ change.factIds then withdrawn fact else fact }
      let emails := change.emails.getD []
      if emails = [] then .ok ({ draft with ledger }, targetId)
      else if ¬emails ⊆ entity.emails then
        .error (.validationFailed ["split emails must belong to the original dossier"])
      else
        let ledger := ledger.modify targetId fun e => { e with emails := sortedSet emails }
        let ledger := ledger.modify entity.id fun e =>
          { e with emails := e.emails.filter fun address => address ∉ emails }
        .ok ({ draft with ledger }, targetId)

def Action.isSplit (action : Action) : Bool := action = .split || action = .splitPreview

def Action.isPreview (action : Action) : Bool :=
  action = .mergePreview || action = .splitPreview

def Action.isIdentity (action : Action) : Bool :=
  action = .merge || action = .split || action.isPreview

/-- `identity`, as far as the ledger goes; none for a preview. -/
def identity (draft : Draft) (entity : Entity) (change : EntityChange) (now : Instant) :
    Except Raised (Option Draft) :=
  let splitting := change.action.isSplit
  let target := draft.ledger.find? (change.target.getD [])
  if !splitting && !(target.any fun t =>
      t.id ≠ entity.id && t.retiredAt.isNone && t.redirect.isNone && t.kind = entity.kind) then
    .error (.validationFailed ["choose another active dossier of the same kind"])
  else if splitting && (change.name.getD [] = [] || change.factIds = [] ||
      !(change.factIds.all fun id => entity.facts.any (·.id = id))) then
    .error (.validationFailed ["split requires a new name and facts from this dossier"])
  else
    let selected := entity.facts.filter fun fact => !splitting || fact.id ∈ change.factIds
    let token := env.digestPreview
      { subject := entity.id
        target := target.map (·.id)
        name := change.name
        emails := change.emails
        facts := selected.map (·.id)
        notes := sortedSet (selected.filterMap (·.evidence.noteId))
        revision := draft.ledger.revision }
    if change.action.isPreview then .ok none
    else if change.preview ≠ some token then
      .error (.validationFailed ["identity preview changed; preview again before applying"])
    else
      let finish (draft : Draft) (targetId : Text) : Except Raised (Option Draft) :=
        let ledger := draft.ledger.receipt entity.id change.action.name now
          { target := some targetId, preview := some token }
        .ok (some { draft with
          ledger := ledger.receipt targetId change.action.name now { source := some entity.id } })
      if splitting then
        match split env draft entity change with
        | .error e => .error e
        | .ok (draft, targetId) => finish draft targetId
      else
        match target with
        | none => .error (.validationFailed ["choose another active dossier of the same kind"])
        | some target => finish { draft with ledger := merge entity target draft.ledger } target.id

end Requests

/-- What a purge leaves of a dossier it does not remove. -/
def scrub (noteIds entityIds : List Text) (now : Instant) (entity : Entity) : Entity :=
  let redirected := entity.redirect.any (· ∈ entityIds)
  { entity with
    facts := entity.facts.filter fun fact =>
      !(fact.evidence.noteId.any (· ∈ noteIds)) && !(fact.target.any (· ∈ entityIds))
    retiredAt := if redirected then some now else entity.retiredAt
    redirect := if redirected then none else entity.redirect
    version := entity.version + 1 }

/-- The ledger a purge leaves, its own receipt apart. -/
def purgeLedger (env : Env) (noteIds entityIds : List Text) (now : Instant) (ledger : Ledger) :
    Ledger :=
  let removed := ledger.entities.filter (·.id ∈ entityIds)
  { ledger with
    entities := (ledger.entities.filter (·.id ∉ entityIds)).map (scrub noteIds entityIds now)
    receipts := ledger.receipts.filter fun r =>
      !(r.entityId.any (· ∈ entityIds)) && !(r.target.any (· ∈ entityIds)) &&
        !(r.source.any (· ∈ entityIds))
    suppressed := sortedSet (ledger.suppressed ++
      (removed.flatMap (·.emails)).map env.digestText) }

end Coppermind.Dossiers
