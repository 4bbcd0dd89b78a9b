import Coppermind.Reconciler.Scan
import Coppermind.Lib.Effect

/-!
# One reconciliation pass

`reconcileOnce` over the state it reads and writes: the mirror's rows, the recorded collisions,
the remembered stats and the durable records beside them.  What the world answers while a pass
runs, the walk, the reads of an adoption, the clock and the Git history, is its input `Pass`.
-/

namespace Coppermind.Reconciler

open Coppermind.Lib Coppermind.Lib.Text Coppermind.Frontmatter Coppermind.Schema Coppermind.Notes

/-- One removal the Git history records for an identity: the commit, the path it removed and
the bytes that stood there. -/
structure Removal where
  commit : PyStr
  path : RelPath
  data : FileBytes

/-- `Receipt`: the retained copy of a removed note. -/
structure Receipt where
  noteId : NoteId
  path : RelPath
  contentHash : PyStr
  removalCommit : PyStr
  data : FileBytes
  recordedAt : Instant

/-- What the Git history answers after a refresh. -/
structure History where
  available : Bool
  /-- `removed`: the removals of an identity. -/
  removed : NoteId → List Removal

/-- One of the `copies` of a filing receipt; no data stands for content that does not decode. -/
structure FilingCopy where
  path : RelPath
  hash : PyStr
  data : Option FileBytes

/-- The filing receipt of a note. -/
inductive Filing where
  | absent
  | unreadable
  | plan (copies : List FilingCopy) (complete : Bool)

/-- What the manifest of a cited source answers. -/
inductive SourceManifest where
  | unreadable
  | revision (n : Nat)
  /-- A manifest without a `current_revision`. -/
  | unnumbered

/-- A review record: the reviewed flag and the revision of each source approved with it. -/
structure Review where
  reviewed : Bool
  sources : List (PyStr × Option Nat)

/-- A note observed after a deletion, as `remember_return` keeps it. -/
structure ObservedReturn where
  path : RelPath
  contentHash : PyStr
  frontmatter : Entries
  sizeBytes : Nat
  title : Option PyStr
  recordedAt : Instant

/-- The store, as far as a pass reads and writes it. -/
structure State where
  rows : List Row
  memory : Memory
  collisions : List (NoteId × RelPath)
  receipts : List Receipt
  returns : List (NoteId × ObservedReturn)
  reviews : List (NoteId × Review)
  exclusions : List (RelPath × PyStr)
  /-- The files that adoptions have replaced, with their new text. -/
  written : List (RelPath × Text)

/-- What `adopt_note` meets at one candidate. -/
structure AdoptionMoment where
  /-- The path resolves outside the notes filesystem. -/
  outside : Bool
  fileName : PyStr
  current : ReadResult
  newId : Text
  /-- The read before the replacement. -/
  latest : ReadResult
  /-- Staging the text beside the file raises an `OSError`. -/
  stageFails : Bool
  /-- Replacing the file raises an `OSError`: whether the file was replaced by then. -/
  commitFails : Option Bool
  /-- The file's mtime afterwards; none where its stat raises. -/
  mtime : Option Instant
  now : Instant

/-- What one call of `reconcile_once` is given and meets. -/
structure Pass where
  full : Bool
  quietPeriod : Instant
  scanStarted : Instant
  /-- The clock once the files have been walked and adopted. -/
  now : Instant
  purging : List NoteId
  /-- The walk; none when the root or a folder under it cannot be listed. -/
  walk : Option (List Sighting)
  adoptions : Candidate → AdoptionMoment
  /-- The history `recover_rows` and the pass refresh from. -/
  history : History
  filing : NoteId → Filing
  manifests : PyStr → SourceManifest
  localNow : DateTime

/-- What a library or the database decides beside the types of the columns. -/
structure Database where
  /-- The refusal of these values carries an SQLSTATE of class 22. -/
  dataException : Values → Bool

/-- The counts a pass reports. -/
structure Counts where
  adopted : Nat
  backlog : Nat
  rejected : Nat
  unwritable : Nat
  duplicates : Nat
  changed : Nat
  moved : Nat
  missing : Nat
  deleted : Nat
  unparsed : Nat
  deferred : Nat
  excluded : Nat
deriving DecidableEq, Repr

abbrev Op := EStateM Raised State

section Choose

/-- What `_choose_observations` makes of one identity. -/
inductive Choice where
  | chosen (o : Observation)
  /-- Several files claim it: the paths recorded as a collision. -/
  | collision (paths : List RelPath)

/-- The body of the loop of `_choose_observations`, for the path its row records. -/
def choose (held : Bool) (recorded : RelPath) (candidates : List Observation) : Choice :=
  if held then .collision (recorded :: candidates.map (·.path))
  else
    let named := candidates.filter (!·.pathDerived)
    let ranked := if named = [] then candidates else named
    match ranked.filter (·.path == recorded) with
    | [o] => .chosen o
    | _ =>
      match ranked with
      | [o] => .chosen o
      | _ => .collision (ranked.map (·.path))

/-- The choice for an identity the walk observed; none for one it did not. -/
def choiceOf (scan : ScanResult) (index : Index) (id : NoteId) : Option Choice :=
  match scan.observed id, index.entry? id with
  | [], _ | _, none => none
  | candidates, some entry => some (choose (scan.held id) entry.path candidates)

/-- `observations[note_id]`. -/
def chosen (scan : ScanResult) (index : Index) (id : NoteId) : Option Observation :=
  match choiceOf scan index id with
  | some (.chosen o) => some o
  | _ => none

/-- The collisions of a scan, identity by identity. -/
def collisionsOf (scan : ScanResult) (index : Index) : List (NoteId × RelPath) :=
  index.flatMap fun entry =>
    match choiceOf scan index entry.noteId with
    | some (.collision paths) => paths.map (entry.noteId, ·)
    | _ => []

def duplicatesOf (scan : ScanResult) (index : Index) : Nat :=
  index.countP fun entry =>
    match choiceOf scan index entry.noteId with
    | some (.collision _) => true
    | _ => false

/-- `absent`: what nothing on disk carried, when no file was left for the next pass. -/
def isAbsent (scan : ScanResult) (id : NoteId) : Bool := scan.deferred == 0 && !scan.seen id

end Choose

section Values

variable (lib : Libraries) (schema : FrontmatterSchema)

/-- The values an observation gives a row. -/
def observedValues (o : Observation) : Values :=
  match o.state with
  | .unreadable => [⟨.path, o.path⟩, ⟨.state, .unparsed⟩, ⟨.stateReason, some unreadableReason⟩]
  | .unparsed =>
    [⟨.path, o.path⟩, ⟨.contentHash, o.contentHash.getD []⟩, ⟨.sizeBytes, o.sizeBytes.getD 0⟩,
      ⟨.mtime, o.mtime⟩, ⟨.state, .unparsed⟩, ⟨.stateReason, some unparsedReason⟩]
  | .ok title frontmatter _ =>
    [⟨.path, o.path⟩, ⟨.title, some title⟩, ⟨.contentHash, o.contentHash.getD []⟩,
      ⟨.sizeBytes, o.sizeBytes.getD 0⟩, ⟨.mtime, o.mtime⟩, ⟨.frontmatter, frontmatter⟩] ++
      mirrorColumns lib.py schema frontmatter ++ [⟨.state, .ok⟩, ⟨.stateReason, none⟩]

/-- What an observation gives a row names every column once. -/
theorem observedValues_nodup (o : Observation) :
    ((observedValues lib schema o).map (·.1)).Nodup := by
  unfold observedValues
  cases o.state with
  | unreadable => simp
  | unparsed => simp
  | ok title frontmatter body =>
    rcases mirrorColumns_columns lib.py schema frontmatter with h | h <;> simp [h]

def missingValues (row : Row) (reason : PyStr) : Values :=
  Values.changing row [⟨.state, .missing⟩, ⟨.stateReason, some reason⟩]

/-- `_values_for`. -/
def valuesFor (row : Row) (observed : Option Observation) : Values :=
  match observed with
  | none =>
    if row.state = .missing ∧ row.stateReason = some missingReason then []
    else [⟨.state, .missing⟩, ⟨.stateReason, some missingReason⟩]
  | some o => Values.changing row (observedValues lib schema o)

/-- `evidence`: the removal of exactly these bytes at this path, in the newest commit. -/
def evidence (removed : List Removal) (noteId : NoteId) (path : RelPath) (digest : PyStr)
    (now : Instant) : Option Receipt :=
  let latest := removed.head?.map (·.commit)
  ((removed.takeWhile fun r => some r.commit == latest).find? fun r =>
    r.path == path && lib.hash r.data == digest).map fun r =>
      { noteId, path, contentHash := digest, removalCommit := r.commit, data := r.data
        recordedAt := now }

def vanishedReason (row : Row) (detail : String) : PyStr :=
  PyStr.lit "File vanished between filing paths; last known hash " ++ row.contentHash ++
    PyStr.lit detail

/-- `vanished_receipt`: a receipt, or the reason there is none. -/
def vanishedReceipt (pass : Pass) (row : Row) : Option Receipt × Option PyStr :=
  match pass.filing row.id with
  | .absent => (none, none)
  | .unreadable => (none, some (vanishedReason row "; filing receipt is unreadable"))
  | .plan copies complete =>
    if copies.isEmpty && complete then (none, none)
    else
      match copies.reverse.find? (·.hash == row.contentHash) with
      | none => (none, some (vanishedReason row "; no matching filing copy is available"))
      | some copy =>
        match copy.data with
        | none => (none, some (vanishedReason row "; filing receipt is unreadable"))
        | some data =>
          if lib.hash data ≠ row.contentHash then
            (none, some (vanishedReason row "; filing copy failed hash verification"))
          else
            match copies.findSome? fun copy =>
                evidence lib (pass.history.removed row.id) row.id copy.path copy.hash pass.now with
            | some found =>
              (some { found with path := row.path, contentHash := row.contentHash, data }, none)
            | none => (none, some (vanishedReason row "; awaiting Git evidence of removal"))

/-- `publish_receipt` found `{id}-{commit}.json` there. -/
def retained (receipts : List Receipt) (receipt : Receipt) : Option Receipt :=
  receipts.find? fun r => r.noteId == receipt.noteId && r.removalCommit == receipt.removalCommit

/-- What a pass does to the row of a note nothing on disk carried. -/
structure Removed where
  values : Values
  receipt : Option Receipt

def deletedValues : Values := [⟨.state, .deleted⟩, ⟨.stateReason, some deletedReason⟩]

/-- `fm.parse(data.decode())`, where nothing catches what it raises. -/
def mustParse (data : FileBytes) : Except Raised (Entries × Text) :=
  match data with
  | .other _ => .error (.python "UnicodeDecodeError")
  | .utf8 text =>
    (parse lib.yaml text).mapError fun
      | .frontmatter _ => .python "FrontmatterError"
      | .python className => .python className

/-- The newest removal of a note that is deleted already: its bytes become the row's. -/
def latestRemoval (pass : Pass) (row : Row) (removal : Removal) :
    Except Raised Removed := do
  let digest := lib.hash removal.data
  let receipt := evidence lib (pass.history.removed row.id) row.id removal.path digest pass.now
  let (frontmatter, body) ← mustParse lib removal.data
  return {
    values :=
      [⟨.path, removal.path⟩, ⟨.contentHash, digest⟩, ⟨.sizeBytes, removal.data.length⟩,
        ⟨.title, some (titleOf body (PyStr.name removal.path))⟩,
        ⟨.frontmatter, jsonableEntries lib.py frontmatter []⟩] ++
      mirrorColumns lib.py schema frontmatter ++ deletedValues
    receipt }

/-- The receipt of a note's removal, or the reason there is none. -/
def removalReceipt (pass : Pass) (row : Row) : Option Receipt × Option PyStr :=
  match evidence lib (pass.history.removed row.id) row.id row.path row.contentHash pass.now with
  | some receipt => (some receipt, none)
  | none => vanishedReceipt lib pass row

/-- The values of a row whose note was observed absent, with the reason its filing gives. -/
def absentValues (row : Row) (reason : Option PyStr) : Values :=
  match reason with
  | some reason => missingValues row reason
  | none => valuesFor lib schema row none

/-- The branch of the update loop for a row no file was observed for. -/
def removedValues (pass : Pass) (receipts : List Receipt) (row : Row) : Except Raised Removed :=
  match removalReceipt lib pass row with
  | (some receipt, _) =>
    if row.state = .deleted ∧ (retained receipts receipt).isSome then .ok ⟨[], some receipt⟩
    else .ok ⟨deletedValues, some receipt⟩
  | (none, reason) =>
    if row.state = .deleted then
      match pass.history.removed row.id with
      | removal :: _ => latestRemoval lib schema pass row removal
      | [] =>
        -- A Git outage cannot erase retained evidence.
        if pass.history.available then .ok ⟨absentValues lib schema row reason, none⟩
        else .ok ⟨[], none⟩
    else .ok ⟨absentValues lib schema row reason, none⟩

/-- `set(sources)`, each a string; none where iterating, hashing, sorting or joining raises. -/
def reviewSources (sources : Option Value) : Option (List PyStr) :=
  match sources with
  | none => some []
  | some (.seq _ items) =>
    if items.all fun item => (str? item).isSome then some (items.filterMap str?).dedup else none
  | some (.map entries) =>
    if entries.all fun entry => (str? entry.1).isSome then
      some (entries.filterMap fun entry => str? entry.1).dedup
    else none
  | some value => (str? value).map fun s => (s.map fun c => [c]).dedup

/-- The revision recorded for a source. -/
def approvedRevision (manifest : SourceManifest) : Except Raised (Option Nat) :=
  match manifest with
  | .unreadable => .ok none
  | .revision n => .ok (some n)
  | .unnumbered => .error (.python "KeyError")

/-- `record_review`, as the record it saves. -/
def reviewOf (manifests : PyStr → SourceManifest) (frontmatter : Entries) :
    Except Raised Review :=
  if isTrue (frontmatter.get? schema.roles.reviewedKey) then
    match reviewSources (frontmatter.get? schema.roles.sourcesKey) with
    | none => .error (.python "TypeError")
    | some sources => do
      let approved ← (sources.insertionSort fun s t => strLe s t).mapM fun source => do
        let revision ← approvedRevision (manifests source)
        return (source, revision)
      return ⟨true, approved⟩
  else .ok ⟨false, []⟩

end Values

/-- `mapping[key] = value`. -/
def assocSet {β : Type} (entries : List (NoteId × β)) (key : NoteId) (value : β) :
    List (NoteId × β) :=
  if entries.any (·.1 == key) then
    entries.map fun entry => if entry.1 == key then (key, value) else entry
  else entries ++ [(key, value)]

namespace State

def row? (s : State) (id : NoteId) : Option Row := s.rows.find? (·.id == id)

/-- The row with this identity replaced. -/
def putRow (s : State) (row : Row) : State :=
  { s with rows := s.rows.map fun r => if r.id == row.id then row else r }

/-- The part of the state a transaction over the database rolls back. -/
def rollback (before after : State) : State :=
  { after with rows := before.rows, collisions := before.collisions }

end State

section Steps

variable (lib : Libraries) (db : Database) (schema : FrontmatterSchema) (settings : Settings)

def liftExcept {α : Type} (x : Except Raised α) : Op α :=
  match x with
  | .ok a => pure a
  | .error e => throw e

/-- `receipts(store)`: the newest receipt of each identity. -/
def newestReceipts (receipts : List Receipt) : List Receipt :=
  receipts.foldl (fun found receipt =>
    match found.find? (·.noteId == receipt.noteId) with
    | none => found ++ [receipt]
    | some old =>
      if old.recordedAt < receipt.recordedAt then
        found.map fun r => if r.noteId == receipt.noteId then receipt else r
      else found) []

/-- What a receipt recovers to: the removal, its state, and the return observed since.  A removal
newer than the receipt wins over it and over that return. -/
def recoveredFrom (pass : Pass) (later : Option ObservedReturn) (receipt : Receipt) :
    Receipt × NoteState × Option ObservedReturn :=
  match (pass.history.removed receipt.noteId).head? with
  | some removal =>
    if removal.commit ≠ receipt.removalCommit then
      ({ receipt with
          path := removal.path, contentHash := lib.hash removal.data
          removalCommit := removal.commit, data := removal.data, recordedAt := pass.now },
        .missing, none)
    else (receipt, .deleted, later)
  | none => (receipt, .deleted, later)

/-- The row `recover_rows` seeds for an identity the mirror lost. -/
def recoveredRow (pass : Pass) (returns : List (NoteId × ObservedReturn)) (receipt : Receipt) :
    Except Raised Row := do
  let later := (returns.find? (·.1 == receipt.noteId)).map (·.2)
  let (receipt, state, later) := recoveredFrom lib pass later receipt
  let (frontmatter, body) ← mustParse lib receipt.data
  let reason : Option PyStr := some (PyStr.lit "recovered identity; awaiting scan")
  match later.filter fun later => receipt.recordedAt < later.recordedAt with
  | some later =>
    return newRow receipt.noteId
      ([⟨.path, later.path⟩, ⟨.title, later.title⟩, ⟨.contentHash, later.contentHash⟩,
        ⟨.sizeBytes, later.sizeBytes⟩,
        ⟨.frontmatter, jsonableEntries lib.py later.frontmatter []⟩] ++
        mirrorColumns lib.py schema later.frontmatter ++
        [⟨.state, .missing⟩, ⟨.stateReason, reason⟩]) receipt.recordedAt receipt.recordedAt
  | none =>
    return newRow receipt.noteId
      ([⟨.path, receipt.path⟩, ⟨.title, some (titleOf body (PyStr.name receipt.path))⟩,
        ⟨.contentHash, receipt.contentHash⟩, ⟨.sizeBytes, receipt.data.length⟩,
        ⟨.frontmatter, jsonableEntries lib.py frontmatter []⟩] ++
        mirrorColumns lib.py schema frontmatter ++
        [⟨.state, state⟩, ⟨.stateReason, reason⟩]) receipt.recordedAt receipt.recordedAt

/-- The cells of a row, as the values an insert gives. -/
def rowAdmitted (row : Row) : Bool :=
  [Column.path, .title, .contentHash, .sizeBytes, .mtime, .frontmatter, .schemaVersion, .type,
    .context, .account, .date, .reviewed, .filed, .sourceIds, .artifactIds, .tags, .state,
    .stateReason].all fun c => c.admits (row.cells c)

/-- The retained receipts of the notes the mirror lost: `unknown`. -/
def lost (pass : Pass) (s : State) : List Receipt :=
  ((newestReceipts s.receipts).filter fun r => r.noteId ∉ pass.purging).filter
    fun r => (s.row? r.noteId).isNone

/-- `recover_rows`: absent identities are seeded before the scan. -/
def recoverRows (pass : Pass) : Op Unit := do
  let s ← get
  let rows ← liftExcept ((lost pass s).mapM (recoveredRow lib schema pass s.returns))
  raiseIf (rows.any fun row => !rowAdmitted row) (.python "DBAPIError")
  modify fun s => { s with rows := s.rows ++ rows }

/-- `_mirror_index`, less the notes under an unfinished purge. -/
def mirrorIndex (pass : Pass) (s : State) : Index :=
  (s.rows.filter fun row => row.id ∉ pass.purging).map Row.entry

def quietWindow (pass : Pass) : Option QuietWindow :=
  if 0 < pass.quietPeriod then some ⟨pass.scanStarted - pass.quietPeriod, clockSkewTolerance⟩
  else none

/-- What `adopt_note` answers, or the exception it lets through. -/
inductive Adopted where
  | adopted (row : Row) (text : Option Text)
  | changed (cause : String)
  | invalid (cause : String)
  | collision (cause : String)
  /-- An exception other than an outage of the metadata store; the file may be written. -/
  | failed (text : Option Text)
  | metadataUnavailable

/-- The insert of `adopt_note`, once its file is written as `text`. -/
def insertAdoption (path : RelPath) (moment : AdoptionMoment) (adoption : Adoption)
    (text : Option Text) : Adopted :=
  match moment.mtime with
  | none => .failed text
  | some mtime =>
    let values := adoptionValues lib schema adoption path moment.fileName mtime
    if values.admitted then .adopted (newRow adoption.id values moment.now moment.now) text
    else if db.dataException values then .failed text
    else .metadataUnavailable

/-- The file of `adopt_note` is replaced, unless the adoption changes none of its bytes. -/
def writeAdoption (path : RelPath) (expected : PyStr) (data : FileBytes)
    (moment : AdoptionMoment) (adoption : Adoption) : Adopted :=
  if FileBytes.utf8 adoption.text = data then
    match moment.latest with
    | .vanished => .changed "the file is no longer there"
    | .refused => .failed none
    | .bytes latest =>
      if lib.hash latest ≠ expected then .changed "a device wrote to the file first"
      else insertAdoption lib db schema path moment adoption none
  else if moment.stageFails then .failed none
  else
    match moment.latest with
    | .vanished => .changed "the file is no longer there"
    | .refused => .failed none
    | .bytes latest =>
      if lib.hash latest ≠ expected then .changed "a device wrote to the file first"
      else
        match moment.commitFails with
        | some replaced => .failed (if replaced then some adoption.text else none)
        | none => insertAdoption lib db schema path moment adoption (some adoption.text)

/-- The part of `adopt_note` under its transaction: `rows` is the mirror it meets. -/
def landAdoption (rows : List Row) (path : RelPath) (expected : PyStr) (data : FileBytes)
    (moment : AdoptionMoment) (adoption : Adoption) : Adopted :=
  if rows.any (·.id == adoption.id) then .collision "the id it carries is already a note"
  else if !textAdmits path then
    if db.dataException [⟨.path, path⟩] then .failed none else .metadataUnavailable
  else if rows.any fun row => row.path == path && row.state != .missing && row.state != .deleted then
    .collision "another note already claims this path"
  else writeAdoption lib db schema path expected data moment adoption

/-- `adopt_note`. -/
def adoptNote (rows : List Row) (candidate : Candidate) (moment : AdoptionMoment)
    (localNow : DateTime) : Adopted :=
  if moment.outside then .invalid "path is not inside the notes filesystem"
  else
    match moment.current with
    | .vanished => .changed "the file is no longer there"
    | .refused => .failed none
    | .bytes data =>
      if lib.hash data ≠ candidate.contentHash then .changed "the file changed after it was read"
      else
        match planAdoption lib schema localNow moment.newId data with
        | .error (.invalid cause) => .invalid cause
        | .error (.raised _) => .failed none
        | .ok adoption =>
          landAdoption lib db schema rows candidate.path candidate.contentHash data moment adoption

/-- `_ADOPTIONS_PER_PASS`. -/
def adoptionsPerPass : Nat := 50

/-- What the adoption loop has counted. -/
structure Progress where
  adopted : Nat := 0
  rejected : Nat := 0
  unwritable : Nat := 0
  retry : Nat := 0
  untried : Nat := 0

/-- The state once the file of an adoption has been replaced, if it was. -/
def State.wrote (s : State) (path : RelPath) (text : Option Text) : State :=
  { s with written := s.written ++ (text.map fun text => (path, text)).toList }

/-- The adoption loop of `reconcile_once`. -/
def adoptAll (pass : Pass) : List Candidate → Progress → Op Progress
  | [], p => pure p
  | candidate :: rest, p => do
    let s ← get
    match adoptNote lib db schema s.rows candidate (pass.adoptions candidate) pass.localNow with
    | .metadataUnavailable => throw .metadataUnavailable
    | .failed text =>
      modify fun s =>
        { s.wrote candidate.path text with
          memory := remember s.memory candidate.path candidate.statSeen }
      adoptAll pass rest { p with unwritable := p.unwritable + 1 }
    | .adopted row text =>
      modify fun s => { s.wrote candidate.path text with rows := s.rows ++ [row] }
      let p := { p with adopted := p.adopted + 1 }
      if p.adopted = adoptionsPerPass then return { p with untried := rest.length }
      else adoptAll pass rest p
    | .changed _ => adoptAll pass rest { p with retry := p.retry + 1 }
    | .invalid _ | .collision _ =>
      modify fun s => { s with memory := remember s.memory candidate.path candidate.statSeen }
      adoptAll pass rest { p with rejected := p.rejected + 1 }

/-- `save`: a receipt that is there already has to agree. -/
def saveReceipt (receipt : Receipt) : Op Unit := do
  let s ← get
  match retained s.receipts receipt with
  | none => set { s with receipts := s.receipts ++ [receipt] }
  | some previous =>
    raiseIf (decide (previous.data ≠ receipt.data ∨ previous.path ≠ receipt.path))
      .notesFilesystemUnavailable

/-- `remember_return`, for the row as the update left it. -/
def rememberReturn (row : Row) (now : Instant) : Op Unit :=
  modify fun s =>
    if s.receipts.any (·.noteId == row.id) then
      { s with
        returns := assocSet s.returns row.id
          { path := row.path, contentHash := row.contentHash, frontmatter := row.cells .frontmatter
            sizeBytes := row.sizeBytes, title := row.cells .title, recordedAt := now } }
    else s

/-- `_follow_in_index` refuses what a text column refuses. -/
def indexRefuses (observed : Option Observation) : Bool :=
  match observed with
  | none => false
  | some o =>
    match o.state with
    | .ok title _ _ => !(textAdmits o.path && textAdmits title)
    | _ => !textAdmits o.path

/-- `observed.frontmatter`. -/
def observedFrontmatter (observed : Option Observation) : Option Entries :=
  match observed with
  | some ⟨_, _, .ok _ frontmatter _, _, _, _, _⟩ => some frontmatter
  | _ => none

/-- What the loop over the pending rows counts a row under. -/
def countRow (counts : Counts) (row : Row) (observed : Option Observation)
    (receipt : Option Receipt) : Counts :=
  match observed with
  | none =>
    if receipt.isSome then { counts with deleted := counts.deleted + 1 }
    else { counts with missing := counts.missing + 1 }
  | some o =>
    match o.state with
    | .ok _ _ _ =>
      if row.path ≠ o.path then { counts with moved := counts.moved + 1 }
      else { counts with changed := counts.changed + 1 }
    | _ => { counts with unparsed := counts.unparsed + 1 }

/-- The values of one pending row, and the receipt of its removal. -/
def pendingValues (pass : Pass) (receipts : List Receipt) (row : Row)
    (observed : Option Observation) : Except Raised Removed :=
  match observed with
  | some o => .ok ⟨valuesFor lib schema row (some o), none⟩
  | none => removedValues lib schema pass receipts row

/-- What is kept of an update beside the mirror: the receipt of a removal, or that a removed
note was observed again. -/
def keepRecord (pass : Pass) (observed : Option Observation) (receipt : Option Receipt)
    (updated : Row) : Op Unit :=
  match receipt with
  | some receipt => saveReceipt receipt
  | none => if observed.isSome then rememberReturn updated pass.now else pure ()

/-- `record_review`, where an update changes the reviewed flag. -/
def recordReview (pass : Pass) (observed : Option Observation) (id : NoteId) (values : Values) :
    Op Unit :=
  match observedFrontmatter observed with
  | some frontmatter =>
    if values.mentions .reviewed then do
      let review ← liftExcept (reviewOf schema pass.manifests frontmatter)
      modify fun s => { s with reviews := assocSet s.reviews id review }
    else pure ()
  | none => pure ()

/-- The body of the loop over the pending rows. -/
def updatePending (pass : Pass) (observed : Option Observation) (row : Row) (counts : Counts) :
    Op Counts := do
  let s ← get
  let ⟨values, receipt⟩ ← liftExcept (pendingValues lib schema pass s.receipts row observed)
  if values = [] then return counts
  raiseIf (!values.admitted) .metadataUnavailable
  -- `UPDATE … WHERE updated_at <= scan_started` found no row.
  if pass.scanStarted < row.updatedAt then return counts
  let updated := values.apply pass.now row
  modify fun s => s.putRow updated
  keepRecord pass observed receipt updated
  recordReview schema pass observed row.id values
  raiseIf (indexRefuses observed) .metadataUnavailable
  return countRow counts row observed receipt

/-- The loop over the pending rows: those an observation was chosen for, and the absent. -/
def updateAll (pass : Pass) (scan : ScanResult) (index : Index) : List NoteId → Counts → Op Counts
  | [], counts => pure counts
  | id :: rest, counts => do
    let s ← get
    match s.row? id with
    | none => updateAll pass scan index rest counts
    | some row => do
      let counts ← updatePending lib schema pass (chosen scan index id) row counts
      updateAll pass scan index rest counts

/-- `sorted(set(observations) | absent)`, here in the order of the mirror. -/
def pending (scan : ScanResult) (index : Index) : List NoteId :=
  (index.map (·.noteId)).filter fun id => (chosen scan index id).isSome || isAbsent scan id

/-- `reconcile_once`. -/
def reconcileOnce (pass : Pass) : Op Counts := do
  recoverRows lib schema pass
  let index := mirrorIndex pass (← get)
  let known : Known :=
    { full := pass.full, quiet := quietWindow pass, index, memory := (← get).memory }
  let walk ← liftExcept (pass.walk.elim (.error .notesFilesystemUnavailable) .ok)
  let scan ← liftExcept (scan lib schema settings known walk)
  modify fun s => { s with memory := scan.unidentified }
  let progress ← adoptAll lib db schema pass scan.candidates {}
  let counts : Counts :=
    { adopted := progress.adopted, backlog := progress.retry + progress.untried
      rejected := scan.unidentifiedUnparsed + progress.rejected, unwritable := progress.unwritable
      duplicates := duplicatesOf scan index, changed := 0, moved := 0, missing := 0, deleted := 0
      unparsed := 0, deferred := scan.deferred, excluded := scan.exclusions.length }
  let counts ← transaction State.rollback (pure ()) do
    -- The reason of a recorded rejection holds the path.
    raiseIf ((collisionsOf scan index).any fun c => !textAdmits c.2) .metadataUnavailable
    modify fun s => { s with collisions := collisionsOf scan index }
    updateAll lib schema pass scan index (pending scan index) counts
  modify fun s => { s with exclusions := scan.exclusions }
  return counts

end Steps

end Coppermind.Reconciler
