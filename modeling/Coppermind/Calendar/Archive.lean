import Coppermind.Lib.Task
import Coppermind.Calendar.Import

/-!
# The calendar archive

`CalendarArchive.submit` and `CalendarArchive.process`, one step for each file they read or write
and for each part of a transaction: what a transaction reads and computes is one step, its commit
another, and the promotion of the catalog file stands between the two.  A save is followed by the
sync of its directory, which may fail when the file is already there.

One call runs at a time, under the lock of the archive; any step may fail, and the process may be
killed before any step.
-/

namespace Coppermind.Calendar

open Coppermind.Lib Coppermind.Lib.Task

abbrev ImportId := Text

inductive ReceiptState where
  | pending | succeeded | failed
deriving DecidableEq, Repr

/-- `ImportReceipt`. -/
structure ImportReceipt where
  id : ImportId
  calendarId : Text
  filename : Text
  contentHash : Text
  state : ReceiptState
  eventCount : Nat
  error : Text
  receivedAt : Text
  importedAt : Text
  limit : Nat
  legacyCalendar : Text
  exportFilename : Text
  originalEntry : Text
  dismissed : Bool
  retryable : Bool
deriving DecidableEq

/-- `ContactEvidence`. -/
structure ContactEvidence where
  eventId : Text
  address : Text
  name : Text
  role : Text
  participation : Text
  sourceImport : Text
deriving DecidableEq

/-- `LimitSettings`, as far as an import reads it. -/
structure Limits where
  calendarMaxEvents : Nat
  calendarImportMemoryMib : Nat

structure ArchiveEnv extends Env where
  /-- `parse_bounded`, for the one calendar. -/
  parse : Text → Bytes → Nat → Limits → Except Raised (List CalendarEvent)
  /-- `str.lower`. -/
  lower : Text → Text
  /-- The identity of a row of `calendar_evidence`. -/
  evidenceId : Text → ContactEvidence → Text
  /-- `f"{limit / 1_000_000:g}"`. -/
  megabytes : Nat → Text

/-- `calendar_evidence`: the contact and the record under the identity of the row. -/
abbrev Evidence := AList fun _ : Text => Text × ContactEvidence

/-- What identifies the catalog file that a mirror was made from: the key `signature` may be
missing, and a file has its inode, size and time, here one number for each promotion. -/
inductive Signature where
  | unset
  | absent
  | file (stamp : Nat)
deriving DecidableEq

/-- The mirror database: two tables, and the rows of `calendar_state`. -/
structure Mirror where
  events : Events
  evidence : Evidence
  conflicts : List CalendarEvent
  aliases : List (Text × Text)
  imports : List ImportId
  signature : Signature

/-- `catalog.json`. -/
structure Catalog where
  conflicts : List CalendarEvent
  aliases : List (Text × Text)
  events : List (Text × CalendarEvent)
  imports : List ImportId
  contactRecords : List (Text × ContactEvidence)
deriving DecidableEq

def Catalog.empty : Catalog := ⟨[], [], [], [], []⟩

def Mirror.empty : Mirror := ⟨∅, ∅, [], [], [], .unset⟩

abbrev File := Option (Nat × Catalog)

/-- `signature`. -/
def signatureOf : File → Signature
  | none => .absent
  | some (stamp, _) => .file stamp

/-- What the catalog of an archive is: its file, and what `catalog()` serves. -/
structure Shown where
  file : File
  served : Except Raised Mirror

/-- The archive's files and database, with two ghosts: what the catalog was when the running call
began, and for each call that failed its export what it was before and after. -/
structure World where
  receipts : AList fun _ : ImportId => ImportReceipt
  originals : AList fun _ : ImportId => Bytes
  file : File
  mirror : Mirror
  /-- The stamp of the next promotion. -/
  stamps : Nat
  began : Shown
  failures : List (Shown × Shown)

/-- The steps of a call; those after a promotion name the state of the receipt it had read. -/
inductive Site where
  | readReceipt | signature | rebuild | commitRebuild | saveFound | syncFound | readOriginal
  | parse | merge | saveCount | syncCount | promote
  | syncCatalog (read : ReceiptState) | commit (read : ReceiptState)
  | answered (read : ReceiptState) | saveSucceeded (read : ReceiptState)
  | saveFailed | syncFailed | syncSucceeded
  | readReceipts | saveExisting | syncExisting | readExisting | readArchived | writeOriginal
  | syncOriginal | saveNew | syncNew
deriving DecidableEq, Repr

abbrev Op := Task Site World Raised

variable (env : ArchiveEnv)

section Contacts

/-- `text.rpartition("@")`, none where there is no `@`. -/
def rpartitionAt (t : Text) : Option (Text × Text) :=
  if '@' ∈ t then
    let domain := (t.reverse.takeWhile (· != '@')).reverse
    some (t.take (t.length - domain.length - 1), domain)
  else none

def mailto : Text := "mailto:".toList

/-- `contact_id`. -/
def CalendarPerson.contactId (person : CalendarPerson) : Option Text :=
  if mailto.isPrefixOf (env.lower person.address) then
    let address := (Text.strip (person.address.drop 7))
    match rpartitionAt address with
    | none => none
    | some (mailbox, domain) =>
      if mailbox = [] ∨ domain = [] ∨ '?' ∈ address then none
      else some (env.sha256 (env.encode (mailbox ++ '@' :: env.lower domain)))
  else none

/-- `add_evidence`. -/
def addEvidence (rows : Evidence) (contact : Text) (record : ContactEvidence) : Evidence :=
  let id := env.evidenceId contact record
  if id ∈ rows then rows else rows.insert id (contact, record)

/-- The evidence that a person of an event gives. -/
def evidenceOf (eventId : Text) (source : ImportId) (person : CalendarPerson) :
    ContactEvidence where
  eventId := eventId
  address := person.address
  name := person.name
  role := person.role
  participation := person.participation
  sourceImport := source

/-- The loop over the people of an event. -/
def addPeople (eventId : Text) (source : ImportId) (rows : Evidence) :
    List CalendarPerson → Evidence
  | [] => rows
  | person :: rest =>
    match person.contactId env with
    | none => addPeople eventId source rows rest
    | some contact =>
      addPeople eventId source (addEvidence env rows contact (evidenceOf eventId source person)) rest

end Contacts

section Mirrors

/-- `put_event`, whose row has the semantic hash. -/
def putEvent (rows : Events) (identity : Text) (event : CalendarEvent) : Except Raised Events := do
  let _ ← event.semanticHash env.toEnv
  pure (rows.insert identity event)

/-- The evidence of a catalog that has no contact records: that of the people of its events. -/
def evidenceOfEvents (rows : Evidence) : List CalendarEvent → Except Raised Evidence
  | [] => pure rows
  | event :: rest =>
    if event.people.all fun person => (person.contactId env).isNone then evidenceOfEvents rows rest
    else do
      let identity ← event.identity env.toEnv
      evidenceOfEvents (addPeople env identity [] rows event.people) rest

/-- `rebuild`. -/
def rebuild (file : File) : Except Raised Mirror :=
  match file with
  | none => pure { Mirror.empty with signature := .absent }
  | some (stamp, catalog) => do
    let events ← catalog.events.foldlM (fun rows e => putEvent env rows e.1 e.2) ∅
    let evidence ←
      if catalog.contactRecords = [] then
        evidenceOfEvents env ∅ (events.entries.map (·.2))
      else
        pure (catalog.contactRecords.foldl (fun rows e => addEvidence env rows e.1 e.2) ∅)
    pure
      { events
        evidence
        conflicts := catalog.conflicts
        aliases := catalog.aliases
        imports := catalog.imports
        signature := .file stamp }

/-- `write_catalog`: rows in the order of their keys. -/
def catalogOf (mirror : Mirror) (imports : List ImportId) : Catalog where
  conflicts := mirror.conflicts
  aliases := mirror.aliases
  events := (mirror.events.entries.insertionSort fun a b => a.1 ≤ b.1).map fun e => (e.1, e.2)
  imports := imports
  contactRecords :=
    (mirror.evidence.entries.insertionSort fun a b =>
      (toLex (a.2.1, a.1) : Text ×ₗ Text) ≤ toLex (b.2.1, b.1)).map (·.2)

/-- `drop_superseded_conflicts`. -/
def dropSuperseded (rows : Events) : List CalendarEvent → Except Raised (List CalendarEvent)
  | [] => pure []
  | conflict :: rest => do
    let kept ←
      match rows.lookup (← conflict.identity env.toEnv) with
      | none => pure true
      | some event =>
        pure (decide ((← event.revision env.toEnv) ≤ (← conflict.revision env.toEnv)))
    let others ← dropSuperseded rows rest
    pure (if kept then conflict :: others else others)

/-- The merged record of an event: what `merge_events` makes of it and of its row. -/
def mergedRow (previous : Option CalendarEvent) (event : CalendarEvent) :
    Except Raised CalendarEvent := do
  let identity ← event.identity env.toEnv
  let current : Events :=
    match previous with
    | none => ∅
    | some row => assign ∅ identity row
  match (← mergeEvents env.toEnv current [event]).lookup identity with
  | none => throw .keyError
  | some merged => pure merged

def budgetMessage (limits : Limits) : Text :=
  "calendar event budget exceeded: limits.calendar_max_events=".toList ++
    (toString limits.calendarMaxEvents).toList

/-- The body of the loop over the events: the tables, and the count of the events. -/
def importEvent (limits : Limits) (source : ImportId) (tables : Events × Evidence × Nat)
    (event : CalendarEvent) : Except Raised (Events × Evidence × Nat) := do
  let (events, evidence, count) := tables
  let identity ← event.identity env.toEnv
  let previous := events.lookup identity
  let count := if previous.isNone then count + 1 else count
  if previous.isNone ∧ limits.calendarMaxEvents < count then
    throw (.calendarImportError (budgetMessage limits))
  else
    let merged ← mergedRow env previous event
    let events ← if some merged = previous then pure events else putEvent env events identity merged
    pure (events, addPeople env identity source evidence event.people, count)

/-- What the transaction of an import makes of the mirror. -/
def importEvents (limits : Limits) (source : ImportId) (events : List CalendarEvent)
    (mirror : Mirror) : Except Raised Mirror := do
  let tables ← events.foldlM (importEvent env limits source)
    (mirror.events, mirror.evidence, mirror.events.entries.length)
  let conflicts ← dropSuperseded env tables.1 mirror.conflicts
  pure { mirror with events := tables.1, evidence := tables.2.1, conflicts }

end Mirrors

section Receipts

def calendarId : Text := "calendar".toList

/-- The provenance that an import gives an event. -/
def provenanceOf (receipt : ImportReceipt) (event : CalendarEvent) : List EventProvenance :=
  (if event.sourceEntries = [] then [event.sourceEntry] else event.sourceEntries).map fun entry =>
    { sourceId := receipt.id
      filename := orElse receipt.exportFilename receipt.filename
      entry := orElse receipt.originalEntry entry
      importedAt := receipt.receivedAt
      legacyCalendar := orElse receipt.legacyCalendar
        (if receipt.calendarId = calendarId then [] else receipt.calendarId) }

def stampEvent (receipt : ImportReceipt) (event : CalendarEvent) : CalendarEvent :=
  { event with provenance := provenanceOf receipt event }

/-- `[a-f0-9]{64}`. -/
def isImportId (id : Text) : Bool :=
  id.length == 64 && id.all fun c => ('a' ≤ c && c ≤ 'f') || ('0' ≤ c && c ≤ '9')

/-- `[a-z0-9][a-z0-9_-]{0,63}`. -/
def isSlug : Text → Bool
  | [] => false
  | c :: rest =>
    let alphanumeric (c : Char) := ('a' ≤ c && c ≤ 'z') || ('0' ≤ c && c ≤ '9')
    alphanumeric c && rest.length ≤ 63 && rest.all fun c => alphanumeric c || c == '_' || c == '-'

namespace ImportReceipt

variable (receipt : ImportReceipt)

/-- The receipt of a finished import. -/
def succeed (importedAt : Text) : ImportReceipt :=
  { receipt with
    state := .succeeded
    error := []
    importedAt := orElse receipt.importedAt importedAt }

def fail (message : Text) : ImportReceipt :=
  { receipt with state := .failed, retryable := false, error := message, dismissed := false }

/-- A time or resource limit stopped the import. -/
def stop (message : Text) : ImportReceipt :=
  { receipt with
    state := .failed
    retryable := true
    error := message.rdropWhile (· == '.') ++ ". Drop the export again to retry.".toList
    dismissed := false }

/-- What dropping the export again makes of a receipt. -/
def reopen : ImportReceipt :=
  if receipt.state = .failed ∧ receipt.retryable then
    { receipt with dismissed := false, state := .pending, error := [] }
  else { receipt with dismissed := false }

end ImportReceipt

end Receipts

namespace World

variable (w : World)

def shown : Shown where
  file := w.file
  served := if w.mirror.signature = signatureOf w.file then pure w.mirror else rebuild env w.file

def beginCall : World := { w with began := w.shown env }

def setReceipt (receipt : ImportReceipt) : World :=
  { w with receipts := w.receipts.insert receipt.id receipt }

/-- The receipt of a call that failed its export. -/
def setFailed (receipt : ImportReceipt) : World :=
  { w.setReceipt receipt with failures := w.failures ++ [(w.began, w.shown env)] }

def setOriginal (id : ImportId) (data : Bytes) : World :=
  { w with originals := w.originals.insert id data }

/-- The rename of a staged catalog. -/
def promote (catalog : Catalog) : World :=
  { w with file := some (w.stamps, catalog), stamps := w.stamps + 1 }

def setMirror (mirror : Mirror) : World := { w with mirror }

end World

section Calls

/-- An atomic write, and the sync of its directory. -/
def save (site sync : Site) (f : World → World) : Op Unit := do
  act site .failed f
  look sync .failed fun _ => ()

/-- `catalog`: the imports of the mirror, which is rebuilt where the file has changed. -/
def catalog : Op (List ImportId) := do
  let mirror ← look .signature .failed fun w =>
    if w.mirror.signature = signatureOf w.file then some w.mirror else none
  match mirror with
  | some mirror => pure mirror.imports
  | none => do
    let rebuilt ← lookOr .rebuild .failed fun w => rebuild env w.file
    act .commitRebuild .failed (·.setMirror rebuilt)
    pure rebuilt.imports

/-- What a call is given: the settings, the time, and an error where the bounded parser stops
for a reason of its own. -/
structure Attempt where
  limits : Limits
  now : Text
  stopped : Option Raised

/-- `parse_bounded`. -/
def parseBounded (a : Attempt) (receipt : ImportReceipt) (original : Bytes) :
    Except Raised (List CalendarEvent) :=
  match a.stopped with
  | some e => .error e
  | none => env.parse receipt.filename original receipt.limit a.limits

/-- The `try` of `process`, from the parser to the end of the transaction. -/
def importExport (a : Attempt) (receipt : ImportReceipt) (imports : List ImportId)
    (original : Bytes) : Op ImportReceipt := do
  let events ← lookOr .parse .failed fun _ => parseBounded env a receipt original
  let mirror ← lookOr .merge .failed fun w =>
    importEvents env a.limits receipt.id (events.map (stampEvent receipt)) w.mirror
  let counted := { receipt with eventCount := events.length }
  save .saveCount .syncCount (·.setReceipt counted)
  let listed := imports ++ [receipt.id]
  act .promote .failed (·.promote (catalogOf mirror listed))
  look (.syncCatalog receipt.state) .failed fun _ => ()
  act (.commit receipt.state) .failed fun w =>
    w.setMirror { mirror with imports := listed, signature := signatureOf w.file }
  look (.answered receipt.state) .failed fun _ => ()
  pure counted

/-- The handler of `CalendarImportError`; other exceptions leave the call. -/
def failExport (receipt : ImportReceipt) : Raised → Op ImportReceipt
  | .calendarImportError message => do
    save .saveFailed .syncFailed (·.setFailed env (receipt.fail message))
    pure (receipt.fail message)
  | .calendarTransientError message => do
    save .saveFailed .syncFailed (·.setFailed env (receipt.stop message))
    pure (receipt.stop message)
  | e => raised e

/-- The bytes of an export, as they were submitted. -/
def readOriginal (receipt : ImportReceipt) : Op Bytes :=
  lookOr .readOriginal .failed fun w =>
    match w.originals.lookup receipt.id with
    | none => .error .failed
    | some data =>
      if env.sha256 data = receipt.contentHash then .ok data
      else .error (.calendarImportError "archived original failed its integrity check".toList)

/-- The part of `process` for an export that the catalog does not list. -/
def processNew (a : Attempt) (receipt : ImportReceipt) (imports : List ImportId) :
    Op ImportReceipt := do
  let original ← readOriginal env receipt
  let outcome ← catchRaised
    (do
      let counted ← importExport env a receipt imports original
      pure (Sum.inl counted))
    (fun e => do
      let failed ← failExport env receipt e
      pure (Sum.inr failed))
  match outcome with
  | .inr failed => pure failed
  | .inl counted => do
    let finished := counted.succeed a.now
    save (.saveSucceeded receipt.state) .syncSucceeded (·.setReceipt finished)
    pure finished

/-- The receipt of a call, with what the catalog is when the call begins. -/
def beginProcess (id : ImportId) : Op ImportReceipt :=
  step .readReceipt (·.beginCall env)
    (fun w =>
      match w.receipts.lookup id with
      | none => raised .failed
      | some receipt => done receipt)
    (raised .failed)

/-- `process`. -/
def process (id : ImportId) (a : Attempt) : Op ImportReceipt :=
  if isImportId id then do
    let receipt ← beginProcess env id
    let imports ← catalog env
    if receipt.id ∈ imports then do
      let finished := receipt.succeed receipt.receivedAt
      save .saveFound .syncFound (·.setReceipt finished)
      pure finished
    else processNew env a receipt imports
  else raised (.calendarImportError "invalid import identity".toList)

/-- The name of a path. -/
def pathName (path : Text) : Text :=
  ((path.splitOn '/').filter fun part => part != [] && part != ['.']).getLastD []

/-- `Path(path).suffix`. -/
def suffixOf (path : Text) : Text :=
  let name := pathName path
  let tail := (name.reverse.takeWhile (· != '.')).reverse
  if '.' ∈ name ∧ tail ≠ [] ∧ tail.length + 1 < name.length then '.' :: tail else []

/-- What `submit` is given, and the time. -/
structure Drop where
  calendarId : Text
  filename : Text
  data : Bytes
  limit : Nat
  exportFilename : Text
  now : Text

namespace Drop

variable (drop : Drop)

def suffix : Text := env.lower (suffixOf drop.filename)

def digest : Text := env.sha256 drop.data

def identity : ImportId :=
  env.sha256 (env.encode (drop.suffix env ++ Char.ofNat 0 :: drop.digest env))

/-- Why a drop is refused, where it is. -/
def refusal : Option Text :=
  if !isSlug drop.calendarId then some "calendar identity must be a short lowercase slug".toList
  else if drop.limit < drop.data.length then
    some ("calendar upload exceeds ".toList ++ env.megabytes drop.limit ++ " MB".toList)
  else if drop.filename = [] ∨ 255 < drop.filename.length ∨ drop.filename.any (·.toNat < 32) then
    some "invalid upload filename".toList
  else if drop.suffix env ≠ ".ics".toList ∧ drop.suffix env ≠ ".zip".toList then
    some "expected an ICS or ZIP file".toList
  else none

/-- The receipt of a new export. -/
def receipt : ImportReceipt where
  id := drop.identity env
  calendarId := Calendar.calendarId
  filename := drop.filename
  contentHash := drop.digest env
  state := .pending
  eventCount := 0
  error := []
  receivedAt := drop.now
  importedAt := []
  limit := drop.limit
  legacyCalendar := []
  exportFilename := orElse drop.exportFilename drop.filename
  originalEntry := []
  dismissed := false
  retryable := false

end Drop

/-- `receipts`, in the order of their directories. -/
def receiptsOf (w : World) : List ImportReceipt :=
  (w.receipts.entries.insertionSort fun a b => a.1 ≤ b.1).map (·.2)

/-- The part of `submit` for bytes that no receipt has. -/
def submitNew (drop : Drop) : Op ImportReceipt := do
  let receipt ← look .readExisting .failed fun w => w.receipts.lookup (drop.identity env)
  match receipt with
  | some receipt => pure receipt
  | none => do
    let archived ← look .readArchived .failed fun w => w.originals.lookup (drop.identity env)
    match archived with
    | some data =>
      if env.sha256 data ≠ drop.digest env then
        raised (.calendarImportError "archived original failed its integrity check".toList)
      else do
        save .saveNew .syncNew (·.setReceipt (drop.receipt env))
        pure (drop.receipt env)
    | none => do
      save .writeOriginal .syncOriginal (·.setOriginal (drop.identity env) drop.data)
      save .saveNew .syncNew (·.setReceipt (drop.receipt env))
      pure (drop.receipt env)

/-- `submit`. -/
def submit (drop : Drop) : Op ImportReceipt :=
  match drop.refusal env with
  | some message => raised (.calendarImportError message)
  | none => do
    let existing ← look .readReceipts .failed fun w =>
      (receiptsOf w).find? (·.contentHash = drop.digest env)
    match existing with
    | some receipt =>
      if receipt.dismissed ∨ (receipt.state = .failed ∧ receipt.retryable) then do
        save .saveExisting .syncExisting (·.setReceipt receipt.reopen)
        pure receipt.reopen
      else pure receipt
    | none => submitNew env drop

end Calls

section Turns

inductive Call where
  | submit (drop : Drop)
  | process (id : ImportId) (attempt : Attempt)

def Call.perform : Call → Op ImportReceipt
  | .submit drop => Calendar.submit env drop
  | .process id attempt => Calendar.process env id attempt

/-- A turn: a call begins, or the running call takes its next step, meets a failure there, or is
killed before it. -/
def archiveTurn : Scene Site World Raised ImportReceipt Call → Turn Call Empty →
    Scene Site World Raised ImportReceipt Call :=
  turn (fun e _ => e.elim) (fun _ e => e.elim) (Call.perform env)

/-- Every call on its own, undisturbed. -/
def reprocess (calls : List (ImportId × Attempt)) (w : World) : World :=
  calls.foldl (fun w call => (run (process env call.1 call.2) w).2) w

def World.empty : World where
  receipts := ∅
  originals := ∅
  file := none
  mirror := .empty
  stamps := 0
  began := ⟨none, .ok .empty⟩
  failures := []

/-- An archive that was never used. -/
def newArchive : Scene Site World Raised ImportReceipt Call := ⟨.empty, none⟩

end Turns

end Coppermind.Calendar
