import Coppermind.Lib.Commands
import Coppermind.Search.Store
import Mathlib.Data.List.Sort

/-!
# Catching up

One pass of `catch_up`, cut at every statement and every file it waits for.  It drops what is no
longer published, reads a bounded batch of what the index does not describe yet, and records what
it read and what it could not read.  A read that failed is not tried again while its mark still
says what is seen of the file.
-/

namespace Coppermind.Search

open Coppermind.Lib Coppermind.Lib.Task Coppermind.Lib.Text Coppermind.Frontmatter

/-- `CATCH_UP_BATCH`. -/
def catchUpBatch : Nat := 200

/-- What the index does not describe at its version. -/
structure Stale where
  kind : Kind
  id : PyStr
  version : PyStr
  /-- The path of a note; that of a source's page is in its manifest. -/
  path : PyStr
  revision : Int
deriving DecidableEq

def Stale.key (row : Stale) : Key := (row.kind, row.id)

/-- What the last transaction of a pass writes. -/
structure Change where
  known : List Key
  candidates : List Key
  failed : List Mark
  ready : List Document
deriving DecidableEq

inductive Site where
  | settings | clean
  | failures | staleNotes | staleSources
  | manifest (id : PyStr)
  | projection (id : PyStr)
  | observe (path : PyStr)
  | read (row : Stale) (path : PyStr)
  | record (change : Change)
  | staleArtifacts
  | artifact (id : PyStr)
  | index (d : Document)

inductive Raised where
  | metadataUnavailable
  | artifactsFilesystemUnavailable
  | python (className : String)
  /-- The settings cannot be read, or the pass is cancelled. -/
  | interrupted

/-- A document as it is written. -/
def Document.cut (d : Document) : Document :=
  { d with title := indexable d.title, body := indexable d.body }

theorem cut_key (d : Document) : d.cut.key = d.key := rfl

section Transactions

variable (env : Env) (notesFolder : Text) (w : World)

/-- The document is of nothing that is published, or of another revision. -/
def obsolete (d : Document) : Bool :=
  match d.kind with
  | .source => !eligible env notesFolder w d.key || !currentSource w d.refId d.version
  | _ => !eligible env notesFolder w d.key

/-- A document of a note under the path of its row. -/
def follow (d : Document) : Document :=
  match d.kind with
  | .note => { d with path := ((w.notes.find d.refId).map (·.path)).getD d.path }
  | _ => d

theorem follow_key (d : Document) : (follow w d).key = d.key := by
  unfold follow
  split <;> rfl

/-- The first transaction. -/
def clean : World :=
  { w with documents :=
      (w.documents.delete (obsolete env notesFolder w)).adjust (follow w) (follow_key w) }

/-- `_upsert`. -/
def upsertDocument (d : Document) : World :=
  { w with
    unreadable := w.unreadable.delete (·.key = d.key)
    documents :=
      if eligible env notesFolder w d.key then w.documents.upsert d.cut
      else w.documents.delete (·.key = d.key) }

/-- The mirror still has what a mark is about. -/
def mirrored (m : Mark) : Bool :=
  match m.kind with
  | .note => (w.notes.find m.refId).any fun n =>
      n.path == m.path && n.contentHash == m.version && reviewedNote env notesFolder n
  | _ => currentSource w m.refId m.version

/-- The index has the version that a mark is about. -/
def indexed (m : Mark) : Bool := (w.documents.find m.key).any (·.version == m.version)

/-- The marks of one failure: written where it is new. -/
def recordFailure (m : Mark) : World :=
  if mirrored env notesFolder w m && !indexed w m &&
      !(w.unreadable.find m.key).any (·.seen == m.seen) then
    { w with unreadable := w.unreadable.upsert m }
  else w

/-- A note that was read is written where its row still has what was read. -/
def accepts (d : Document) : Bool :=
  match d.kind with
  | .note => (w.notes.find d.refId).any (·.contentHash == d.version)
  | _ => true

def recordEntry (d : Document) : World :=
  if accepts w d then upsertDocument env notesFolder w d else w

/-- The last transaction. -/
def record (change : Change) : World :=
  let w := { w with unreadable := w.unreadable.delete fun m =>
    m.kind ≠ .artifact && m.key ∈ change.known && m.key ∉ change.candidates }
  let w := change.failed.foldl (recordFailure env notesFolder) w
  change.ready.foldl (recordEntry env notesFolder) w

/-- The world the batch is written over: the marks of what is described are gone. -/
def forgotten (w : World) (change : Change) : World :=
  { w with unreadable := w.unreadable.delete fun m =>
      m.kind ≠ .artifact && m.key ∈ change.known && m.key ∉ change.candidates }

end Transactions

/-- What a step does. -/
def effect (env : Env) (site : Site) (w : World) : World :=
  match site with
  | .clean => clean env env.settings.notesFolder w
  | .record change => record env env.settings.notesFolder w change
  | .index d => upsertDocument env "Notes".toList w d
  | _ => w

abbrev Job (α : Type) := Task Site World Raised α

/-- A pass, with the numbers its rows are shuffled by. -/
structure Call where
  rank : Key → Nat

section Listing

variable (env : Env) (notesFolder : Text) (w : World)

def staleNote (n : NoteRow) : Bool :=
  n.state == .ok && reviewedNote env notesFolder n &&
    (w.documents.find (.note, n.id)).all (·.version ≠ n.contentHash)

def staleNotes : List Stale :=
  (w.notes.rows.filter (staleNote env notesFolder w)).map fun n =>
    ⟨.note, n.id, n.contentHash, n.path, 0⟩

def staleSource (s : SourceRow) : Bool :=
  eligible env notesFolder w (.source, s.id) &&
    (w.documents.find (.source, s.id)).all (·.version ≠ sourceVersion s.currentRevision)

def staleSources : List Stale :=
  (w.sources.rows.filter (staleSource env notesFolder w)).map fun s =>
    ⟨.source, s.id, sourceVersion s.currentRevision, [], s.currentRevision⟩

/-- `order_by(random())`. -/
def Call.shuffle (call : Call) (rows : List Stale) : List Stale :=
  rows.insertionSort fun a b => call.rank a.key ≤ call.rank b.key

def staleArtifact (a : ArtifactRow) : Bool :=
  (w.documents.find (.artifact, a.id)).all
    (·.version ≠ searchVersion a.currentRevision a.extractorVersion)

/-- The artifacts of a pass, in the order of their ids. -/
def staleArtifacts : List ArtifactRow :=
  ((w.artifacts.rows.filter (staleArtifact w)).insertionSort fun a b => a.id ≤ b.id).take
    catchUpBatch

end Listing

/-- What became of a row that was not described. -/
inductive Attempt where
  /-- The batch is full. -/
  | later
  /-- The mark still says what is seen. -/
  | known
  | ready (d : Document)
  | failed (m : Mark) (durable : Bool)

/-- It counts for the batch. -/
def Attempt.counts : Attempt → Nat
  | .ready _ | .failed _ _ => 1
  | _ => 0

structure Reading where
  ready : List Document := []
  failed : List Mark := []
  transient : List Mark := []
  skipped : Nat := 0

def Reading.add (reading : Reading) : Attempt → Reading
  | .later => reading
  | .known => { reading with skipped := reading.skipped + 1 }
  | .ready d => { reading with ready := reading.ready ++ [d] }
  | .failed m true => { reading with failed := reading.failed ++ [m] }
  | .failed m false => { reading with transient := reading.transient ++ [m] }

section Pass

variable (env : Env)

/-- `|`. -/
def bar : Nat := 0x7c

/-- What the manifest says of the page: its path, or why there is none. -/
def projectionOf (w : World) (id : PyStr) : PyStr × Option Fault :=
  match (w.manifests id).projection with
  | .ok (some path) => (path, none)
  | .ok none => ([], some ⟨PyStr.lit "manifest records no projection path", true⟩)
  | .error fault => ([], some fault)

/-- The path of a row; that of a page is the mark's while the manifest is as it was. -/
def pathOf (previous : Option Mark) (manifestState : PyStr) (row : Stale) :
    Job (PyStr × Option Fault) :=
  match row.kind, previous.filter (·.observation.takeWhile (· ≠ bar) = manifestState) with
  | .source, some m => pure (m.path, none)
  | .source, none => look (.projection row.id) .interrupted fun w => projectionOf w row.id
  | _, _ => pure (row.path, none)

def readEntry (w : World) (row : Stale) (path : PyStr) : Except Problem Document :=
  match row.kind with
  | .source => readProjection env w path row.id row.revision
  | _ => readNote env w path row.id row.version

/-- A fault is an answer; anything else is raised. -/
def answered (read : Except Problem Document) : Except Raised (Except Fault Document) :=
  match read with
  | .ok d => .ok (.ok d)
  | .error (.fault f) => .ok (.error f)
  | .error (.python className) => .error (.python className)

def noProjection : Fault := ⟨PyStr.lit "manifest has no readable projection path", true⟩

/-- The entry at a path, where there is one. -/
def entryAt (row : Stale) (path : PyStr) (fault : Option Fault) : Job (Except Fault Document) :=
  if row.kind = .source ∧ path = [] then pure (.error (fault.getD noProjection))
  else lookOr (.read row path) .interrupted fun w => answered (readEntry env w row path)

def manifestState (row : Stale) : Job PyStr :=
  if row.kind = .source then
    look (.manifest row.id) .interrupted fun w => (w.manifests row.id).state
  else pure []

/-- One row of `read_all`. -/
def readRow (previous : Option Mark) (full : Bool) (row : Stale) : Job Attempt :=
  if previous.isNone && full then pure .later
  else do
    let manifest ← manifestState row
    let (path, fault) ← pathOf previous manifest row
    let state ← look (.observe path) .interrupted fun w => relativeState w path
    let observation := manifest ++ [bar] ++ state
    if previous.any (·.seen = (row.version, path, observation)) then pure .known
    else if full then pure .later
    else do
      match ← entryAt env row path fault with
      | .ok d => pure (.ready d)
      | .error f =>
        pure (.failed ⟨row.kind, row.id, row.version, path, observation, f.reason⟩ f.durable)

/-- The rows of one kind in `read_all`. -/
def readStale (known : List Mark) (attempted : Nat) (reading : Reading) :
    List Stale → Job Reading
  | [] => pure reading
  | row :: rest => do
    let attempt ← readRow env (known.find? (·.key = row.key)) (catchUpBatch ≤ attempted) row
    readStale known (attempted + attempt.counts) (reading.add attempt) rest

/-- One artifact of `_catch_up_artifacts`; it says whether it was indexed. -/
def indexArtifact (a : ArtifactRow) : Job Nat := do
  let found ← lookOr (.artifact a.id) .interrupted fun w =>
    (w.records a.id).mapError fun _ => Raised.artifactsFilesystemUnavailable
  match found with
  | none => pure 0
  | some r =>
    if searchVersion r.revision r.extractorVersion ≠
        searchVersion a.currentRevision a.extractorVersion then pure 0
    else do
      perform (effect env) (.index (artifactDocument a.id r)) .metadataUnavailable
      pure 1

def indexArtifacts (indexed : Nat) : List ArtifactRow → Job Nat
  | [] => pure indexed
  | a :: rest => do
    let one ← indexArtifact env a
    indexArtifacts (indexed + one) rest

/-- `_catch_up_artifacts`. -/
def catchUpArtifacts : Job Nat := do
  let stale ← look .staleArtifacts .metadataUnavailable staleArtifacts
  indexArtifacts env 0 stale

end Pass

structure Counts where
  indexed : Nat
  removed : Nat
  unreadable : Nat
  skippedKnownUnreadable : Nat
deriving DecidableEq

/-- `catch_up`. -/
def catchUp (env : Env) (call : Call) : Job Counts := do
  let folder ← look .settings .interrupted fun _ => env.settings.notesFolder
  let removed ← .step .clean (effect env .clean)
    (fun w => .done (w.documents.rows.countP (obsolete env folder w)))
    (.raised .metadataUnavailable)
  let known ← look .failures .metadataUnavailable fun w => w.unreadable.rows
  let notes ← look .staleNotes .metadataUnavailable fun w => call.shuffle (staleNotes env folder w)
  let sources ← look .staleSources .metadataUnavailable fun w =>
    call.shuffle (staleSources env folder w)
  let reading ← readStale env known 0 {} notes
  let reading ← readStale env known 0 reading sources
  let change : Change := {
    known := known.map Mark.key
    candidates := (notes ++ sources).map Stale.key |>.filter
      (· ∉ reading.transient.map Mark.key)
    failed := reading.failed
    ready := reading.ready }
  let indexed ← .step (.record change) (effect env (.record change))
    (fun w => .done (change.ready.countP (accepts w))) (.raised .metadataUnavailable)
  let artifacts ← catchUpArtifacts env
  pure {
    indexed := indexed + artifacts
    removed := removed
    unreadable := (reading.failed ++ reading.transient).length
    skippedKnownUnreadable := reading.skipped }

end Coppermind.Search
