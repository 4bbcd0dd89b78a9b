import Mathlib.Data.List.Sort
import Coppermind.Lib.Keyset
import Coppermind.Notes.Cursor
import Coppermind.Notes.Row

/-!
# Listing notes

`list_notes`: batches of rows behind the last key, the rows a query keeps, and a read of each note
that is there. One page is served from one `Snapshot`; what changes between pages is another
snapshot. The loops run on fuel, and `listNotes` has enough of it.
-/

namespace Coppermind.Notes

open Coppermind.Lib Coppermind.Frontmatter

/-- The filters of a `NoteQuery`. -/
structure Criteria where
  filter : Option PyStr
  folder : Option PyStr
  reviewed : Option Bool
  type : Option PyStr
  context : Option PyStr
  account : Option PyStr
  fromDate : Option Date
  toDate : Option Date
  tag : Option PyStr
  state : Option NoteState

/-- A `NoteQuery`. -/
structure NoteQuery extends Criteria where
  cursor : Option Text
  limit : Nat
  positive : 1 ≤ limit
  atMost : limit ≤ 200

/-- A `NoteSummary`. -/
structure NoteSummary where
  id : NoteId
  path : RelPath
  state : NoteState
  stateReason : Option PyStr
  title : PyStr
  date : Option Date
  type : Option PyStr
  context : Option PyStr
  account : List PyStr
  reviewed : Bool
  filed : Bool
  filingError : Option PyStr
  filingAttempts : Int
  tags : List PyStr
  contentHash : PyStr
  updatedAt : Instant
deriving DecidableEq

/-- A `Page` of summaries. -/
structure Page where
  items : List NoteSummary
  nextCursor : Option Text
deriving DecidableEq

/-- How `_read_current` ends. A read the filesystem refuses asks for the root again. -/
inductive Reading where
  | read
  | notFound
  | noteUnparseable
  | unavailable (rootPresent : Bool)
  | metadataUnavailable

/-- What `filing_state` answers. -/
structure FilingState where
  error : Option PyStr
  attempts : Int

/-- What a page is served from. -/
structure Snapshot where
  rows : List Row
  distinct : (rows.map (·.id)).Nodup
  scalars : ∀ row ∈ rows, Scalars row.id
  /-- The database answers. -/
  answers : Bool
  /-- The clauses of a filter. -/
  conditions : PyStr → Except ListError (Row → Bool)
  revision : Int
  /-- The schema revision when the page is put together. -/
  revisionAfter : Int
  rootPresent : Bool
  /-- The identity index is fresh, or the walk that refreshes it succeeds. -/
  indexed : Bool
  reading : NoteId → Reading
  filing : NoteId → FilingState

/-- What a listing asks of the database and of the language. -/
structure ListHost (ρ : Type) extends CursorHost where
  /-- The order of the identifier column, in which no two identifiers tie. -/
  collate : NoteId → ρ
  collate_injective : Function.Injective collate
  /-- `filter_digest` of a query without cursor and limit, and of a schema revision. -/
  digest : Criteria → Int → PyStr
  digest_scalars : ∀ criteria revision, Scalars (digest criteria revision)
  /-- `_SCAN_BATCH`, which the source sets to 200. -/
  scanBatch : Nat

/-- `d <= e`. -/
def dateLe (d e : Date) : Bool :=
  d.year < e.year || (d.year == e.year &&
    (d.month < e.month || (d.month == e.month && d.day ≤ e.day)))

/-- `_mirrored_summary`, before the filing state is set. -/
def mirroredSummary (row : Row) : NoteSummary where
  id := row.id
  path := row.path
  state := row.state
  stateReason := row.stateReason
  title :=
    match row.cells .title with
    | some (c :: title) => c :: title
    | _ => PyStr.stem (PyStr.name row.path)
  date := row.cells .date
  type := row.cells .type
  context := row.cells .context
  account := row.cells .account
  reviewed := row.cells .reviewed
  filed := row.cells .filed
  filingError := none
  filingAttempts := 0
  tags := row.cells .tags
  contentHash := row.contentHash
  updatedAt := row.mtime.getD row.updatedAt

/-- `_matches_query`. -/
def matchesQuery (summary : NoteSummary) (query : Criteria) : Bool :=
  query.folder.all (fun folder => (folder ++ [PyStr.slash]).isPrefixOf summary.path) &&
  query.reviewed.all (fun reviewed => summary.reviewed == reviewed) &&
  query.type.all (fun type => summary.type == some type) &&
  query.context.all (fun context => summary.context == some context) &&
  query.account.all (fun account => summary.account.contains account) &&
  query.fromDate.all (fun from_date => summary.date.any fun date => dateLe from_date date) &&
  query.toDate.all (fun to_date => summary.date.any fun date => dateLe date to_date) &&
  query.tag.all (fun tag => summary.tags.contains tag) &&
  query.state.all (fun state => summary.state == state)

/-- A row that matched. -/
abbrev Candidate := NoteState × NoteSummary

/-- What a transaction leaves: the last key it saw, the rows that matched, and whether the mirror
ended. -/
structure Gathered where
  after : Option NoteId
  candidates : List Candidate
  exhausted : Bool

section Loops

variable (query : NoteQuery) (snapshot : Snapshot)

/-- The rows of a batch, until `needed` candidates are there; whether it stopped so comes last. -/
def sift (needed : Nat) : List Row → Option NoteId → List Candidate →
    Option NoteId × List Candidate × Bool
  | [], after, candidates => (after, candidates, false)
  | row :: rows, _, candidates =>
    let summary := mirroredSummary row
    if matchesQuery summary query.toCriteria then
      let candidates := candidates ++ [(row.state, summary)]
      if candidates.length = needed then (some row.id, candidates, true)
      else sift needed rows (some row.id) candidates
    else sift needed rows (some row.id) candidates

/-- The batches of a transaction. -/
def gather (select : Option NoteId → List Row) (batchSize needed : Nat) :
    Nat → Option NoteId → List Candidate → Option Gathered
  | 0, _, _ => none
  | fuel + 1, after, candidates =>
    if candidates.length < needed then
      let rows := select after
      match sift query needed rows after candidates with
      | (after, candidates, true) => gather select batchSize needed fuel after candidates
      | (after, candidates, false) =>
        if rows.length < batchSize then some ⟨after, candidates, true⟩
        else gather select batchSize needed fuel after candidates
    else some ⟨after, candidates, false⟩

/-- `filing_state` set on a summary. -/
def withFiling (summary : NoteSummary) : NoteSummary :=
  { summary with
    filingError := (snapshot.filing summary.id).error
    filingAttempts := (snapshot.filing summary.id).attempts }

/-- The reads of the candidates. -/
def readBack : List Candidate → List NoteSummary → Except ListError (List NoteSummary)
  | [], found => .ok found
  | (state, summary) :: rest, found =>
    if state = .ok then
      match snapshot.reading summary.id with
      | .read => readBack rest (found ++ [withFiling snapshot summary])
      | .notFound => readBack rest found
      | .noteUnparseable => readBack rest found
      | .unavailable rootPresent =>
        if rootPresent then readBack rest found else .error .notesFilesystemUnavailable
      | .metadataUnavailable => .error .metadataUnavailable
    else readBack rest (found ++ [withFiling snapshot summary])

/-- The clauses the select carries. -/
def predicates : Except ListError (Row → Bool) :=
  match query.filter with
  | none => .ok fun _ => true
  | some filter => snapshot.conditions filter

/-- `limit + 1`: one note more than the page holds. -/
def wanted : Nat := query.limit + 1

variable {ρ : Type} [LinearOrder ρ] (host : ListHost ρ)

/-- `max(wanted, _SCAN_BATCH)`. -/
def batchSize : Nat := max (wanted query) host.scanBatch

/-- The key of a row. -/
def rowKey (row : Row) : ρ := host.collate row.id

/-- The rows a predicate keeps, in the order of their identifiers. -/
def selected (predicate : Row → Bool) : List Row :=
  (snapshot.rows.filter predicate).insertionSort fun r s => rowKey host r ≤ rowKey host s

/-- `WHERE … AND id > after ORDER BY id LIMIT batch_size`. -/
def select (predicate : Row → Bool) (after : Option NoteId) : List Row :=
  (Keyset.behind (rowKey host) (after.map host.collate) (selected snapshot host predicate)).take
    (batchSize query host)

/-- The transactions of a page, each followed by the reads of its candidates. -/
def collect (fuel : Nat) : Nat → Option NoteId → List NoteSummary →
    Option (Except ListError (List NoteSummary))
  | 0, _, _ => none
  | rounds + 1, after, found =>
    if found.length < wanted query then
      if !snapshot.answers then some (.error .metadataUnavailable)
      else
        match predicates query snapshot with
        | .error error => some (.error error)
        | .ok predicate =>
          match gather query (select query snapshot host predicate)
              (batchSize query host) (wanted query - found.length) fuel after [] with
          | none => none
          | some gathered =>
            if !snapshot.rootPresent || !snapshot.indexed then
              some (.error .notesFilesystemUnavailable)
            else
              match readBack snapshot gathered.candidates found with
              | .error error => some (.error error)
              | .ok found =>
                if gathered.exhausted then some (.ok found)
                else collect fuel rounds gathered.after found
    else some (.ok found)

/-- The context a cursor carries. -/
def cursorContext : Option PyStr :=
  query.filter.map fun _ => host.digest query.toCriteria snapshot.revision

/-- The key a cursor resumes behind; an empty one is none. -/
def resumeKey : Except ListError (Option NoteId) :=
  match query.cursor with
  | none => .ok none
  | some [] => .ok none
  | some cursor =>
    (decodeNoteCursor host.toCursorHost cursor (cursorContext query snapshot host)).map some

/-- What the page shows of the notes found. -/
def pageOf (found : List NoteSummary) : Page :=
  let items := found.take query.limit
  { items := items
    nextCursor :=
      if query.limit < found.length then
        items.getLast?.map fun last => encodeNoteCursor last.id (cursorContext query snapshot host)
      else none }

/-- `list_notes`. -/
def listNotes : Option (Except ListError Page) :=
  let fuel := snapshot.rows.length + 2
  match resumeKey query snapshot host with
  | .error error => some (.error error)
  | .ok after =>
    match collect query snapshot host fuel fuel after [] with
    | none => none
    | some (.error error) => some (.error error)
    | some (.ok found) =>
      if query.filter.isSome && snapshot.revisionAfter != snapshot.revision then
        some (.error .filterCursorConflict)
      else some (.ok (pageOf query snapshot host found))

end Loops

end Coppermind.Notes
