import Coppermind.Lib.Table
import Coppermind.Notes.Adoption
import Coppermind.Sources.Document

/-!
# The search index and what it is derived from

The mirror says what is published: a note that was reviewed and filed under the month of its date,
a source whose current revision such a note approves, an artifact that has a row.  The index holds
one document for each of these at most, and of a read that failed it keeps a mark, with what was
seen of the file then.
-/

namespace Coppermind.Search

open Coppermind.Lib Coppermind.Lib.Text Coppermind.Frontmatter Coppermind.Schema
open Coppermind.Notes (FileBytes NoteState strOf)

inductive Kind where
  | note | source | artifact
deriving DecidableEq, Repr

/-- The key of a document: its kind and what it is of. -/
abbrev Key := Kind × PyStr

/-- A row of `notes`, as far as the index asks for it. -/
structure NoteRow where
  id : PyStr
  path : PyStr
  contentHash : PyStr
  state : NoteState
  reviewed : Bool
  filed : Bool
  sourceIds : List PyStr
  filedSourceIds : List PyStr
  date : Option Date
deriving DecidableEq

structure SourceRow where
  id : PyStr
  currentRevision : Int
deriving DecidableEq

/-- A row of `note_sources`. -/
structure Link where
  noteId : PyStr
  sourceId : PyStr
  approvedRevision : Option Int
deriving DecidableEq

structure ArtifactRow where
  id : PyStr
  currentRevision : Int
  extractorVersion : PyStr
deriving DecidableEq

/-- `SearchDocument`. -/
structure Document where
  kind : Kind
  refId : PyStr
  path : PyStr
  title : PyStr
  body : PyStr
  version : PyStr
deriving DecidableEq

def Document.key (d : Document) : Key := (d.kind, d.refId)

/-- `SearchUnreadable`. -/
structure Mark where
  kind : Kind
  refId : PyStr
  version : PyStr
  path : PyStr
  observation : PyStr
  reason : PyStr
deriving DecidableEq

def Mark.key (m : Mark) : Key := (m.kind, m.refId)

/-- What a mark is about, without why it was made. -/
def Mark.seen (m : Mark) : PyStr × PyStr × PyStr := (m.version, m.path, m.observation)

/-- Why a read failed, and whether it fails until the file changes. -/
structure Fault where
  reason : PyStr
  durable : Bool
deriving DecidableEq

/-- A read that fails, or raises what nobody expects. -/
inductive Problem where
  | fault (f : Fault)
  | python (className : String)

/-- A path of the notes tree: what `_relative_state` sees of it, and what reading it gives. -/
structure FileState where
  state : PyStr
  bytes : Except Fault FileBytes

/-- The manifest of a source: what `_file_state` sees of it, and `projection_path`. -/
structure ManifestState where
  state : PyStr
  projection : Except Fault (Option PyStr)

/-- The record of an artifact under the state directory. -/
structure ArtifactRecord where
  path : Option PyStr
  title : PyStr
  text : PyStr
  filename : PyStr
  url : PyStr
  revision : Int
  extractorVersion : PyStr
deriving DecidableEq

structure Settings where
  notesFolder : Text
  /-- `schema.role("id_key")`. -/
  idKey : Text
deriving DecidableEq

structure World where
  notes : Table NoteRow.id
  sources : Table SourceRow.id
  links : List Link
  artifacts : Table ArtifactRow.id
  documents : Table Document.key
  unreadable : Table Mark.key
  files : PyStr → FileState
  manifests : PyStr → ManifestState
  /-- `read_record`; it raises where the record cannot be read. -/
  records : PyStr → Except Unit (Option ArtifactRecord)

/-- The settings and the libraries the index is read with. -/
structure Env where
  settings : Settings
  yaml : RoundTrip
  unicode : Naming.Unicode
  py : Python
  /-- `content_hash`. -/
  hash : FileBytes → PyStr

/-- `MAX_INDEXED_CHARS`. -/
def maxIndexedChars : Nat := 250000

/-- `indexable`. -/
def indexable (text : PyStr) : PyStr := text.dropNul.take maxIndexedChars

/-- `_title_of`. -/
def titleOf (body : Text) (path : PyStr) : PyStr := indexable (Notes.titleOf body path.name)

/-- `source_version`. -/
def sourceVersion (revision : Int) : PyStr := PyStr.lit "r" ++ PyStr.ofText (toString revision).toList

/-- `search_version`. -/
def searchVersion (revision : Int) (extractorVersion : PyStr) : PyStr :=
  sourceVersion revision ++ PyStr.lit ":" ++ extractorVersion

/-- `index_body`. -/
def indexBody (r : ArtifactRecord) : PyStr :=
  [0x0a].intercalate ([r.text, r.filename, r.url].filter (· ≠ []))

section Published

def isDigit (c : Nat) : Bool := 0x30 ≤ c && c ≤ 0x39

/-- `^[0-9]{4}-(0[1-9]|1[0-2])/`. -/
def startsWithMonth (path : PyStr) : Bool :=
  match path with
  | a :: b :: c :: d :: hyphen :: m :: n :: slash :: _ =>
    [a, b, c, d].all isDigit && hyphen == 0x2d &&
      ((m == 0x30 && 0x31 ≤ n && n ≤ 0x39) || (m == 0x31 && 0x30 ≤ n && n ≤ 0x32)) &&
      slash == PyStr.slash
  | _ => false

/-- `^[0-9]{4}/[0-9]{4}-(0[1-9]|1[0-2])/`. -/
def startsWithYearAndMonth (path : PyStr) : Bool :=
  match path with
  | a :: b :: c :: d :: slash :: rest =>
    [a, b, c, d].all isDigit && slash == PyStr.slash && startsWithMonth rest
  | _ => false

variable (env : Env) (notesFolder : Text)

/-- `sanitize_folder(notes_folder) or NOTES_FOLDER_DEFAULT`. -/
def notesRoot : PyStr :=
  PyStr.ofText (Naming.orElse (Naming.sanitizeFolder env.unicode notesFolder) "Notes".toList)

/-- The path lies in the folder that the date renders to, below the notes folder. -/
def inFolder (path : PyStr) (day : Date) : Bool :=
  let root := notesRoot env notesFolder ++ [PyStr.slash]
  root.isPrefixOf path && startsWithYearAndMonth (path.drop root.length) &&
    (root ++ PyStr.ofText (Sources.monthFolder true day) ++ [PyStr.slash]).isPrefixOf path

/-- The path lies in the folder of the month that older releases filed to. -/
def inLegacyFolder (path : PyStr) (day : Date) : Bool :=
  let year := PyStr.ofText (Notes.yearDigits true day.year).toList
  let month := PyStr.ofText (Notes.twoDigits day.month).toList
  startsWithMonth path && (year ++ [0x2d] ++ month ++ [PyStr.slash]).isPrefixOf path

/-- `reviewed_note`. -/
def reviewedNote (n : NoteRow) : Bool :=
  n.reviewed && n.filed && n.sourceIds == n.filedSourceIds &&
    !(n.state == .missing || n.state == .deleted) &&
    n.date.any fun day => inFolder env notesFolder n.path day || inLegacyFolder n.path day

variable (w : World)

/-- A note approves the current revision of the source. -/
def approves (id : PyStr) (l : Link) : Bool :=
  l.sourceId == id && (w.notes.find l.noteId).any (reviewedNote env notesFolder) &&
    (w.sources.find id).any fun s => l.approvedRevision == some s.currentRevision

/-- `eligible`. -/
def eligible (key : Key) : Bool :=
  match key.1 with
  | .note => (w.notes.find key.2).any (reviewedNote env notesFolder)
  | .source => w.links.any (approves env notesFolder w key.2)
  | .artifact => (w.artifacts.find key.2).isSome

/-- `current_source`. -/
def currentSource (id version : PyStr) : Bool :=
  (w.sources.find id).any fun s => version == sourceVersion s.currentRevision

end Published

section Files

variable (env : Env) (w : World)

/-- `_relative_state`. -/
def relativeState (path : PyStr) : PyStr :=
  if path = [] then PyStr.lit "no-path" else (w.files path).state

/-- A fault that lasts until the file changes. -/
def lasting (reason : String) : Problem := .fault ⟨PyStr.lit reason, true⟩

/-- The bytes of the file at a path. -/
def readBytes (path : PyStr) : Except Problem FileBytes := (w.files path).bytes.mapError .fault

/-- `fm.parse` of the text of a file. -/
def parse (data : FileBytes) : Except Problem (Entries × Text) :=
  match data with
  | .other _ => .error (lasting "UnicodeDecodeError")
  | .utf8 text =>
    match Notes.parse env.yaml text with
    | .ok parsed => .ok parsed
    | .error (.frontmatter _) => .error (lasting "FrontmatterError")
    | .error (.python className) => .error (.python className)

/-- `_read_note`. -/
def readNote (path id version : PyStr) : Except Problem Document := do
  let data ← readBytes w path
  if env.hash data ≠ version then
    throw (lasting "file content differs from the mirrored content hash")
  let (fields, body) ← parse env data
  if (fields.get? env.settings.idKey).any fun carried => strOf env.py carried ≠ id then
    throw (lasting "file note identity differs from the mirrored identity")
  return ⟨.note, id, path, titleOf body path, PyStr.ofText body, version⟩

/-- A generated page of a revision of the source, reviewed and managed. -/
def isProjection (fields : Entries) (id : PyStr) (revision : Int) : Bool :=
  Notes.isTrue (fields.get? "reviewed".toList) && Notes.isTrue (fields.get? "managed".toList) &&
    (fields.get? "source_id".toList).bind str? == some id &&
    (fields.get? "source_revision".toList).any fun value => value.pyEq (.int revision)

/-- A `ValueError` is a fault of a generated page. -/
def valueError : Problem → Problem
  | .python className =>
    if className = "ValueError" then lasting className else .python className
  | problem => problem

/-- What `read_text` makes of bytes that decode. -/
def asText : FileBytes → FileBytes
  | .utf8 text => .utf8 text.newlines
  | .other raw => .other raw

/-- `_read_projection`. -/
def readProjection (path id : PyStr) (revision : Int) : Except Problem Document := do
  let data ← readBytes w path
  let (fields, body) ← (parse env (asText data)).mapError valueError
  if isProjection fields id revision then
    return ⟨.source, id, path, titleOf body path, PyStr.ofText body, sourceVersion revision⟩
  else
    throw (lasting
      "projection is unreviewed, unmanaged, or has a different source identity/revision")

/-- What the record of an artifact is indexed as. -/
def artifactDocument (id : PyStr) (r : ArtifactRecord) : Document :=
  ⟨.artifact, id, r.path.getD [], r.title, indexBody r, searchVersion r.revision r.extractorVersion⟩

end Files

end Coppermind.Search
