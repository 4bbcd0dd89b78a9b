import Coppermind.Filing.Store
import Coppermind.Schema.ClosedTags

/-!
# What a filing pass decides

The parts of `file_note` that are decided from what was read: where a source's page belongs, what
a recorded review approves, the plan and what it carries over from the one before, the text of a
filed page, and the note with its links rewritten.
-/

namespace Coppermind.Filing

open Coppermind.Lib Coppermind.Lib.Text Coppermind.Frontmatter Coppermind.Schema
open Coppermind.Artifacts (Bytes NotePath)
open Coppermind.Notes (FileBytes NoteId Libraries strOf isTrue strLe strValue jsonable jsonableEntries
  idList twoDigits titleOf)
open Coppermind.Reconciler (Review)
open Coppermind.Sources (SourceId pathText withoutSuffix monthFolder ordered)

section Paths

/-- `_FILED_MONTH.fullmatch`. -/
def isFiledMonth (t : Text) : Bool :=
  match t with
  | [a, b, c, d, '-', m, n] =>
    [a, b, c, d].all (fun x => '0' ≤ x && x ≤ '9') &&
      ((m == '0' && '1' ≤ n && n ≤ '9') || (m == '1' && '0' ≤ n && n ≤ '2'))
  | _ => false

/-- `{sources}/{yyyy}/{yyyy-mm}`. -/
def sourcesMonth (sourcesFolder month : Text) : Text :=
  sourcesFolder ++ '/' :: month.take 4 ++ '/' :: month

/-- `filed_source_path`. -/
def filedSourcePath (sourcesFolder : Text) (manifest : Manifest) (id : SourceId) (month : Text) :
    NotePath :=
  match manifest.filedProjectionPath with
  | none => ⟨sourcesMonth sourcesFolder month, id ++ ".md".toList⟩
  | some filed =>
    let (folder, filedMonth) := (Naming.rpartition? '/' filed.folder).getD ([], filed.folder)
    if folder = sourcesFolder ∧ isFiledMonth filedMonth = true then
      ⟨sourcesMonth sourcesFolder filedMonth, filed.name⟩
    else filed

/-- `rendered_note_folder`. -/
def renderedNoteFolder (env : Env) (day : Date) : Text :=
  Naming.orElse (Naming.sanitizeFolder env.unicode env.notesFolder) "Notes".toList ++
    '/' :: monthFolder env.lib.py.padsYears day

/-- `day.strftime("%Y-%m")`. -/
def monthOf (pads : Bool) (day : Date) : Text :=
  (Notes.yearDigits pads day.year ++ "-" ++ twoDigits day.month).toList

/-- `note.path.startswith(folder + "/")`. -/
def isUnder (folder : Text) (path : NotePath) : Bool :=
  (folder ++ ['/']).isPrefixOf (pathText path)

/-- `sorted` of paths. -/
def sortedPaths (paths : List NotePath) : List NotePath :=
  paths.dedup.insertionSort fun p q =>
    strLe (PyStr.ofText (pathText p)) (PyStr.ofText (pathText q))

end Paths

/-- A note as `get_note` returns it. -/
structure Document where
  path : NotePath
  frontmatter : Entries
  body : Text
  contentHash : PyStr
  sources : List PyStr

section Reading

variable (env : Env)

/-- `_recover_id_from_raw`. -/
def recoverId (text : Text) : Option PyStr :=
  match split text with
  | .error _ => none
  | .ok s =>
    if !s.block.notBlank then none
    else
      (Notes.bareLines s.block).findSome? fun line =>
        let line := line.takeWhile (· ≠ '#')
        if env.schema.roles.idKey.isPrefixOf line then
          match (line.drop env.schema.roles.idKey.length).dropWhile isSpace with
          | ':' :: value =>
            if value = [] then none
            else
              let value := strip value
              let quoted := 2 ≤ value.length && value.head? == value.getLast? &&
                (value.head? == some '"' || value.head? == some '\'')
              some (PyStr.ofText (if quoted then (value.drop 1).dropLast else value))
          | _ => none
        else none

/-- `_parse`: the bytes of a located note, which have to be that note's. -/
def parseNote (id : NoteId) (data : FileBytes) : Except Raised (Entries × Text) :=
  match data with
  | .other _ => .error .noteUnparseable
  | .utf8 text =>
    match Notes.parse env.lib.yaml text with
    | .error (.python className) => .error (.python className)
    | .error (.frontmatter _) =>
      if (recoverId env text).any (· ≠ id) then .error .notFound else .error .noteUnparseable
    | .ok (frontmatter, body) =>
      match present? frontmatter env.schema.roles.idKey with
      | some carried =>
        if strOf env.lib.py carried = id then .ok (frontmatter, body) else .error .notFound
      | none => .ok (frontmatter, body)

/-- `note.sources` of a frontmatter. -/
def sourcesOf (frontmatter : Entries) : List PyStr :=
  match frontmatter.get? env.schema.roles.sourcesKey with
  | some (.seq _ items) => items.map (strOf env.lib.py)
  | _ => []

/-- The document of a note's bytes. -/
def documentOf (path : NotePath) (data : FileBytes) (frontmatter : Entries) (body : Text) :
    Document where
  path
  frontmatter := jsonableEntries env.lib.py frontmatter []
  body
  contentHash := env.lib.hash data
  sources := sourcesOf env frontmatter

/-- `note.frontmatter.get(reviewed_key) is True`. -/
def isReviewed (frontmatter : Entries) : Bool :=
  isTrue (frontmatter.get? env.schema.roles.reviewedKey)

/-- Bytes that `get_note` answers as this note, marked reviewed. -/
def marks (id : NoteId) (data : FileBytes) : Bool :=
  match parseNote env id data with
  | .ok (frontmatter, _) => isReviewed env (jsonableEntries env.lib.py frontmatter [])
  | .error _ => false

/-- `date_field_problem` is one. -/
def dateProblem (frontmatter : Entries) : Option String :=
  let raw := frontmatter.get? env.schema.roles.dateKey
  let blank := match raw with
    | none | some .null => true
    | some (.str s) => strip s = []
    | some (.surrogateStr points) => stripStr points = []
    | some _ => false
  let parsed := parseNoteTime env.lib.py raw
  if !blank && parsed.hasOffset then
    some "must be a local date or date-and-time without a UTC offset"
  else if !blank && (!parsed.valid || parsed.dateValue.isNone) then some "expected a valid date"
  else if (parseNoteTime env.lib.py (frontmatter.get? "time".toList)).hasOffset then
    some "time must be a local datetime without a UTC offset"
  else none

def dayOf (frontmatter : Entries) : Option Date :=
  noteDate env.lib.py env.schema.roles.dateKey frontmatter

/-- The day a note is filed under, checked the way `file_note` does. -/
def filingDay (frontmatter : Entries) : Except Raised Date :=
  match dateProblem env frontmatter with
  | some problem => .error (.valueError problem)
  | none =>
    let legacy := parseNoteTime env.lib.py (frontmatter.get? "time".toList)
    if (frontmatter.get? env.schema.roles.typeKey).any (·.isText "work".toList) && legacy.present &&
        !legacy.valid then
      .error (.valueError "enter a valid local meeting time")
    else
      match dayOf env frontmatter with
      | none => .error (.valueError "a note date is required in date")
      | some day => .ok day

/-- A source identity, as text. -/
def sourceId? (source : PyStr) : Option SourceId :=
  let id := source.map Char.ofNat
  if source.encodable && Artifacts.isValidId id then some id else none

/-- `sorted(set(note.sources))`. -/
def sortedSources (sources : List PyStr) : List PyStr :=
  sources.dedup.insertionSort fun s t => strLe s t

/-- The identities of `sorted(set(note.sources))`, each a valid one. -/
def sourceIds (sources : List PyStr) : Except Raised (List SourceId) :=
  (sortedSources sources).mapM fun source =>
    match sourceId? source with
    | some id => .ok id
    | none => .error (.valueError "invalid source identity")

/-- The manifest of each source. -/
def manifestsOf (w : World) (ids : List SourceId) : Except Raised (List (SourceId × Manifest)) :=
  ids.mapM fun id =>
    match w.manifests.lookup id with
    | some m => .ok (id, m)
    | none => .error .osError

end Reading

section Approval

variable (env : Env)

/-- The record of a review where there is none: what the plan filed, else what is current. -/
def impliedReview (plan : Option Plan) (manifests : List (SourceId × Manifest)) : Review where
  reviewed := true
  sources :=
    match plan.bind (·.sources) with
    | some items => items.map fun item => (PyStr.ofText item.id, some item.revision)
    | none => manifests.map fun m => (PyStr.ofText m.1, some m.2.currentRevision)

/-- `review["sources"].get(source_id)`. -/
def approvedIn (review : Review) (id : SourceId) : Option Nat :=
  World.approvedFor (some review) (PyStr.ofText id)

/-- A source's current revision is not the approved one, or the review was taken back. -/
def isUnapproved (review : Review) (manifests : List (SourceId × Manifest)) : Bool :=
  !review.reviewed || manifests.any fun m => approvedIn review m.1 != some m.2.currentRevision

/-- `set(note.sources) == {item["id"] for item in …}`. -/
def sameSources (sources : List PyStr) (items : List Item) : Bool :=
  sources.all (fun s => items.any fun item => PyStr.ofText item.id == s) &&
    items.all fun item => PyStr.ofText item.id ∈ sources

/-- `same_filing`. -/
def isSameFiling (plan : Option Plan) (folder : Text) (note : Document) : Bool :=
  plan.any fun plan =>
    plan.complete && plan.folder == some folder && isUnder folder note.path &&
      sameSources note.sources (plan.sources.getD [])

/-- Every page of the plan is where it belongs, at its current revision. -/
def isInPlace (month : Text) (plan : Option Plan) (manifests : List (SourceId × Manifest)) : Bool :=
  ((plan.bind (·.sources)).getD []).all fun item =>
    ((manifests.find? (·.1 == item.id)).map (·.2)).any fun m =>
      item.revision == m.currentRevision && item.target == m.projectionPath &&
        filedSourcePath env.sourcesFolder m item.id month == m.projectionPath

/-- `hand_moved_from`. -/
def handMovedFrom (plan : Option Plan) (folder : Text) (note : Document) : Option NotePath :=
  match plan with
  | none => none
  | some plan =>
    if plan.folder = some folder then
      if plan.complete && !isUnder folder note.path then some note.path else plan.handMovedFrom
    else none

end Approval

section Planning

variable (env : Env)

/-- The item a plan has for a source. -/
def Plan.item? (plan : Option Plan) (id : SourceId) : Option Item :=
  ((plan.bind (·.sources)).getD []).find? (·.id == id)

/-- The item of a rebuilt plan: every path the note may still link to stays outstanding. -/
def rebuiltItem (plan : Option Plan) (month : Text) (id : SourceId) (m : Manifest) : Item :=
  let previous := Plan.item? plan id
  let oldPath := m.projectionPath
  let linkFrom := (previous.map fun p => p.linkFrom.getD p.origin).getD oldPath
  { id
    origin := oldPath
    linkFrom := some linkFrom
    linkFroms := sortedPaths ([linkFrom, oldPath] ++
      ((previous.map fun p => [p.origin, p.target] ++ p.linkFroms).getD []))
    target := filedSourcePath env.sourcesFolder m id month
    revision := m.currentRevision }

/-- The plan rebuilt from the manifests. -/
def rebuiltPlan (plan : Option Plan) (month folder : Text) (note : Document)
    (manifests : List (SourceId × Manifest)) : Plan where
  month := some month
  folder := some folder
  sources := some (manifests.map fun m => rebuiltItem env plan month m.1 m.2)
  complete := false
  attempts := (plan.map (·.attempts)).getD 0
  copies := (plan.map (·.copies)).getD []
  handMovedFrom := handMovedFrom plan folder note
  targetFolder := none
  contentHash := none
  error := none

/-- The plan with a copy of the note's bytes. -/
def Plan.remember (plan : Plan) (copy : Copy) : Plan :=
  if plan.copies.getLast? = some copy then plan else { plan with copies := plan.copies ++ [copy] }

def Plan.items (plan : Plan) : List Item := plan.sources.getD []

/-- The plan of a filing that is done. -/
def Plan.completed (plan : Plan) (note : Document) : Plan :=
  { plan with
    complete := true, contentHash := some note.contentHash, error := none, handMovedFrom := none }

/-- `_settle`: the plan without what only a filing in flight needs. -/
def Plan.settled (plan : Plan) : Plan := { plan with error := none, copies := [] }

end Planning

section Page

variable (env : Env)

/-- A page, parsed to be written again. -/
def parsePage (data : FileBytes) : Except Raised (Mapping × Text) :=
  match data with
  | .other _ => .error (.python "UnicodeDecodeError")
  | .utf8 text =>
    match (split text).mapError Frontmatter.Raised.frontmatter with
    | .error e => .error (.frontmatter e)
    | .ok s =>
      match parseBlock env.lib.yaml s.block with
      | .error e => .error (.frontmatter e)
      | .ok m => .ok (m, s.body)

/-- The page is the managed one of the source, at a revision. -/
def isProjection (id : SourceId) (revision : Nat) (m : Mapping) : Bool :=
  (m.entries.get? "source_id".toList).any (·.pyEq (.str id)) &&
    (m.entries.get? "source_revision".toList).any (·.pyEq (.int revision)) &&
    isTrue (m.entries.get? "managed".toList)

/-- The section of a page that links its filed attachments. -/
def attachmentSection (paths : List NotePath) : Text :=
  "\n\n## Filed attachments\n\n".toList ++
    [lf].intercalate (paths.map fun path => "[[".toList ++ pathText path ++ "]]".toList) ++ [lf]

/-- The body of a filed page. -/
def filedBody (body : Text) (paths : List NotePath) : Text :=
  if paths = [] ∨ attachmentSection paths <:+: body then body
  else body ++ attachmentSection paths

/-- The text of a filed page. -/
def filedPage (m : Mapping) (body : Text) (paths : List NotePath) : Except Raised Text :=
  (compose env.lib.yaml (m.set "reviewed".toList (.bool true)) (filedBody body paths)).mapError
    .frontmatter

/-- Text already appears in the page, and audio stays in the archive. -/
def isAttachment (entry : Sources.ArtifactEntry) : Bool :=
  !("text/".toList.isPrefixOf entry.mimeType || "audio/".toList.isPrefixOf entry.mimeType)

/-- `Path(name).name != name or "\\" in name`. -/
def isInvalidFilename (name : Text) : Bool :=
  '/' ∈ name || '\\' ∈ name || name == ['.']

/-- `_manifest_revision`. -/
def manifestRevision (m : Manifest) (revision : Nat) : Except Raised Sources.Revision :=
  match m.revisions.filter (·.revision == revision) with
  | [r] => .ok r
  | _ => .error .sourcesFilesystemUnavailable

/-- The artifact a source's artifact is filed as already. -/
def filedArtifact? (s : Artifacts.Store) (source : SourceId × Text) : Option Artifacts.Id :=
  ((s.rows.entries.find? fun r => r.2.source == some source).map (·.1)).or
    ((((s.archives.entries.map fun a => (a.1, a.2.manifest)).insertionSort fun a b =>
        strLe (PyStr.ofText a.1) (PyStr.ofText b.1)).find? fun a =>
      a.2.any fun m => m.source == some source && m.removedAt.isNone).map (·.1))

/-- `mime_type.partition(";")[0].strip().lower()`. -/
def bareMime (mime : Text) : Text := (strip (mime.takeWhile (· ≠ ';'))).map Char.toLower

/-- `file_source_artifact`, in the artifact archive. -/
def fileSourceArtifact (id : SourceId) (name provider mime : Text) (data : Bytes)
    (receivedAt : Notes.Instant) : Artifacts.Op Artifacts.CreatedArtifact := do
  let existing := filedArtifact? (← get) (id, name)
  Artifacts.storeRevision env.artifacts none (env.draw id name) existing
    { title := Artifacts.pathStem name, origin := "source:".toList ++ provider, receivedAt, tags := []
      source := some (id, name) }
    (.file (Artifacts.artifactFilename env.artifacts name) (bareMime mime) data)

end Page

section Rewriting

variable (env : Env)

/-- The loop of `str.replace`; the first argument counts the characters of an occurrence that are
still to be skipped. -/
def replaceFrom (old new : Text) : Nat → Text → Text
  | _, [] => []
  | skip + 1, _ :: t => replaceFrom old new skip t
  | 0, c :: t =>
    if old.isPrefixOf (c :: t) then new ++ replaceFrom old new (old.length - 1) t
    else c :: replaceFrom old new 0 t

/-- `body.replace(old, new)`. -/
def replaceAll (body old new : Text) : Text := replaceFrom old new 0 body

/-- `f"[[{path.removesuffix('.md')}]]"`. -/
def wikiLink (path : NotePath) : Text :=
  "[[".toList ++ withoutSuffix (pathText path) ++ "]]".toList

/-- The paths of an item that the note may link to. -/
def Item.oldLinks (item : Item) : List NotePath :=
  (item.linkFrom.getD item.origin :: item.origin :: item.linkFroms).dedup

/-- The body with every link to an earlier path of a page rewritten to the filed one. -/
def relinked (items : List Item) (body : Text) : Text :=
  items.foldl (fun body item =>
    item.oldLinks.foldl (fun body old => replaceAll body (wikiLink old) (wikiLink item.target)) body)
    body

/-- The identifiers a frontmatter cites as artifacts. -/
def citedArtifacts (frontmatter : Entries) : List PyStr :=
  (((frontmatter.get? env.schema.artifactsKey).bind items?).getD []).filterMap str?

/-- The frontmatter with the filed artifacts cited. -/
def withArtifacts (frontmatter : Entries) (added : List PyStr) : Entries :=
  if added = [] then frontmatter
  else
    frontmatter.set env.schema.artifactsKey
      (.seq false ((citedArtifacts env frontmatter ++ added).map strValue))

/-- `_terminated`. -/
def terminated (body : Text) : Text :=
  if body = [] ∨ body.getLast? = some lf then body else body ++ [lf]

mutual

/-- A value as JSON writes it: no list has a style. -/
def unstyled : Value → Value
  | .seq _ items => .seq false (unstyledItems items)
  | .map entries => .map (unstyledEntries entries)
  | value => value
termination_by structural value => value

def unstyledItems : List Value → List Value
  | [] => []
  | item :: items => unstyled item :: unstyledItems items
termination_by structural items => items

def unstyledEntries : List (Value × Value) → List (Value × Value)
  | [] => []
  | entry :: rest => unstyledEntry entry :: unstyledEntries rest
termination_by structural entries => entries

def unstyledEntry : Value × Value → Value × Value
  | (key, value) => (key, unstyled value)
termination_by structural entry => entry

end

/-- `json.dumps(_jsonable(v)) == json.dumps(_jsonable(w))`. -/
def sameJson (v w : Value) : Bool :=
  (unstyled (jsonable env.lib.py v)).same (unstyled (jsonable env.lib.py w))

/-- `_keeping_types`. -/
def keepingTypes (frontmatter current : Entries) : Entries :=
  frontmatter.map fun entry =>
    match current.find? fun e => e.1.same entry.1 with
    | some held => if sameJson env entry.2 held.2 then (entry.1, held.2) else entry
    | none => entry

/-- `_replacement_frontmatter`, validated. -/
def replacementFrontmatter (id : NoteId) (frontmatter : Entries) : Except Raised Entries :=
  let idKey := env.schema.roles.idKey
  if (present? frontmatter idKey).any (fun carried => strOf env.lib.py carried ≠ id) then
    .error (.validationFailed
      [PyStr.ofText idKey ++ PyStr.lit ": the identifier of a note cannot be changed"])
  else
    let sent := ordered env.lib.py env.schema (frontmatter.set idKey (strValue id))
    match env.schema.problems env.lib.py sent with
    | [] => .ok sent
    | problems => .error (.validationFailed (problems.map (·.2)))

/-- The frontmatter and the text a replace writes over the current frontmatter. -/
def replacementText (sent current : Entries) (body : Text) : Except Raised (Entries × Text) :=
  match tagProblems env.lib.py env.schema env.closedTags sent (some current) with
  | .error _ => .error (.python "TypeError")
  | .ok [] =>
    let frontmatter := keepingTypes env sent current
    match compose env.lib.yaml ⟨none, frontmatter⟩ (terminated body) with
    | .ok text => .ok (frontmatter, text)
    | .error e => .error (.frontmatter e)
  | .ok problems => .error (.validationFailed problems)

end Rewriting

end Coppermind.Filing
