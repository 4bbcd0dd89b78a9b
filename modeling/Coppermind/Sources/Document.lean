import Coppermind.Sources.Store
import Coppermind.Notes.Folders
import Coppermind.Schema.ClosedTags

/-!
# The note and the page of a source

The frontmatter and the text of the Review note an ingest creates, the text of a source's page,
and the paths the two get in the notes tree.
-/

namespace Coppermind.Sources

open Coppermind.Lib Coppermind.Lib.Text Coppermind.Frontmatter Coppermind.Schema
open Coppermind.Naming
open Coppermind.Artifacts (Bytes NotePath)
open Coppermind.Notes (Instant strValue strOf textOf formatNoteTime defaultNoteTime twoDigits yearDigits)
open Coppermind.Notes.Folders (uniqueStem FolderTree.stemOf)

/-- `not value`. -/
def isFalsy : Option Value → Bool
  | none => true
  | some value =>
    match value with
    | .null => true
    | .bool b => !b
    | .int i => i == 0
    | .float (.finite q) => q == 0
    | .str s => s.isEmpty
    | .seq _ items => items.isEmpty
    | .map entries => entries.isEmpty
    | _ => false

/-- `datetime.combine(day, clock)`. -/
def combine (day : Date) (clock : ClockTime) : DateTime :=
  ⟨day, clock.hour, clock.minute, clock.second, clock.microsecond, none⟩

/-- `date.isoformat()`. -/
def isoDate (d : Date) : Text :=
  let year := toString d.year
  (String.ofList (List.replicate (4 - year.length) '0') ++ year ++ "-" ++ twoDigits d.month ++ "-" ++
    twoDigits d.day).toList

/-- `f"{day:%Y}/{day:%Y-%m}"`. -/
def monthFolder (pads : Bool) (d : Date) : Text :=
  (yearDigits pads d.year ++ "/" ++ yearDigits pads d.year ++ "-" ++ twoDigits d.month).toList

/-- `note_stem`. -/
def noteStem (unicode : Unicode) (title : Text) (noteDate : Option Date) (dated : Bool) : Text :=
  let stem := sanitizeStem unicode title "Untitled".toList
  match noteDate with
  | some day =>
    if dated then
      let before := isoDate day ++ [' ']
      before ++ orElse (fit stem (maxStemLength - before.length) (maxStemBytes - utf8Length before))
        "Untitled".toList
    else stem
  | none => stem

section Values

variable (py : Python)

/-- `normalize_note_time`. -/
def normalizeNoteTime (value : Option Value) (fallbackDate : Option Date) : Value :=
  let parsed := parseNoteTime py value
  let asGiven := match value with
    | none | some .null => .str []
    | some value => strValue (stripStr (strOf py value))
  if !parsed.valid then asGiven
  else
    match parsed.dateValue.or fallbackDate, parsed.timeValue with
    | some day, some clock => .str (formatNoteTime py.padsYears (combine day { clock with microsecond := 0 }))
    | some day, none =>
      if parsed.dateValue.isSome then .str (formatNoteTime py.padsYears (combine day ⟨0, 0, 0, 0, none⟩))
      else asGiven
    | none, some clock =>
      .str (twoDigits clock.hour ++ ":" ++ twoDigits clock.minute ++ ":" ++
        twoDigits clock.second).toList
    | none, none => asGiven

/-- `_date_value`. -/
def dateValue (value : Value) : Value :=
  let parsed := parseNoteTime py (some value)
  if !parsed.valid then value
  else
    match parsed.dateValue, parsed.timeValue with
    | none, _ => value
    | some day, none => .date day
    | some day, some clock => .str (formatNoteTime py.padsYears (combine day clock))

variable (schema : FrontmatterSchema)

/-- The value `_with_kinds` gives a key. -/
def withKind (key : Value) (value : Value) : Value :=
  match key with
  | .str name =>
    if (schema.keys.reverse.find? (·.name == name)).any (·.kind == .date) then dateValue py value
    else if name = schema.roles.tagsKey then
      match value with
      | .seq _ tags => .seq false (schema.normalizeTags tags)
      | _ => value
    else value
  | _ => value

/-- `_with_kinds`. -/
def withKinds (values : Entries) : Entries :=
  values.map fun entry => (entry.1, withKind py schema entry.1 entry.2)

/-- `_ordered`. -/
def ordered (values : Entries) : Entries :=
  let values := withKinds py schema values
  let known : Entries := schema.keys.foldl (fun (ordered : Entries) definition =>
    match present? values definition.name with
    | some value => ordered.set definition.name value
    | none => ordered) []
  known ++ values.filter fun entry => !schema.keys.any fun definition =>
    entry.1.isText definition.name

end Values

section Note

variable (env : Env) (draw : Draw) (request : Request)

/-- The frontmatter of the `CreateNote` an ingest makes. -/
def requestFrontmatter : Entries :=
  (request.noteFrontmatter.set env.schema.roles.sourcesKey (.seq false [.str draw.sourceId])).set
    env.schema.roles.reviewedKey (.bool false)

/-- `_default_note_time`, at the moment of the capture or now. -/
def captureTime : Value :=
  defaultNoteTime env.lib env.schema (env.localTime (request.capturedAt.getD draw.now))
    (requestFrontmatter env draw request)

/-- What `_build_frontmatter` puts under the date's key over the caller's values. -/
def noteDateValue : Option Value :=
  let py := env.lib.py
  let frontmatter := requestFrontmatter env draw request
  let defaults : Entries := env.schema.defaults.map fun d => (.str d.1, d.2)
  let supplied := frontmatter.get? env.schema.roles.dateKey
  let given := parseNoteTime py supplied
  let legacyTime := frontmatter.get? "time".toList
  let legacy := parseNoteTime py legacyTime
  let timeUnknown := frontmatter.get? "time_unknown".toList
  let needsDefault :=
    (isFalsy supplied && isFalsy (defaults.get? env.schema.roles.dateKey) && isFalsy legacyTime) ||
    (!Notes.isTrue timeUnknown && isFalsy legacyTime &&
      (isFalsy supplied || (given.valid && given.timeValue.isNone)))
  if needsDefault then some (captureTime env draw request)
  else if given.valid && given.timeValue.isSome then
    some (normalizeNoteTime py supplied (some (env.localTime draw.now).date))
  else if isFalsy supplied && legacy.valid && legacy.timeValue.isSome then
    some (normalizeNoteTime py legacyTime
      (parseNoteTime py (some (captureTime env draw request))).dateValue)
  else none

/-- `_build_frontmatter`, with `from_ingest=True`. -/
def buildFrontmatter : Entries :=
  let roles := env.schema.roles
  let defaults : Entries := env.schema.defaults.map fun d => (.str d.1, d.2)
  let values := (requestFrontmatter env draw request).foldl (fun values entry =>
    Notes.setStr values ((str? entry.1).getD []) entry.2) defaults
  let values := (noteDateValue env draw request).elim values fun date => values.set roles.dateKey date
  let values := values.set roles.idKey (.str draw.noteId)
  let values :=
    if values.has roles.schemaVersionKey then values else values.set roles.schemaVersionKey (.int 1)
  ordered env.lib.py env.schema values

/-- What the schema has against the note. -/
def noteProblems : Except TypeError (List PyStr) := do
  let frontmatter := buildFrontmatter env draw request
  let refused ← tagProblems env.lib.py env.schema env.closedTags frontmatter none
  return (env.schema.problems env.lib.py frontmatter).map (·.2) ++ refused

/-- `note_date` of the note. -/
def dateOfNote : Option Date :=
  noteDate env.lib.py env.schema.roles.dateKey (buildFrontmatter env draw request)

/-- `existing_stems`: of the files alone. -/
def existingStems (s : Store) (folder : Text) : List Text :=
  s.notes.entries.filterMap fun e =>
    match e.2 with
    | .file _ _ => if e.1.folder = folder then FolderTree.stemOf e.1.name else none
    | .directory => none

/-- `_taken_stems`: of whatever stands at a name. -/
def takenStems (s : Store) (folder : Text) : List Text :=
  (s.notes.keys.filter (·.folder = folder)).filterMap fun path => FolderTree.stemOf path.name

/-- Where the Review note goes, over the tree it finds. -/
def notePath (s : Store) : Option NotePath :=
  let frontmatter := buildFrontmatter env draw request
  let folder := sanitizeFolder env.unicode env.reviewFolder
  let noteType := textOf (frontmatter.get? env.schema.roles.typeKey)
  let dated := noteType.any (· ∈ env.datedTypes)
  let stem := noteStem env.unicode request.noteTitle (dateOfNote env draw request) dated
  (uniqueStem env.unicode stem (existingStems s folder)).map fun stem => ⟨folder, stem ++ ".md".toList⟩

/-- `path` as text. -/
def pathText (path : NotePath) : Text :=
  if path.folder = [] then path.name else path.folder ++ '/' :: path.name

/-- `path.removesuffix(".md")`. -/
def withoutSuffix (t : Text) : Text :=
  if ".md".toList.isSuffixOf t then t.take (t.length - 3) else t

/-- `body_with_link`: the body of the Review note, with the link to the page at `path`. -/
def bodyWithLink (path : NotePath) : Text :=
  "# ".toList ++ request.noteTitle ++ "\n\n[[".toList ++ withoutSuffix (pathText path) ++
    "]]\n".toList ++ request.noteBody.dropWhile (· = lf)

/-- The text of the Review note, with the link to the page at `path`. -/
def noteText (path : NotePath) : Except Frontmatter.Raised Text :=
  compose env.lib.yaml ⟨none, buildFrontmatter env draw request⟩ (bodyWithLink request path)

end Note

section Page

variable (env : Env)

/-- `new_projection_path`. -/
def newProjectionPath (s : Store) (title : Text) (noteDate : Date) : Option NotePath :=
  let folder := env.sourcesFolder ++ "/_Pending/".toList ++ monthFolder env.lib.py.padsYears noteDate
  let stem := noteStem env.unicode title (some noteDate) true
  (uniqueStem env.unicode stem (takenStems s folder)).map fun stem => ⟨folder, stem ++ ".md".toList⟩

/-- The lines of one artifact on the page. -/
def artifactLines (entry : ArtifactEntry) (data : Bytes) : List Text :=
  ["### ".toList ++ entry.name, [],
    match env.artifactText data entry.mimeType with
    | some text => text.rdropWhile isSpace
    | none => "Binary artifact: ".toList ++ entry.mimeType ++ ", ".toList ++
        (toString entry.sizeBytes).toList ++ " bytes, SHA-256 ".toList ++ entry.sha256,
    []]

def pageFrontmatter (sourceId : SourceId) (revision : Nat) (ingestedAt : Instant) : Entries :=
  [(.str "schema_version".toList, .int 1), (.str "managed".toList, .bool true),
    (.str "source_id".toList, .str sourceId), (.str "source_revision".toList, .int revision),
    (.str "revision_ingested_at".toList,
      strValue (env.lib.py.isoformat (.datetime (env.localTime ingestedAt))))]

/-- `_document`. -/
def pageText (sourceId : SourceId) (revision : Nat) (title : Text) (ingestedAt : Instant)
    (artifacts : List (ArtifactEntry × Bytes)) : Except Frontmatter.Raised Text :=
  let lines := ["# ".toList ++ title ++ " (source)".toList, [], "## Artifacts".toList, []] ++
    artifacts.flatMap fun a => artifactLines env a.1 a.2
  compose env.lib.yaml ⟨none, pageFrontmatter env sourceId revision ingestedAt⟩
    (([lf].intercalate lines).rdropWhile isSpace ++ [lf])

/-- The revision a text projects for a source. -/
def revisionOfText (sourceId : SourceId) (text : Text) : Option Int :=
  match Notes.parse env.lib.yaml text with
  | .error _ => none
  | .ok (frontmatter, _) =>
    match frontmatter.get? "managed".toList, frontmatter.get? "source_id".toList,
        frontmatter.get? "source_revision".toList with
    | some (.bool true), some (.str id), some revision =>
      if id = sourceId then
        match revision with
        | .int i => some i
        | .bool b => some (if b then 1 else 0)
        | _ => none
      else none
    | _, _, _ => none

end Page

section Identity

variable (env : Env)

/-- `artifact_metadata`. -/
def artifactEntry (artifact : Artifact) : ArtifactEntry where
  name := artifact.name
  mimeType := artifact.mimeType
  sha256 := env.sha256 artifact.data
  sizeBytes := artifact.data.length

/-- The pairs `_content_identity` sorts. -/
def pairLe (a b : Text × Text) : Bool :=
  let strLe := fun s t => Notes.strLe (PyStr.ofText s) (PyStr.ofText t)
  if a.1 = b.1 then strLe a.2 b.2 else strLe a.1 b.1

/-- `_content_identity`. -/
def contentIdentity (artifacts : List ArtifactEntry) : Text :=
  let pairs := (artifacts.map fun a => (a.name, a.sha256)).insertionSort fun a b => pairLe a b
  env.sha256 (env.dumps (.seq false (pairs.map fun p => .seq false [.str p.1, .str p.2])))

/-- The name of the claim file, `_external_id_claim_path`. -/
def claimName (provider externalSourceId : Text) : Text :=
  ".external-id-".toList ++
    env.sha256 (env.dumps (.seq false [.str provider, .str externalSourceId])) ++ ".json".toList

end Identity

end Coppermind.Sources
