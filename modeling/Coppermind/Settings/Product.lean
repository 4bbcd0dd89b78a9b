import Coppermind.Naming
import Coppermind.Frontmatter.Value
import Coppermind.Schema.Keys

/-!
# The product settings

`settings.yaml` becomes `ProductSettings` through a model that coerces: what it makes of a value
for a flag, a number or a text is `Lax`.  Of the sections, the notes layout and the Git history
are read in full; of the others only whether they are accepted.
-/

namespace Coppermind.Settings

open Coppermind.Lib Coppermind.Lib.Text Coppermind.Frontmatter Coppermind.Naming

/-- What validation makes of a loaded value for a field of each type, none where it refuses. -/
structure Lax where
  bool : Value → Option Bool
  int : Value → Option Int
  str : Value → Option Text
  strList : Value → Option (List Text)

/-- A value of the field's own type is kept as it is, and nothing is made of a null; a text is
never a string with a lone surrogate. -/
structure Lax.Faithful (lax : Lax) : Prop where
  bool_bool : ∀ b, lax.bool (.bool b) = some b
  int_int : ∀ i, lax.int (.int i) = some i
  str_str : ∀ t, lax.str (.str t) = some t
  bool_null : lax.bool .null = none
  int_null : lax.int .null = none
  str_null : lax.str .null = none
  str_surrogate : ∀ points, lax.str (.surrogateStr points) = none

structure Env where
  unicode : Unicode
  lax : Lax
  /-- `int(value)`, none where it raises. -/
  pyInt : Value → Option Int
  /-- What a document's text loads to, or the error's text; the loaders agree on it. -/
  yaml : Text → Except Text Value
  /-- Whether the value of one of the other sections is accepted. -/
  accepts : Text → Value → Bool

/-- What reading the file gives. -/
inductive ReadText where
  | missing
  | failed (reason : Text)
  | text (t : Text)

/-- `NotesSettings`. -/
structure NotesSettings where
  notesFolder : Text := "Notes".toList
  reviewFolder : Text := "Review".toList
  trashFolder : Text := "_Trash".toList
  sourcesFolder : Text := "_Sources".toList
  artifactsFolder : Text := "Artifacts".toList
  attachmentsFolder : Text := "_Attachments".toList
  journalFolder : Text := "Journal".toList
  datedTypes : List Text := ["work".toList, "journal".toList]
deriving DecidableEq, Repr

/-- `GitSettings`. -/
structure GitSettings where
  enabled : Bool := true
  debounceS : Int := 60
  pollIntervalS : Int := 300
  identityName : Text := "Coppermind".toList
  identityEmail : Text := "coppermind@localhost".toList
  gcAuto : Bool := true
deriving DecidableEq, Repr

/-- `ProductSettings`, with the two sections the Git helper shares. -/
structure ProductSettings where
  schemaVersion : Int := 1
  notes : NotesSettings := {}
  git : GitSettings := {}
deriving DecidableEq, Repr

section Fields

variable {α : Type}

/-- A field: its default when the section does not hold it, else what validation makes of it. -/
def field (entries : Entries) (name : Text) (default : α) (validate : Value → Option α) :
    Option α :=
  match entries.get? name with
  | none => some default
  | some value => validate value

/-- `extra="forbid"`. -/
def onlyKeys (names : List Text) (entries : Entries) : Bool :=
  entries.all fun entry => names.any fun name => entry.1.isText name

/-- A nested model, which only a mapping validates to. -/
def nested (validate : Entries → Option α) : Value → Option α
  | .map entries => validate entries
  | _ => none

end Fields

section Notes

/-- `validate_artifacts_folder` and `validate_sources_folder`: a folder that is spelled the way
the notes filesystem will hold it. -/
def portableFolder (unicode : Unicode) (value : Text) : Option Text :=
  let portable := sanitizeFolder unicode value
  if portable = [] then none
  else if portable ≠ value then none
  else some value

/-- `validate_notes_folder`. -/
def validateNotesFolder (unicode : Unicode) (value : Text) : Option Text :=
  let portable := sanitizeFolder unicode value
  if portable = [] ∨ (portable.splitOn '/').any (·.head? == some '.') then none
  else if portable ≠ value then none
  else some value

/-- `validate_notes_folder_does_not_collide`. -/
def collides (unicode : Unicode) (notes : NotesSettings) : Bool :=
  let notesRoot := unicode.casefold (sanitizeFolder unicode notes.notesFolder)
  let reserved := [notes.reviewFolder, notes.trashFolder, notes.sourcesFolder,
    notes.attachmentsFolder, notes.artifactsFolder, notes.journalFolder, "Dropbox".toList]
  reserved.any fun candidate =>
    let other := unicode.casefold (sanitizeFolder unicode candidate)
    other != [] &&
      (notesRoot == other || (other ++ ['/']).isPrefixOf notesRoot ||
        (notesRoot ++ ['/']).isPrefixOf other)

def notesKeys : List Text :=
  ["notes_folder".toList, "review_folder".toList, "trash_folder".toList, "sources_folder".toList,
    "artifacts_folder".toList, "attachments_folder".toList, "journal_folder".toList,
    "dated_types".toList]

def NotesSettings.validate (env : Env) (entries : Entries) : Option NotesSettings := do
  guard (onlyKeys notesKeys entries)
  let shipped : NotesSettings := {}
  let notesFolder ← field entries "notes_folder".toList shipped.notesFolder fun value =>
    (env.lax.str value).bind (validateNotesFolder env.unicode)
  let reviewFolder ← field entries "review_folder".toList shipped.reviewFolder env.lax.str
  let trashFolder ← field entries "trash_folder".toList shipped.trashFolder env.lax.str
  let sourcesFolder ← field entries "sources_folder".toList shipped.sourcesFolder fun value =>
    (env.lax.str value).bind (portableFolder env.unicode)
  let artifactsFolder ← field entries "artifacts_folder".toList shipped.artifactsFolder fun value =>
    (env.lax.str value).bind (portableFolder env.unicode)
  let attachmentsFolder ←
    field entries "attachments_folder".toList shipped.attachmentsFolder env.lax.str
  let journalFolder ← field entries "journal_folder".toList shipped.journalFolder env.lax.str
  let datedTypes ← field entries "dated_types".toList shipped.datedTypes env.lax.strList
  let notes : NotesSettings := ⟨notesFolder, reviewFolder, trashFolder, sourcesFolder,
    artifactsFolder, attachmentsFolder, journalFolder, datedTypes⟩
  guard (!collides env.unicode notes)
  some notes

end Notes

section Git

/-- `ge=1`. -/
def atLeastOne (i : Int) : Option Int := if 1 ≤ i then some i else none

/-- `validate_identity`. -/
def validateIdentity (value : Text) : Option Text :=
  if strip value = [] then none else some value

def gitKeys : List Text :=
  ["enabled".toList, "debounce_s".toList, "poll_interval_s".toList, "identity_name".toList,
    "identity_email".toList, "gc_auto".toList]

def GitSettings.validate (env : Env) (entries : Entries) : Option GitSettings := do
  guard (onlyKeys gitKeys entries)
  let shipped : GitSettings := {}
  let enabled ← field entries "enabled".toList shipped.enabled env.lax.bool
  let debounceS ← field entries "debounce_s".toList shipped.debounceS fun value =>
    (env.lax.int value).bind atLeastOne
  let pollIntervalS ← field entries "poll_interval_s".toList shipped.pollIntervalS fun value =>
    (env.lax.int value).bind atLeastOne
  let identityName ← field entries "identity_name".toList shipped.identityName fun value =>
    (env.lax.str value).bind validateIdentity
  let identityEmail ← field entries "identity_email".toList shipped.identityEmail fun value =>
    (env.lax.str value).bind validateIdentity
  let gcAuto ← field entries "gc_auto".toList shipped.gcAuto env.lax.bool
  some ⟨enabled, debounceS, pollIntervalS, identityName, identityEmail, gcAuto⟩

end Git

section Document

variable (env : Env)

/-- The sections of which only the acceptance is read. -/
def otherSections : List Text :=
  ["general".toList, "reconcile".toList, "sync".toList, "curator".toList, "indexer".toList,
    "retention".toList, "events".toList, "limits".toList, "admin".toList]

/-- `ProductSettings.model_validate`. -/
def ProductSettings.validate (document : Entries) : Option ProductSettings := do
  guard (onlyKeys ("schema_version".toList :: "notes".toList :: "git".toList :: otherSections)
    document)
  let shipped : ProductSettings := {}
  let schemaVersion ← field document "schema_version".toList shipped.schemaVersion env.lax.int
  let notes ← field document "notes".toList shipped.notes (nested (NotesSettings.validate env))
  let git ← field document "git".toList shipped.git (nested (GitSettings.validate env))
  guard (otherSections.all fun name => ((document.get? name).map (env.accepts name)).getD true)
  some ⟨schemaVersion, notes, git⟩

/-- `StateStore.read("settings")` and `read_settings`: the settings of an accepted file. -/
def readSettings : ReadText → Option ProductSettings
  | .text t =>
    match env.yaml t with
    | .ok (.map document) => do
      let _revision ← env.pyInt ((Entries.get? "revision".toList document).getD (.int 1))
      ProductSettings.validate env (Entries.pop "revision".toList document)
    | _ => none
  | _ => none

end Document

end Coppermind.Settings
