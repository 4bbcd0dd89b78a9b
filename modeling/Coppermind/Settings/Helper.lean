import Coppermind.Settings.Product
import Coppermind.Sources.Document
import Coppermind.Filing.Plan

/-!
# The Git helper's view of the settings

The helper reads its own section and the two folder names it keeps out of history.  It converts
nothing: a value of another type stops it, and it keeps the settings that last worked.  Whenever
it does load an accepted file it means what the model means, and the pages the store generates
under these settings stay out of history.
-/

namespace Coppermind.Settings

open Coppermind.Lib Coppermind.Lib.Text Coppermind.Frontmatter Coppermind.Naming
open Coppermind.Schema (str? stripStr isWhite)
open Coppermind.Artifacts (NotePath)
open Coppermind.Sources (pathText newProjectionPath)

/-- `HelperSettings`. -/
structure HelperSettings where
  enabled : Bool := true
  debounceS : Int := 60
  pollIntervalS : Int := 300
  identityName : PyStr := PyStr.lit "Coppermind"
  identityEmail : PyStr := PyStr.lit "coppermind@localhost"
  gcAuto : Bool := true
  sourcesFolder : PyStr := PyStr.lit "_Sources"
  trashFolder : PyStr := PyStr.lit "_Trash"
deriving DecidableEq, Repr

/-- A `SettingsError`: its text. -/
abbrev SettingsError := Text

section Values

/-- `_section`. -/
def sectionOf (document : Entries) (name : Text) : Except SettingsError Entries :=
  match Entries.get? name document with
  | none | some .null => .ok []
  | some (.map entries) => .ok entries
  | some _ => .error (name ++ ": expected a mapping".toList)

variable (entries : Entries) (dotted : Text)

/-- `dotted.split(".", 1)[1]`. -/
def keyOf : Text := (dotted.dropWhile (· != '.')).tail

/-- `_value`. -/
def valueOf (default : Value) : Value :=
  match Entries.get? (keyOf dotted) entries with
  | none | some .null => default
  | some value => value

/-- `_flag`. -/
def flag (default : Bool) : Except SettingsError Bool :=
  match valueOf entries dotted (.bool default) with
  | .bool b => .ok b
  | _ => .error (dotted ++ ": expected true or false".toList)

/-- `_seconds`. -/
def seconds (default : Int) : Except SettingsError Int :=
  let refused := dotted ++ ": expected a whole number of seconds, at least 1".toList
  match valueOf entries dotted (.int default) with
  | .int i => if i < 1 then .error refused else .ok i
  | _ => .error refused

/-- `_line`. -/
def line (default : Text) : Except SettingsError PyStr :=
  let refused := dotted ++ ": expected a non-empty single line of text".toList
  match str? (valueOf entries dotted (.str default)) with
  | some s =>
    if stripStr s = [] ∨ lf.toNat ∈ s ∨ cr.toNat ∈ s then .error refused else .ok (stripStr s)
  | none => .error refused

/-- `value.strip("/")`. -/
def stripSlash (s : PyStr) : PyStr :=
  (s.dropWhile (· == PyStr.slash)).rdropWhile (· == PyStr.slash)

/-- `part.strip() in {"", ".", ".."}`. -/
def namesNothing (part : PyStr) : Bool :=
  stripStr part ∈ [[], PyStr.lit ".", PyStr.lit ".."]

/-- `_folder`. -/
def folder (default : Text) : Except SettingsError PyStr :=
  match line entries dotted default with
  | .error refused => .error refused
  | .ok value =>
    if ((stripSlash value).splitOn PyStr.slash).any namesNothing then
      .error (dotted ++ ": expected a folder inside the notes filesystem".toList)
    else .ok (stripSlash value)

end Values

/-- The settings of a loaded document. -/
def fromDocument (document : Entries) : Except SettingsError HelperSettings := do
  let git ← sectionOf document "git".toList
  let notes ← sectionOf document "notes".toList
  let enabled ← flag git "git.enabled".toList true
  let debounceS ← seconds git "git.debounce_s".toList 60
  let pollIntervalS ← seconds git "git.poll_interval_s".toList 300
  let identityName ← line git "git.identity_name".toList "Coppermind".toList
  let identityEmail ← line git "git.identity_email".toList "coppermind@localhost".toList
  let gcAuto ← flag git "git.gc_auto".toList true
  let sourcesFolder ← folder notes "notes.sources_folder".toList "_Sources".toList
  let trashFolder ← folder notes "notes.trash_folder".toList "_Trash".toList
  return ⟨enabled, debounceS, pollIntervalS, identityName, identityEmail, gcAuto, sourcesFolder,
    trashFolder⟩

/-- `load`, with the file's name in the texts of the errors. -/
def load (yaml : Text → Except Text Value) (name : Text) :
    ReadText → Except SettingsError HelperSettings
  | .missing => .ok {}
  | .failed reason => .error (name ++ " could not be read: ".toList ++ reason)
  | .text t =>
    match yaml t with
    | .error reason => .error (name ++ " is not valid YAML: ".toList ++ reason)
    | .ok .null => .ok {}
    | .ok (.map document) => fromDocument document
    | .ok _ => .error (name ++ " is not a mapping".toList)

/-- `kept_out`. -/
def keptOut (settings : HelperSettings) : List PyStr :=
  [PyStr.lit ".obsidian", PyStr.lit ".trash", stripSlash settings.sourcesFolder,
    stripSlash settings.trashFolder]

/-- The path lies under a folder that never enters history. -/
def KeptOut (settings : HelperSettings) (path : Text) : Prop :=
  ∃ name ∈ keptOut settings, name ++ [PyStr.slash] <+: PyStr.ofText path

/-- The path lies below a folder as the store reads the folder's name, level by level. -/
def Below (name path : Text) : Prop :=
  ∃ rest, rest ≠ [] ∧ path = ['/'].intercalate ((name.splitOn '/').filter (· ≠ []) ++ rest)

end Coppermind.Settings
