import Coppermind.Filing.Lossless
import Coppermind.Filing.Published

/-!
# A read and a replace

`replace_note` with exactly what `get_note` returned, at its version.  The frontmatter it writes
has the keys of the file in the order of the schema, each with what `rewritten` makes of its value,
and a second read and replace writes the same bytes.
-/

namespace Coppermind.Filing

open Coppermind.Lib Coppermind.Lib.Text Coppermind.Lib.Task Coppermind.Frontmatter Coppermind.Schema
open Coppermind.Artifacts (NotePath isValidId)
open Coppermind.Notes (FileBytes NoteId JsonKey IsString WritesCodes strOf strValue jsonable
  jsonableEntries jsonableEntries_eq jsonable_strValue strValue_cases)
open Coppermind.Sources

section Entries

/-- A mapping with text keys: no key holds a NUL, and none stands twice. -/
structure TextKeyed (entries : Entries) : Prop where
  keys : ∀ e ∈ entries, JsonKey e.1
  nodup : (entries.map (·.1)).Nodup

/-- The YAML library loads what it dumps of these entries. -/
def DumpsBack (lib : RoundTrip) (entries : Entries) : Prop :=
  ∃ block, lib.dump .house ⟨none, entries⟩ = .ok block ∧ block.notBlank = true ∧
    block.getLast? = some lf ∧ NoDelimiter block ∧
      ∃ origin, lib.load block = .ok (.mapping ⟨origin, entries⟩)

variable (env : Env)

/-- What a replace is sent for a frontmatter that a read hands out. -/
def handedBack (current : Entries) : Entries :=
  ordered env.lib.py env.schema (jsonableEntries env.lib.py current [])

/-- What a read and a replace make of a frontmatter. -/
def rewrittenEntries (current : Entries) : Entries :=
  (arranged env.schema current).map fun e => (e.1, rewritten env e.1 e.2)

variable {env} {current : Entries} {id : NoteId}

theorem set_of_get? {entries : Entries} {key : Text} {v : Value}
    (hnodup : (entries.map (·.1)).Nodup) (h : entries.get? key = some v) :
    entries.set key v = entries := by
  have hmem := mem_of_get? h
  have hhas : Entries.has key entries = true :=
    List.any_eq_true.2 ⟨_, hmem, isText_iff.2 rfl⟩
  rw [Entries.set, if_pos hhas]
  conv_rhs => rw [← List.map_id entries]
  apply List.map_congr_left
  intro e he
  split
  · next htext =>
    have hkey := isText_iff.1 htext
    have hget : entries.get? key = some e.2 := by
      rw [get?_eq_some_iff hnodup, ← hkey]
      exact he
    rw [h] at hget
    rw [Option.some.inj hget]
    rfl
  · rfl

theorem TextKeyed.jsonableEntries_eq (h : TextKeyed current) :
    jsonableEntries env.lib.py current [] =
      current.map fun e => (e.1, jsonable env.lib.py e.2) := by
  rw [Notes.jsonableEntries_eq current h.keys (by simp) (by simpa using h.nodup), List.nil_append]

theorem strValue_ne_null (points : PyStr) : strValue points ≠ .null := by
  obtain ⟨t, h⟩ | h := strValue_cases points
  · rw [h]; simp
  · rw [h]; simp

theorem jsonable_eq_null {py : Python} {v : Value} : jsonable py v = .null ↔ v = .null := by
  cases v with
  | null => simp [jsonable]
  | bool _ | int _ | float _ | seq _ _ | map _ => simp [jsonable]
  | _ => simp only [jsonable, strValue_ne_null, reduceCtorEq]

theorem dateValue_eq_null {py : Python} {v : Value} : dateValue py v = .null ↔ v = .null := by
  constructor
  · intro h
    unfold dateValue at h
    dsimp only at h
    split at h
    · exact h
    · split at h
      · exact h
      · cases h
      · cases h
  · rintro rfl
    rfl

theorem handed_eq_null {key v : Value} : handed env key v = .null ↔ v = .null := by
  rw [handed, withKind_eq]
  split
  · rw [dateValue_eq_null, jsonable_eq_null]
  · split
    · rw [← @jsonable_eq_null env.lib.py v]
      split
      · next hseq => rw [hseq]; simp
      · rfl
    · exact jsonable_eq_null

theorem scalarUnder_eq_null {key v : Value} : scalarUnder key v = .null ↔ v = .null := by
  cases key with
  | str name =>
    rw [scalarUnder_str]
    constructor
    · intro h
      unfold yamlScalar at h
      split at h
      · exact h
      · split at h
        · split at h
          · cases h
          · exact h
        · split at h
          · exact h
          · split at h
            · exact h
            · cases h
        · exact h
    · rintro rfl
      exact @scalarUnder_of_not_str (.str name) _ (by simp) (by simp)
  | _ => exact Iff.rfl

theorem rewritten_eq_null {key v : Value} : rewritten env key v = .null ↔ v = .null := by
  rw [rewritten, scalarUnder_eq_null, kept]
  split
  · rfl
  · exact handed_eq_null

/-- What is sent stands in the order of the schema. -/
theorem handedBack_eq (h : TextKeyed current) :
    handedBack env current =
      (arranged env.schema current).map fun e => (e.1, handed env e.1 e.2) := by
  rw [handedBack, ordered_eq, h.jsonableEntries_eq, withKinds, List.map_map]
  exact arranged_map (f := handed env) fun _ _ _ => handed_eq_null

/-- A replace with what a read returned sends it. -/
theorem replacementFrontmatter_eq (h : TextKeyed current) (hstring : IsString id) (hnul : 0 ∉ id)
    (hid : current.get? env.schema.roles.idKey = some (strValue id)) :
    replacementFrontmatter env id (jsonableEntries env.lib.py current []) =
      match env.schema.problems env.lib.py (handedBack env current) with
      | [] => .ok (handedBack env current)
      | problems => .error (.validationFailed (problems.map (·.2))) := by
  have hget : (jsonableEntries env.lib.py current []).get? env.schema.roles.idKey =
      some (strValue id) := by
    rw [h.jsonableEntries_eq, get?_map (fun _ v => jsonable env.lib.py v), hid, Option.map_some,
      jsonable_strValue _ hstring hnul]
  have hpresent : present? (jsonableEntries env.lib.py current []) env.schema.roles.idKey =
      some (strValue id) :=
    present?_eq_some_iff.2 ⟨hget, strValue_ne_null id⟩
  have hnodup : ((jsonableEntries env.lib.py current []).map (·.1)).Nodup := by
    rw [h.jsonableEntries_eq, List.map_map]
    exact h.nodup
  unfold replacementFrontmatter
  dsimp only
  rw [hpresent, if_neg (by simp [hstring.strOf]), set_of_get? hnodup hget]
  rfl

/-- Over the file it came from, what is written keeps what JSON cannot tell apart. -/
theorem keepingTypes_handedBack (h : TextKeyed current) :
    keepingTypes env (handedBack env current) current =
      (arranged env.schema current).map fun e => (e.1, kept env (handed env e.1 e.2) e.2) := by
  rw [handedBack_eq h, keepingTypes, List.map_map]
  apply List.map_congr_left
  intro e he
  have hmem := ((mem_arranged h.nodup).1 he).1
  have hfind : current.find? (fun other => other.1.same e.1) = some e := by
    have hsome : (current.find? fun other => other.1.same e.1).isSome = true :=
      List.find?_isSome.2 ⟨e, hmem, same_self _⟩
    obtain ⟨found, hfound⟩ := Option.isSome_iff_exists.1 hsome
    have hkey := same_iff.1 (by simpa using List.find?_some hfound)
    rw [hfound, Option.some.injEq]
    exact List.inj_on_of_nodup_map h.nodup (List.mem_of_find?_eq_some hfound) hmem hkey
  simp only [Function.comp_apply, hfind, kept]
  split <;> rfl

/-- The mapping the writer dumps. -/
theorem yamlMapping_written (h : TextKeyed current) :
    yamlMapping ⟨none, keepingTypes env (handedBack env current) current⟩ =
      ⟨none, rewrittenEntries env current⟩ := by
  have hentries := yamlMapping_entries (keepingTypes env (handedBack env current) current)
  have horigin : (yamlMapping ⟨none, keepingTypes env (handedBack env current) current⟩).origin =
      none := rfl
  rw [keepingTypes_handedBack h] at hentries horigin ⊢
  rw [List.map_map] at hentries
  exact congrArg₂ Mapping.mk horigin hentries

theorem TextKeyed.rewrittenEntries (h : TextKeyed current) : TextKeyed (rewrittenEntries env current) where
  keys := by
    intro e he
    obtain ⟨held, hheld, rfl⟩ := List.mem_map.1 he
    exact h.keys held ((mem_arranged h.nodup).1 hheld).1
  nodup := by
    rw [Filing.rewrittenEntries, List.map_map]
    exact nodup_arranged h.nodup

end Entries

section Accepted

/-- What a second read and replace leaves as the first wrote it: the tags, and a year below 1000 in
an account that is a date. -/
structure Steady (env : Env) (current : Entries) : Prop where
  tags : ∀ flow items, current.get? env.schema.roles.tagsKey = some (.seq flow items) →
    TagsStay env items
  account : env.lib.py.padsYears = true ∨
    isDateKind env.schema (.str env.schema.roles.accountKey) = false

variable {env : Env} {current : Entries}

section Checked

variable {py : Python} {schema : FrontmatterSchema} {entries : Entries} {key : Text} {v : Value}
  (hnodup : (entries.map (·.1)).Nodup) (h : schema.problems py entries = [])
  (he : (.str key, v) ∈ entries) (hkind : isDateKind schema (.str key) = true) (hne : v ≠ .null)

include hnodup he hne

theorem present?_of_mem : present? entries key = some v :=
  present?_eq_some_iff.2 ⟨(get?_eq_some_iff hnodup).2 he, hne⟩

include h hkind

/-- A date's key that is accepted holds a date. -/
theorem isDate_of_accepted (hother : key ≠ schema.roles.accountKey) : isDate py v = true := by
  obtain ⟨definition, hfind, hdate⟩ := (Option.any_eq_true _ _).1 hkind
  have hdefinition : definition ∈ schema.keys :=
    List.mem_reverse.1 (List.mem_of_find?_eq_some hfind)
  obtain rfl : definition.name = key := by simpa using List.find?_some hfind
  have hchecked := List.flatMap_eq_nil_iff.1 (List.append_eq_nil_iff.1 h).1 definition hdefinition
  rw [present?_of_mem hnodup he hne] at hchecked
  dsimp only at hchecked
  rw [if_neg hother, FrontmatterSchema.keyProblems] at hchecked
  have hkind' : definition.kind = .date := by simpa using hdate
  unfold checkValue at hchecked
  rw [hkind'] at hchecked
  dsimp only at hchecked
  split at hchecked
  · cases hchecked
  · split at hchecked
    · next hread => exact hread
    · cases hchecked

/-- An account that is accepted is a text or a list, whatever the kind of its key. -/
theorem account_of_accepted (haccount : key = schema.roles.accountKey) :
    (str? v).isSome = true ∨ (items? v).isSome = true := by
  obtain ⟨definition, hfind, -⟩ := (Option.any_eq_true _ _).1 hkind
  have hdefinition : definition ∈ schema.keys :=
    List.mem_reverse.1 (List.mem_of_find?_eq_some hfind)
  obtain rfl : definition.name = key := by simpa using List.find?_some hfind
  have hchecked := List.flatMap_eq_nil_iff.1 (List.append_eq_nil_iff.1 h).1 definition hdefinition
  rw [present?_of_mem hnodup he hne] at hchecked
  dsimp only at hchecked
  rw [if_pos haccount] at hchecked
  cases v with
  | seq flow items => exact Or.inr rfl
  | str t => exact Or.inl rfl
  | surrogateStr points => exact Or.inl rfl
  | _ => simp [FrontmatterSchema.checkAccount, str?] at hchecked

end Checked

variable (h : TextKeyed current)

include h

/-- What stands under a date's key that is no account's is read as a date, in the file and as it
is sent. -/
theorem reads_of_accepted (haccepted : env.schema.problems env.lib.py current = [])
    (hsent : env.schema.problems env.lib.py (handedBack env current) = []) {e : Value × Value}
    (he : e ∈ arranged env.schema current) (hkind : isDateKind env.schema e.1 = true) :
    (e.1 ≠ .str env.schema.roles.accountKey →
      isDate env.lib.py e.2 = true ∧ isDate env.lib.py (handed env e.1 e.2) = true) ∧
      Dated env e.1 e.2 := by
  obtain ⟨key, v⟩ := e
  cases key with
  | str name =>
    have hknown : isKnown env.schema (.str name) = true := by
      obtain ⟨definition, hfind, -⟩ := (Option.any_eq_true _ _).1 hkind
      have hname : definition.name = name := by simpa using List.find?_some hfind
      rw [isKnown_iff]
      exact ⟨definition, List.mem_reverse.1 (List.mem_of_find?_eq_some hfind), by rw [hname]⟩
    obtain ⟨hmem, hkeep⟩ := (mem_arranged h.nodup).1 he
    have hne : v ≠ .null := fun hnull => hkeep ⟨hknown, hnull⟩
    have hdates : name ≠ env.schema.roles.accountKey → isDate env.lib.py v = true ∧
        isDate env.lib.py (handed env (.str name) v) = true := by
      intro hother
      refine ⟨isDate_of_accepted h.nodup haccepted hmem hkind hne hother, ?_⟩
      have hnodup : ((handedBack env current).map (·.1)).Nodup := by
        rw [handedBack_eq h, List.map_map]
        exact nodup_arranged h.nodup
      have hhanded : (.str name, handed env (.str name) v) ∈ handedBack env current := by
        rw [handedBack_eq h]
        exact List.mem_map.2 ⟨_, he, rfl⟩
      exact isDate_of_accepted hnodup hsent hhanded hkind
        (fun hnull => hne (handed_eq_null.1 hnull)) hother
    refine ⟨fun hother => hdates fun heq => hother (by rw [heq]), ?_⟩
    by_cases haccount : name = env.schema.roles.accountKey
    · exact Or.inr (Or.inr (account_of_accepted h.nodup haccepted hmem hkind hne haccount))
    · exact Or.inr (Or.inl (hdates haccount))
  | _ => cases hkind

variable (hpy : WritesCodes env.lib.py) (hiso : IsoTexts env.lib.py)
  (hloadable : ∀ e ∈ current, loadable e.2 = true)
  (haccepted : env.schema.problems env.lib.py current = [])
  (hsent : env.schema.problems env.lib.py (handedBack env current) = [])

include hpy hiso hloadable haccepted hsent

/-- **Settled**: a second read and replace makes nothing else of what the first wrote. -/
theorem rewrittenEntries_rewrittenEntries (hsteady : Steady env current) :
    rewrittenEntries env (rewrittenEntries env current) = rewrittenEntries env current := by
  have harranged : arranged env.schema (rewrittenEntries env current) =
      rewrittenEntries env current := by
    rw [rewrittenEntries, arranged_map (f := rewritten env) fun _ _ _ => rewritten_eq_null,
      arranged_arranged]
  conv_lhs => rw [rewrittenEntries, harranged, rewrittenEntries, List.map_map]
  rw [rewrittenEntries]
  apply List.map_congr_left
  intro e he
  have hmem := ((mem_arranged h.nodup).1 he).1
  refine congrArg (Prod.mk e.1) (rewritten_rewritten hpy hiso (hloadable e hmem) (fun hkind => ?_)
    fun htags flow items hseq => ?_)
  · by_cases haccount : e.1 = .str env.schema.roles.accountKey
    · refine Or.inr (hsteady.account.resolve_right fun hfalse => ?_)
      rw [← haccount, hkind] at hfalse
      cases hfalse
    · exact Or.inl ((reads_of_accepted h haccepted hsent he hkind).1 haccount).2
  · apply hsteady.tags flow items
    rw [get?_eq_some_iff h.nodup, ← isText_iff.1 htags, ← hseq]
    exact hmem

/-- **The keys and the values** of what is written. -/
theorem mem_rewrittenEntries {key v : Value} :
    (key, v) ∈ rewrittenEntries env current ↔
      ∃ held, (key, held) ∈ current ∧ ¬(isKnown env.schema key = true ∧ held = .null) ∧
        v = writtenBack env key held := by
  have hvalue : ∀ e ∈ arranged env.schema current,
      rewritten env e.1 e.2 = writtenBack env e.1 e.2 := by
    intro e he
    have hmem := ((mem_arranged h.nodup).1 he).1
    exact rewritten_eq hpy hiso (hloadable e hmem) fun hkind =>
      (reads_of_accepted h haccepted hsent he hkind).2
  rw [rewrittenEntries, List.mem_map]
  constructor
  · rintro ⟨e, he, heq⟩
    obtain ⟨rfl, rfl⟩ := Prod.mk.inj heq
    obtain ⟨hmem, hkeep⟩ := (mem_arranged h.nodup).1 he
    exact ⟨e.2, hmem, hkeep, hvalue e he⟩
  · rintro ⟨held, hmem, hkeep, rfl⟩
    have he : (key, held) ∈ arranged env.schema current := (mem_arranged h.nodup).2 ⟨hmem, hkeep⟩
    exact ⟨(key, held), he, by rw [hvalue _ he]⟩

end Accepted

section Runs

/-- The note's file is at its recorded path, and holds the text. -/
structure Stored (w : World) (id : NoteId) (path : NotePath) (text : Text) : Prop where
  row : ∃ row, w.rows.lookup id = some row ∧ isGone row = false ∧ row.path = path
  file : w.file? path = some (.utf8 text)

variable {env : Env} {w : World} {id : NoteId} {path : NotePath} {text : Text}
  {current written : Entries} {body : Text}

theorem run_locate (r : Reading) (h : Stored w id path text) :
    run (locate env id r) w = (.ok path, w) := by
  obtain ⟨⟨row, hrow, hlive, rfl⟩, hfile⟩ := h
  simp [locate, run_bind, hrow, hlive, hfile]

/-- A read of a note whose file is there and is its own. -/
theorem run_getNote (r : Reading) (h : Stored w id path text)
    (hparse : parseNote env id (.utf8 text) = .ok (current, body)) :
    run (getNote env id r) w = (.ok (documentOf env path (.utf8 text) current body), w) := by
  simp [getNote, run_bind, run_locate r h, readFile, h.file, documentAt, hparse]

theorem run_bytesAt (site : Site) (h : Stored w id path text)
    (hparse : parseNote env id (.utf8 text) = .ok (current, body)) :
    run (bytesAt env id site path (env.lib.hash (.utf8 text))) w =
      (.ok (.utf8 text, current), w) := by
  simp [bytesAt, run_bind, readFile, h.file, hparse]

/-- A record of the review leaves the files and the rows. -/
theorem run_recordReplaced (s : World) :
    (run (recordReplaced env id current written) s).2.notes = s.notes ∧
      (run (recordReplaced env id current written) s).2.rows = s.rows := by
  unfold recordReplaced
  split
  · exact ⟨rfl, rfl⟩
  · rw [run]
    cases hrecord : recordReview env id written s with
    | error e => exact ⟨rfl, rfl⟩
    | ok s' =>
      unfold recordReview at hrecord
      split at hrecord
      · obtain rfl := Except.ok.inj hrecord
        exact ⟨rfl, rfl⟩
      · cases hrecord

/-- A replace that is not refused leaves the new text at the note's path. -/
theorem stored_replaceNote {frontmatter sent : Entries} {held : Text} {text' : Text}
    (h : Stored w id path text) (hparse : parseNote env id (.utf8 text) = .ok (current, held))
    (hsent : replacementFrontmatter env id frontmatter = .ok sent)
    (htext : replacementText env sent current body = .ok (written, text')) :
    Stored (run (replaceNote env id frontmatter body (env.lib.hash (.utf8 text))) w).2 id path
      text' := by
  obtain ⟨row, hrow, hlive, hpath⟩ := h.row
  have hswapped : (w.setNote path (.file (.utf8 text'))).notes.lookup path =
      some (.file (.utf8 text')) := AList.lookup_insert _
  obtain ⟨hnotes, hrows⟩ := @run_recordReplaced env id current written (w.setNote path (.file (.utf8 text')))
  cases hrecord : run (recordReplaced env id current written)
      (w.setNote path (.file (.utf8 text'))) with
  | mk result s =>
    rw [hrecord] at hnotes hrows
    have hfile : s.file? path = some (.utf8 text') := by
      rw [World.file?, hnotes, hswapped]
    have hkept : s.rows.lookup id = some row := by
      rw [hrows]
      exact hrow
    cases result with
    | error e =>
      have hrun : (run (replaceNote env id frontmatter body (env.lib.hash (.utf8 text))) w).2 = s := by
        simp [replaceNote, run_bind, hsent, run_locate .replace h, run_bytesAt _ h hparse, htext,
          hrecord]
      rw [hrun]
      exact ⟨⟨row, hkept, hlive, hpath⟩, hfile⟩
    | ok _ =>
      have hrun : (run (replaceNote env id frontmatter body (env.lib.hash (.utf8 text))) w).2 =
          updateRow id (mirrored env written (env.lib.hash (.utf8 text'))) s := by
        simp [replaceNote, run_bind, hsent, run_locate .replace h, run_bytesAt _ h hparse, htext,
          hrecord]
      rw [hrun, updateRow, hkept]
      refine ⟨⟨mirrored env written (env.lib.hash (.utf8 text')) row, AList.lookup_insert _, ?_, hpath⟩,
        hfile⟩
      rfl

/-- One that is refused changes nothing. -/
theorem stored_refused {frontmatter : Entries} {held : Text}
    (h : Stored w id path text) (hparse : parseNote env id (.utf8 text) = .ok (current, held))
    (hrefused : ∀ sent, replacementFrontmatter env id frontmatter = .ok sent →
      ∃ e, replacementText env sent current body = .error e) :
    (run (replaceNote env id frontmatter body (env.lib.hash (.utf8 text))) w).2 = w := by
  cases hsent : replacementFrontmatter env id frontmatter with
  | error e => simp [replaceNote, run_bind, hsent]
  | ok sent =>
    obtain ⟨e, he⟩ := hrefused sent hsent
    simp [replaceNote, run_bind, hsent, run_locate .replace h, run_bytesAt _ h hparse, he]

end Runs

section Replaced

/-- What the library is taken to be. -/
structure Lawful (env : Env) : Prop where
  writes : WritesCodes env.lib.py
  iso : IsoTexts env.lib.py

/-- The identifier of a note. -/
def IsNoteId (id : NoteId) : Prop := ∃ t : Text, isValidId t = true ∧ id = PyStr.ofText t

/-- A frontmatter as the loader makes one, with text keys, that names its note in text, and that
the schema accepts as it stands and as a read hands it out. -/
structure Acceptable (env : Env) (id : NoteId) (current : Entries) : Prop where
  keyed : TextKeyed current
  loadable : ∀ e ∈ current, loadable e.2 = true
  named : IsNoteId id
  carried : current.get? env.schema.roles.idKey = some (strValue id)
  accepted : env.schema.problems env.lib.py current = []
  handed : env.schema.problems env.lib.py (handedBack env current) = []
  tags : tagProblems env.lib.py env.schema env.closedTags (handedBack env current) (some current) =
    .ok []

variable {env : Env} {w : World} {id : NoteId} {path : NotePath} {text : Text} {current : Entries}
  {body : Text}

theorem terminated_terminated (body : Text) : terminated (terminated body) = terminated body := by
  unfold terminated
  by_cases h : body = [] ∨ body.getLast? = some lf
  · rw [if_pos h, if_pos h]
  · rw [if_neg h, if_pos (Or.inr (by simp))]

theorem parseNote_eq (hparse : Notes.parse env.lib.yaml text = .ok (current, body))
    (hstring : IsString id) (hid : current.get? env.schema.roles.idKey = some (strValue id)) :
    parseNote env id (.utf8 text) = .ok (current, body) := by
  have hpresent : present? current env.schema.roles.idKey = some (strValue id) :=
    present?_eq_some_iff.2 ⟨hid, strValue_ne_null id⟩
  rw [parseNote, hparse]
  dsimp only
  rw [hpresent]
  dsimp only
  rw [if_pos (hstring.strOf _)]

/-- What is composed of entries that are dumped and loaded back. -/
theorem compose_of_dumpsBack {lib : RoundTrip} {entries : Entries} (h : DumpsBack lib entries)
    (hne : entries ≠ []) (body : Text) :
    ∃ text, Notes.parse lib text = .ok (entries, body) ∧ ∀ written : Entries,
      yamlMapping ⟨none, written⟩ = ⟨none, entries⟩ →
      compose lib ⟨none, written⟩ body = .ok text := by
  obtain ⟨block, hdump, hblank, hends, hclean, origin, hload⟩ := h
  have hblock : block ≠ [] := by
    rintro rfl
    cases hends
  refine ⟨delimiter ++ [lf] ++ (block ++ (delimiter ++ [lf] ++ body)), ?_, ?_⟩
  · obtain ⟨s, hsplit, hsblock, hsbody⟩ := @split_composed _ body hends hclean
    rw [Notes.parse, hsplit]
    change (do
      let m ← parseBlock lib s.block
      return (m.entries, s.body)) = _
    rw [hsblock, hsbody, parseBlock, if_pos hblank, hload]
    rfl
  · intro written hwritten
    have hentries : written ≠ [] := by
      rintro rfl
      have hempty := congrArg Mapping.entries hwritten
      exact hne hempty.symm
    unfold compose composeAt dump
    rw [if_neg hentries, hwritten, hdump]
    change (if block = [] then Except.ok body else Except.ok (delimiter ++ [lf] ++
      ((if block.getLast? = some lf then block else block ++ [lf]) ++
        (delimiter ++ [lf] ++ body)))) = _
    rw [if_neg hblock, if_pos hends]

theorem zero_notMem_ofText {t : Text} (h : '\x00' ∉ t) : 0 ∉ PyStr.ofText t := by
  intro hmem
  obtain ⟨c, hc, hzero⟩ := List.mem_map.1 hmem
  have hnul : c = '\x00' := Char.ext (UInt32.toNat_inj.1 hzero)
  exact h (hnul ▸ hc)

section Identifier

variable {t : Text} (h : isValidId t = true)

include h

theorem chars_of_isValidId {c : Char} (hc : c ∈ t) :
    c = lf ∨ c ∈ "0123456789ABCDEFGHJKMNPQRSTVWXYZ".toList := by
  unfold isValidId at h
  simp only [Bool.and_eq_true, List.all_eq_true, decide_eq_true_eq] at h
  obtain ⟨⟨-, hall⟩, -⟩ := h
  split at hall
  · next hlast =>
    rw [← List.dropLast_append_getLast? lf hlast, List.mem_append] at hc
    obtain hc | hc := hc
    · exact Or.inr (hall c hc)
    · exact Or.inl (List.mem_singleton.1 hc)
  · exact Or.inr (hall c hc)

theorem nul_notMem_of_isValidId : '\x00' ∉ t := by
  intro hmem
  obtain hnul | hnul := chars_of_isValidId h hmem
  · exact absurd hnul (by decide)
  · exact absurd hnul (by decide)

theorem dash_notMem_of_isValidId : '-' ∉ strip t := by
  intro hmem
  obtain hdash | hdash := chars_of_isValidId h (Naming.mem_of_mem_strip hmem)
  · exact absurd hdash (by decide)
  · exact absurd hdash (by decide)

/-- No day is read of an identifier. -/
theorem dateValue_of_isValidId (py : Python) : dateValue py (.str t) = .str t := by
  have hdashed : dashed (strip t) = false := by
    rw [Bool.eq_false_iff]
    intro hdashed
    rw [dashed, Bool.and_eq_true, beq_iff_eq] at hdashed
    exact dash_notMem_of_isValidId h (List.mem_of_getElem? hdashed.1)
  apply dateValue_unread
  right
  unfold parseNoteTimeText
  simp only [hdashed, Bool.false_eq_true, and_false, false_and, if_false]
  split
  · rfl
  · split
    · rfl
    · split
      · rfl
      · split <;> rfl

/-- An identifier is written back as it is, under any key. -/
theorem writtenBack_of_isValidId (key : Value) : writtenBack env key (.str t) = .str t := by
  have hjson := @jsonable_str_of_codes env t (nul_notMem_of_isValidId h)
  have hscalar : scalarUnder key (.str t) = .str t := by
    cases key with
    | str name =>
      rw [scalarUnder_str, yamlScalar]
      split
      · rfl
      · cases hlocal : localDatetime? t.strip with
        | none => rfl
        | some numbers => exact absurd (localDatetime?_dash hlocal) (dash_notMem_of_isValidId h)
    | _ => rfl
  unfold writtenBack
  rw [hjson, dateValue_of_isValidId h, kept_self]
  split
  · exact hscalar
  · split <;> exact hscalar

end Identifier

theorem IsNoteId.isString (h : IsNoteId id) : IsString id := by
  obtain ⟨t, -, rfl⟩ := h
  exact Notes.isString_of_codes (Notes.codes_ofText t)

theorem IsNoteId.nul (h : IsNoteId id) : 0 ∉ id := by
  obtain ⟨t, hvalid, rfl⟩ := h
  exact zero_notMem_ofText (nul_notMem_of_isValidId hvalid)

theorem get?_rewrittenEntries_id (hlaw : Lawful env) (h : Acceptable env id current) :
    (rewrittenEntries env current).get? env.schema.roles.idKey = some (strValue id) := by
  rw [get?_eq_some_iff h.keyed.rewrittenEntries.nodup,
    mem_rewrittenEntries h.keyed hlaw.writes hlaw.iso h.loadable h.accepted h.handed]
  refine ⟨strValue id, mem_of_get? h.carried, fun hnull => strValue_ne_null id hnull.2, ?_⟩
  obtain ⟨t, hvalid, rfl⟩ := h.named
  rw [Sources.strValue_ofText, writtenBack_of_isValidId hvalid]

/-- The text a replace writes with what a read returned. -/
theorem replacementText_handedBack (hkeyed : TextKeyed current) {entries : Entries} {text' : Text}
    (htags : tagProblems env.lib.py env.schema env.closedTags (handedBack env current)
      (some current) = .ok [])
    (hentries : rewrittenEntries env current = entries)
    (hcompose : ∀ written : Entries, yamlMapping ⟨none, written⟩ = ⟨none, entries⟩ →
      compose env.lib.yaml ⟨none, written⟩ (terminated body) = .ok text') :
    replacementText env (handedBack env current) current body =
      .ok (keepingTypes env (handedBack env current) current, text') := by
  have hmapping := @yamlMapping_written env _ hkeyed
  rw [hentries] at hmapping
  rw [replacementText, htags]
  dsimp only
  rw [hcompose _ hmapping]

end Replaced

section Samples

/-- A day in the form `isoformat` gives it. -/
def readDay (t : Text) : Option Date := do
  let (year, t) ← digits? 4 0 t
  let (month, t) ← digits? 2 0 (← char? '-' t)
  let (day, t) ← digits? 2 0 (← char? '-' t)
  if t = [] then Date.make? year month day else none

/-- A date and time in that form. -/
def readDatetime (t : Text) : Option DateTime := do
  let (year, month, day, hour, minute, second) ← localDatetime? t
  DateTime.make? year month day hour minute second

/-- The library, as far as dates are concerned. -/
def isoPython : Python where
  str _ := []
  repr _ := []
  isoformat
    | .date d => if d.isReal then PyStr.ofText (isoDate d) else []
    | .timestamp d => if d.isReal && d.tzinfo.isNone then PyStr.ofText (isoDatetime d) else []
    | _ => []
  casefold := id
  dateFromIso := readDay
  datetimeFromIso := readDatetime
  timeFromIso _ := none

/-- A YAML library that knows some blocks. -/
def tableYaml (table : List (Text × Entries)) : RoundTrip where
  load block :=
    match table.find? (·.1 == block) with
    | some e => .ok (.mapping ⟨some block, e.2⟩)
    | none => .error (.yamlError "ScannerError" "unknown block" none)
  loadGuessIndent _ := .error .indexError
  keyPosition _ _ := (0, 0)
  dump _ m :=
    match table.find? fun e => sameEntries e.2 m.entries with
    | some e => .ok e.1
    | none => .error (.other "RepresenterError")

/-- A schema with a key for every role, and an alias. -/
def heldSchema : FrontmatterSchema where
  keys :=
    [{ name := "id".toList }, { name := "date".toList, kind := .date }, { name := "type".toList },
      { name := "context".toList }, { name := "account".toList, kind := .list },
      { name := "reviewed".toList, kind := .bool }, { name := "sources".toList, kind := .list },
      { name := "tags".toList, kind := .list }, { name := "schema_version".toList, kind := .int }]
  roles := Notes.plainSchema.roles
  tagAliases := [("old".toList, "new".toList)]

def heldFiling (table : List (Text × Entries)) : Env :=
  { sampleFiling with
    schema := heldSchema
    lib := { sampleFiling.lib with py := isoPython, yaml := tableYaml table } }

def heldText (block : Text) : Text :=
  "---\n".toList ++ block ++ "---\nhello".toList

def heldWorld (block : Text) : World :=
  { sampleWorld with notes := [⟨samplePath, .file (.utf8 (heldText block))⟩].toAList }

theorem heldWorld_stored (block : Text) :
    Stored (heldWorld block) sampleNote samplePath (heldText block) where
  row := ⟨⟨samplePath, sampleFiling.lib.hash sampleText, true, false, .ok, [], []⟩,
    by change sampleWorld.rows.lookup sampleNote = _; decide +kernel, rfl, rfl⟩
  file := by simp [World.file?, heldWorld]

theorem readDay_isoDate {d : Date} (h : d.isReal = true) : readDay (isoDate d) = some d := by
  obtain ⟨hyear, hmonth, hday⟩ := bounds_of_isReal h
  have hmake : Date.make? d.year d.month d.day = some d := by simpa [Date.isReal] using h
  have hrest := digits?_pair hday []
  rw [List.append_nil] at hrest
  rw [isoDate_eq h]
  simp [readDay, dayText, digits?_year hyear, digits?_pair hmonth, hrest, char?, hmake]

theorem isReal_of_readDay {t : Text} {d : Date} (h : readDay t = some d) : d.isReal = true := by
  unfold readDay at h
  simp only [Option.bind_eq_bind, Option.bind_eq_some_iff, Option.ite_none_right_eq_some] at h
  obtain ⟨_, _, _, _, _, _, _, _, _, _, _, hmake⟩ := h
  unfold Date.make? at hmake
  split at hmake
  · next hbounds =>
    obtain rfl := Option.some.inj hmake
    simp [Date.isReal, Date.make?, hbounds]
  · cases hmake

theorem isoPython_texts : IsoTexts isoPython where
  isoformat_date d h := by simp [isoPython, h]
  isoformat_timestamp d h hnaive := by simp [isoPython, h, hnaive]
  reads_date d h := readDay_isoDate h
  reads_datetime d h hnaive hwhole := by
    have hlocal := localDatetime?_iso h hwhole
    obtain ⟨a, t, b, htext, ha, hb, -, -⟩ := isoDatetime_ends h
    rw [htext, strip_of_ends ha hb, ← htext] at hlocal
    simp [isoPython, readDatetime, hlocal, make?_of_isReal h hnaive hwhole]
  date_isReal _ _ h := isReal_of_readDay h
  datetime_isReal _ _ h := by
    obtain ⟨_, _, hmake⟩ := Option.bind_eq_some_iff.1 h
    exact (isReal_of_make? hmake).1

theorem nul_notMem_digits (n : Nat) : '\x00' ∉ Nat.toDigits 10 n := by
  intro h
  exact absurd (Nat.isDigit_of_mem_toDigits (by decide) (by decide) h) (by decide)

theorem nul_ne_digitChar : ∀ n < 10, '\x00' ≠ Nat.digitChar n := by decide

theorem nul_notMem_isoDate {d : Date} (h : d.isReal = true) : '\x00' ∉ isoDate d := by
  obtain ⟨hyear, hmonth, hday⟩ := bounds_of_isReal h
  have hdigit := nul_ne_digitChar
  rw [isoDate_eq h]
  simp [dayText, fourDigits, pair, hdigit (d.year / 1000) (by omega),
    hdigit (d.year / 100 % 10) (by omega), hdigit (d.year / 10 % 10) (by omega),
    hdigit (d.year % 10) (by omega), hdigit (d.month / 10) (by omega),
    hdigit (d.month % 10) (by omega), hdigit (d.day / 10) (by omega), hdigit (d.day % 10) (by omega)]

theorem nul_notMem_isoDatetime {d : DateTime} (h : d.isReal = true) : '\x00' ∉ isoDatetime d := by
  obtain ⟨hdate, hhour, hminute, hsecond⟩ := clock_of_isReal h
  have hday := nul_notMem_isoDate hdate
  have hdigit := nul_ne_digitChar
  have hclock : '\x00' ∉ clockText d := by
    simp [clockText, pair, hdigit (d.hour / 10) (by omega), hdigit (d.hour % 10) (by omega),
      hdigit (d.minute / 10) (by omega), hdigit (d.minute % 10) (by omega),
      hdigit (d.second / 10) (by omega), hdigit (d.second % 10) (by omega)]
  have hfraction : '\x00' ∉ fraction d.microsecond := by
    unfold fraction
    split
    · simp
    · rw [toString_toList]
      simp [nul_notMem_digits]
  rw [isoDate_eq hdate] at hday
  rw [isoDatetime_eq h]
  simp [hday, hclock, hfraction]

theorem isoPython_codes : WritesCodes isoPython where
  str _ c h := by cases h
  isoformat v := by
    have hnone : ∀ c ∈ ([] : PyStr), c < 0x110000 := by simp
    cases v with
    | date d =>
      dsimp only [isoPython]
      split
      · exact Notes.codes_ofText _
      · exact hnone
    | timestamp d =>
      dsimp only [isoPython]
      split
      · exact Notes.codes_ofText _
      · exact hnone
    | _ => exact hnone
  isoformat_nul v := by
    have hnone : (0 : Nat) ∉ ([] : PyStr) := by simp
    cases v with
    | date d =>
      dsimp only [isoPython]
      split
      · next h => exact zero_notMem_ofText (nul_notMem_isoDate h)
      · exact hnone
    | timestamp d =>
      dsimp only [isoPython]
      split
      · next h =>
        rw [Bool.and_eq_true] at h
        exact zero_notMem_ofText (nul_notMem_isoDatetime h.1)
      · exact hnone
    | _ => exact hnone

/-- Whether a text parses to the entries of a block, and the body `hello`. -/
def parsesTo (env : Env) (block : Text × Entries) : Bool :=
  match Notes.parse env.lib.yaml (heldText block.1) with
  | .ok (entries, body) => sameEntries entries block.2 && body == "hello".toList
  | .error _ => false

theorem parse_of_parsesTo {env : Env} {block : Text × Entries} (h : parsesTo env block = true) :
    Notes.parse env.lib.yaml (heldText block.1) = .ok (block.2, "hello".toList) := by
  unfold parsesTo at h
  split at h
  · next entries body heq =>
    rw [Bool.and_eq_true, beq_iff_eq] at h
    rw [heq, eq_of_sameEntries _ _ h.1, h.2]
  · cases h

theorem heldFiling_lawful (table : List (Text × Entries)) : Lawful (heldFiling table) where
  writes := isoPython_codes
  iso := isoPython_texts

theorem isNoteId_sampleNote : IsNoteId sampleNote :=
  ⟨"01ARZ3NDEKTSV4RRFFQ69G5FAW".toList, by decide, by decide⟩

theorem strValue_sampleNote : strValue sampleNote = .str "01ARZ3NDEKTSV4RRFFQ69G5FAW".toList :=
  Sources.strValue_ofText _

/-- A key in text. -/
theorem jsonKey_str {name : Text} (h : '\x00' ∉ name) : JsonKey (.str name) :=
  ⟨PyStr.ofText name, Notes.isString_of_codes (Notes.codes_ofText name), zero_notMem_ofText h,
    (Sources.strValue_ofText name).symm⟩

/-- Keys in text, each once. -/
def keysOf (names : List String) : Bool :=
  (names.all fun name => !name.toList.contains '\x00') && (names.map String.toList).Nodup

theorem textKeyed_of_keys {entries : Entries} {names : List String}
    (hkeys : entries.map (·.1) = names.map fun name => .str name.toList)
    (h : keysOf names = true) : TextKeyed entries := by
  rw [keysOf, Bool.and_eq_true, List.all_eq_true, decide_eq_true_eq] at h
  constructor
  · intro e he
    have hmem : e.1 ∈ names.map fun name => Value.str name.toList :=
      hkeys ▸ List.mem_map.2 ⟨e, he, rfl⟩
    obtain ⟨name, hname, heq⟩ := List.mem_map.1 hmem
    rw [← heq]
    exact jsonKey_str (by simpa using h.1 name hname)
  · rw [hkeys, show (names.map fun name => Value.str name.toList) =
      (names.map String.toList).map Value.str by simp]
    exact h.2.map fun _ _ => Value.str.inj

/-- The identity, an alias among the tags, a known key that holds nothing, and another that does. -/
def aliasBlock : Text × Entries :=
  ("tags: [old, x]\nid: 01ARZ3NDEKTSV4RRFFQ69G5FAW\ndate: 2026-01-05T10:00:00\ntype:\nmood:\n".toList,
    [(.str "tags".toList, .seq true [.str "old".toList, .str "x".toList]),
      (.str "id".toList, .str "01ARZ3NDEKTSV4RRFFQ69G5FAW".toList),
      (.str "date".toList, .timestamp ⟨⟨2026, 1, 5⟩, 10, 0, 0, 0, none⟩),
      (.str "type".toList, .null), (.str "mood".toList, .null)])

/-- The block a replace writes for it. -/
def canonicalBlock : Text × Entries :=
  ("id: 01ARZ3NDEKTSV4RRFFQ69G5FAW\ndate: 2026-01-05T10:00:00\ntags:\n  - new\n  - x\nmood:\n".toList,
    [(.str "id".toList, .str "01ARZ3NDEKTSV4RRFFQ69G5FAW".toList),
      (.str "date".toList, .timestamp ⟨⟨2026, 1, 5⟩, 10, 0, 0, 0, none⟩),
      (.str "tags".toList, .seq false [.str "new".toList, .str "x".toList]),
      (.str "mood".toList, .null)])

def aliasFiling : Env := heldFiling [aliasBlock, canonicalBlock]

theorem aliasBlock_acceptable : Acceptable aliasFiling sampleNote aliasBlock.2 where
  keyed := @textKeyed_of_keys _ ["tags", "id", "date", "type", "mood"] rfl (by decide)
  loadable := by decide
  named := isNoteId_sampleNote
  carried := by rw [strValue_sampleNote]; rfl
  accepted := by decide +kernel
  handed := by decide +kernel
  tags := rfl

theorem aliasBlock_steady : Steady aliasFiling aliasBlock.2 where
  tags flow items h := by
    obtain ⟨rfl, rfl⟩ := Value.seq.inj (Option.some.inj h)
    exact eq_of_sameItems _ _ (by decide +kernel)
  account := Or.inr (by decide)

theorem rewritten_aliasBlock : rewrittenEntries aliasFiling aliasBlock.2 = canonicalBlock.2 :=
  eq_of_sameEntries _ _ (by decide +kernel)

theorem dumpsBack_canonicalBlock : DumpsBack aliasFiling.lib.yaml canonicalBlock.2 := by
  refine ⟨canonicalBlock.1, rfl, by decide, by decide, ?_, some canonicalBlock.1, rfl⟩
  unfold NoDelimiter
  decide +kernel

/-- The frontmatter that a read and a replace leave in the file. -/
def leftBy (env : Env) (w : World) : Option Entries :=
  match (run (getNote env sampleNote .first) w).1 with
  | .error _ => none
  | .ok d =>
    match (run (replaceNote env sampleNote d.frontmatter d.body d.contentHash) w).2.file?
        samplePath with
    | some (.utf8 text) =>
      match Notes.parse env.lib.yaml text with
      | .ok (entries, _) => some entries
      | .error _ => none
    | _ => none

/-- Whether the replace is refused. -/
def refuses (env : Env) (w : World) : Bool :=
  match (run (getNote env sampleNote .first) w).1 with
  | .error _ => false
  | .ok d =>
    match (run (replaceNote env sampleNote d.frontmatter d.body d.contentHash) w).1 with
    | .error (.validationFailed _) => true
    | _ => false

/-- A note whose frontmatter is that of a block, which the schema accepts. -/
def isAccepted (env : Env) (block : Text × Entries) : Bool :=
  parsesTo env block && (env.schema.problems env.lib.py block.2).isEmpty

/-- Whether a read and a replace of the first block leave the entries of the second. -/
def leaves (env : Env) (block block' : Text × Entries) : Bool :=
  isAccepted env block &&
    match leftBy env (heldWorld block.1) with
    | some entries => sameEntries entries block'.2
    | none => false

theorem leftBy_of_leaves {env : Env} {block block' : Text × Entries}
    (h : leaves env block block' = true) :
    isAccepted env block = true ∧ leftBy env (heldWorld block.1) = some block'.2 := by
  rw [leaves, Bool.and_eq_true] at h
  refine ⟨h.1, ?_⟩
  have hleft := h.2
  split at hleft
  · next entries heq => rw [heq, eq_of_sameEntries _ _ hleft]
  · cases hleft

def idLine : String := "id: 01ARZ3NDEKTSV4RRFFQ69G5FAW\n"

def idEntry : Value × Value :=
  (.str "id".toList, .str "01ARZ3NDEKTSV4RRFFQ69G5FAW".toList)

/-- A canonical date and time in quotes, and without them. -/
def quotedBlock : Text × Entries :=
  ((idLine ++ "date: '2026-01-05T10:00:00'\n").toList,
    [idEntry, (.str "date".toList, .str "2026-01-05T10:00:00".toList)])

def unquotedBlock : Text × Entries :=
  ((idLine ++ "date: 2026-01-05T10:00:00\n").toList,
    [idEntry, (.str "date".toList, .timestamp ⟨⟨2026, 1, 5⟩, 10, 0, 0, 0, none⟩)])

/-- A date and time with a fraction of a second. -/
def fractionBlock : Text × Entries :=
  ((idLine ++ "date: 2026-01-05T10:00:00.5\n").toList,
    [idEntry, (.str "date".toList, .timestamp ⟨⟨2026, 1, 5⟩, 10, 0, 0, 500000, none⟩)])

/-- No identity, and the identity. -/
def namelessBlock : Text × Entries := ("mood: 1\n".toList, [(.str "mood".toList, .int 1)])

def namedBlock : Text × Entries :=
  ((idLine ++ "mood: 1\n").toList, [idEntry, (.str "mood".toList, .int 1)])

/-- A key with a NUL, and what it is as JSON. -/
def nulBlock : Text × Entries :=
  ((idLine ++ "\"mo\\0od\": 1\n").toList, [idEntry, (.str "mo\x00od".toList, .int 1)])

def lossyFiling : Env :=
  heldFiling [quotedBlock, unquotedBlock, fractionBlock, namelessBlock, namedBlock, nulBlock]

/-- Whether a read and a replace of the first block leave the entries of the second, and of the
second those of the third. -/
def leavesThen (env : Env) (block block' block'' : Text × Entries) : Bool :=
  leaves env block block' &&
    match leftBy env (heldWorld block'.1) with
    | some entries => sameEntries entries block''.2
    | none => false

theorem leftBy_of_leavesThen {env : Env} {block block' block'' : Text × Entries}
    (h : leavesThen env block block' block'' = true) :
    isAccepted env block = true ∧ leftBy env (heldWorld block.1) = some block'.2 ∧
      leftBy env (heldWorld block'.1) = some block''.2 := by
  rw [leavesThen, Bool.and_eq_true] at h
  obtain ⟨haccepted, hfirst⟩ := leftBy_of_leaves h.1
  refine ⟨haccepted, hfirst, ?_⟩
  have hsecond := h.2
  split at hsecond
  · next entries heq => rw [heq, eq_of_sameEntries _ _ hsecond]
  · cases hsecond

/-- A tag and its alias, which stands for a tag with a NUL; JSON drops it. -/
def spelledBlock : Text × Entries :=
  ((idLine ++ "tags: [old, new]\n").toList,
    [idEntry, (.str "tags".toList, .seq true [.str "old".toList, .str "new".toList])])

def nulTagBlock : Text × Entries :=
  ((idLine ++ "tags:\n  - \"ne\\0w\"\n  - new\n").toList,
    [idEntry, (.str "tags".toList, .seq false [.str "ne\x00w".toList, .str "new".toList])])

def oneTagBlock : Text × Entries :=
  ((idLine ++ "tags:\n  - new\n").toList,
    [idEntry, (.str "tags".toList, .seq false [.str "new".toList])])

def nulTagFiling : Env :=
  let env := heldFiling [spelledBlock, nulTagBlock, oneTagBlock]
  { env with schema := { env.schema with tagAliases := [("old".toList, "ne\x00w".toList)] } }

/-- An account under `date`, the year in digits of another script. -/
def wideBlock : Text × Entries :=
  ((idLine ++ "date: ０９９９-01-01T10:00\n").toList,
    [idEntry, (.str "date".toList, .str "０９９９-01-01T10:00".toList)])

def earlyBlock : Text × Entries :=
  ((idLine ++ "date: 0999-01-01T10:00:00\n").toList,
    [idEntry, (.str "date".toList, .timestamp ⟨⟨999, 1, 1⟩, 10, 0, 0, 0, none⟩)])

def shortBlock : Text × Entries :=
  ((idLine ++ "date: 999-01-01T10:00:00\n").toList,
    [idEntry, (.str "date".toList, .str "999-01-01T10:00:00".toList)])

/-- The library where `strftime` does not pad a year, and an account of the date kind. -/
def shortYears : Env :=
  let env := heldFiling [wideBlock, earlyBlock, shortBlock]
  { env with
    lib := { env.lib with py := { isoPython with
      padsYears := false
      datetimeFromIso := fun t => if t.all (·.toNat < 128) then readDatetime t else none } }
    schema := { env.schema with
      keys := { name := "time".toList, kind := .date } :: env.schema.keys
      roles := { env.schema.roles with
        dateKey := "time".toList
        accountKey := "date".toList } } }

end Samples

end Coppermind.Filing
