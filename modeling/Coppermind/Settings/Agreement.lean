import Coppermind.Lib.Bounded
import Coppermind.Settings.Helper

/-!
# One file, two readers

`accepted_iff` says exactly which accepted files the helper loads, and to what.  A sources folder
is accepted only in the spelling both sides keep (`Firm`), so the pages the store generates lie
in the folder the helper excludes; a trash folder is covered level by level.
-/

namespace Coppermind.Settings

open scoped Coppermind.Lib.Bounded
open Coppermind.Lib Coppermind.Lib.Text Coppermind.Frontmatter Coppermind.Naming
open Coppermind.Schema (str? stripStr isWhite)
open Coppermind.Artifacts (NotePath)
open Coppermind.Sources (pathText newProjectionPath)

section Strings

theorem rdropWhile_map {α β : Type} (f : α → β) (p : β → Bool) (l : List α) :
    (l.map f).rdropWhile p = (l.rdropWhile (p ∘ f)).map f := by
  rw [List.rdropWhile, List.rdropWhile, ← List.map_reverse, List.dropWhile_map, List.map_reverse]

theorem stripStr_ofText (t : Text) : stripStr (PyStr.ofText t) = PyStr.ofText (strip t) := by
  have hspace : isWhite ∘ Char.toNat = isSpace := by
    funext c
    rw [Function.comp_apply, isWhite, Char.ofNat_toNat]
  rw [stripStr, PyStr.ofText, List.dropWhile_map, rdropWhile_map, hspace]
  rfl

theorem toNat_slash : (fun c => c == PyStr.slash) ∘ Char.toNat = fun c => c == '/' := by
  funext c
  rw [Function.comp_apply, Bool.eq_iff_iff, beq_iff_eq, beq_iff_eq]
  exact ⟨fun h => Char.toNat_inj.1 h, fun h => h ▸ rfl⟩

/-- `value.strip("/")` on a text. -/
def trimSlash (t : Text) : Text := (t.dropWhile (· == '/')).rdropWhile (· == '/')

theorem stripSlash_ofText (t : Text) : stripSlash (PyStr.ofText t) = PyStr.ofText (trimSlash t) := by
  rw [stripSlash, PyStr.ofText, List.dropWhile_map, rdropWhile_map, toNat_slash]
  rfl

theorem splitOn_ofText (t : Text) :
    (PyStr.ofText t).splitOn PyStr.slash = (t.splitOn '/').map PyStr.ofText := by
  induction t with
  | nil => rfl
  | cons c t ih =>
    rw [PyStr.ofText, List.map_cons, List.splitOn_cons_eq_if_modifyHead,
      List.splitOn_cons_eq_if_modifyHead, ← PyStr.ofText, ih]
    have hslash : (c.toNat == PyStr.slash) = (c == '/') := congrFun toNat_slash c
    rw [hslash]
    by_cases hc : (c == '/') = true
    · rw [if_pos hc, if_pos hc]
      rfl
    · rw [if_neg hc, if_neg hc]
      obtain ⟨first, rest, hsplit⟩ := List.exists_cons_of_ne_nil (List.splitOn_ne_nil '/' t)
      rw [hsplit]
      rfl

theorem ofText_inj {s t : Text} : PyStr.ofText s = PyStr.ofText t ↔ s = t :=
  (List.map_injective_iff.2 fun _ _ => Char.toNat_inj.1).eq_iff

theorem mem_ofText {c : Char} {t : Text} : c.toNat ∈ PyStr.ofText t ↔ c ∈ t := by
  rw [PyStr.ofText, List.mem_map]
  constructor
  · rintro ⟨d, hd, hcd⟩
    rwa [← Char.toNat_inj.1 hcd]
  · intro hc
    exact ⟨c, hc, rfl⟩

end Strings

section Fields

/-- The setting is not given, or a flag as it stands. -/
def plainFlag : Option Value → Bool
  | none | some (.bool _) => true
  | some _ => false

/-- The setting is not given, or a whole number as it stands. -/
def plainNumber : Option Value → Bool
  | none | some (.int _) => true
  | some _ => false

/-- The setting is not given, or a text as it stands. -/
def plainText : Option Value → Bool
  | none | some (.str _) => true
  | some _ => false

variable {lax : Lax} (hlax : lax.Faithful) {entries : Entries} {dotted : Text}

include hlax

theorem flag_eq_ok_iff {default b b' : Bool}
    (h : field entries (keyOf dotted) default lax.bool = some b) :
    flag entries dotted default = .ok b' ↔
      plainFlag (Entries.get? (keyOf dotted) entries) = true ∧ b' = b := by
  unfold field at h
  unfold flag valueOf
  cases hvalue : Entries.get? (keyOf dotted) entries with
  | none =>
    rw [hvalue] at h
    simp_all [plainFlag, eq_comm]
  | some value =>
    rw [hvalue] at h
    cases value <;> simp_all [plainFlag, hlax.bool_bool, hlax.bool_null, eq_comm]

theorem seconds_eq_ok_iff {default i i' : Int} (hdefault : 1 ≤ default)
    (h : field entries (keyOf dotted) default (fun value => (lax.int value).bind atLeastOne) =
      some i) :
    seconds entries dotted default = .ok i' ↔
      plainNumber (Entries.get? (keyOf dotted) entries) = true ∧ i' = i := by
  have hkept : ∀ j, atLeastOne j = some i → 1 ≤ j ∧ j = i := by
    intro j hj
    unfold atLeastOne at hj
    split at hj
    · next hle => exact ⟨hle, Option.some.inj hj⟩
    · cases hj
  unfold field at h
  unfold seconds valueOf
  cases hvalue : Entries.get? (keyOf dotted) entries with
  | none =>
    rw [hvalue] at h
    obtain rfl := Option.some.inj h
    simp [plainNumber, Int.not_lt.2 hdefault, eq_comm]
  | some value =>
    rw [hvalue] at h
    cases value with
    | int j =>
      simp only [hlax.int_int, Option.bind_some] at h
      obtain ⟨hle, rfl⟩ := hkept j h
      simp [plainNumber, Int.not_lt.2 hle, eq_comm]
    | null => simp [hlax.int_null] at h
    | _ => simp [plainNumber]

/-- What the helper takes a line for, where the model reads the text `t`. -/
theorem line_eq_ok_iff {default t : Text} {s : PyStr}
    (h : field entries (keyOf dotted) default lax.str = some t) :
    line entries dotted default = .ok s ↔
      (plainText (Entries.get? (keyOf dotted) entries) = true ∧ strip t ≠ [] ∧ lf ∉ t ∧ cr ∉ t) ∧
        s = PyStr.ofText (strip t) := by
  have htext : ∀ (u : Text) (refused : SettingsError),
      (if stripStr (PyStr.ofText u) = [] ∨ lf.toNat ∈ PyStr.ofText u ∨ cr.toNat ∈ PyStr.ofText u then
        Except.error refused else .ok (stripStr (PyStr.ofText u))) = .ok s ↔
      (strip u ≠ [] ∧ lf ∉ u ∧ cr ∉ u) ∧ s = PyStr.ofText (strip u) := by
    intro u refused
    have hbad : (stripStr (PyStr.ofText u) = [] ∨ lf.toNat ∈ PyStr.ofText u ∨
        cr.toNat ∈ PyStr.ofText u) ↔ ¬(strip u ≠ [] ∧ lf ∉ u ∧ cr ∉ u) := by
      rw [stripStr_ofText, mem_ofText, mem_ofText, PyStr.ofText, List.map_eq_nil_iff]
      tauto
    by_cases hgood : strip u ≠ [] ∧ lf ∉ u ∧ cr ∉ u
    · rw [if_neg (by rw [hbad, not_not]; exact hgood), stripStr_ofText, Except.ok.injEq, eq_comm]
      exact ⟨fun hs => ⟨hgood, hs⟩, fun hs => hs.2⟩
    · rw [if_pos (hbad.2 hgood)]
      constructor
      · intro herr
        cases herr
      · intro hs
        exact absurd hs.1 hgood
  unfold field at h
  unfold line valueOf
  generalize dotted ++ ": expected a non-empty single line of text".toList = refused
  cases hvalue : Entries.get? (keyOf dotted) entries with
  | none =>
    rw [hvalue] at h
    obtain rfl := Option.some.inj h
    simpa only [plainText, str?, true_and] using htext default refused
  | some value =>
    rw [hvalue] at h
    cases value with
    | str u =>
      simp only [hlax.str_str, Option.some.injEq] at h
      subst h
      simpa only [plainText, str?, true_and] using htext u refused
    | null => simp [hlax.str_null] at h
    | surrogateStr points => simp [hlax.str_surrogate] at h
    | _ => simp [plainText, str?]

/-- Every level of the folder names one inside the notes filesystem. -/
def namesFolder (t : Text) : Bool :=
  ((trimSlash (strip t)).splitOn '/').all fun part =>
    strip part ∉ [[], ".".toList, "..".toList]

omit hlax in
theorem any_namesNothing (t : Text) :
    ((PyStr.ofText t).splitOn PyStr.slash).any namesNothing =
      !(t.splitOn '/').all fun part => strip part ∉ [[], ".".toList, "..".toList] := by
  rw [splitOn_ofText, List.any_map, List.not_all_eq_any_not]
  congr 1
  funext part
  have hnames : ∀ u : Text, PyStr.ofText (strip part) = PyStr.ofText u ↔ strip part = u :=
    fun _ => ofText_inj
  have hdot := hnames ".".toList
  have hdots := hnames "..".toList
  have hnil := hnames []
  rw [Function.comp_apply, namesNothing, stripStr_ofText, PyStr.lit, PyStr.lit, Bool.eq_iff_iff]
  simp only [decide_eq_true_eq, List.mem_cons, List.not_mem_nil, or_false, Bool.not_eq_true',
    decide_eq_false_iff_not, not_not]
  rw [hdot, hdots, ← hnil]
  rfl

theorem folder_eq_ok_iff {default t : Text} {s : PyStr}
    (h : field entries (keyOf dotted) default lax.str = some t) :
    folder entries dotted default = .ok s ↔
      ((plainText (Entries.get? (keyOf dotted) entries) = true ∧ strip t ≠ [] ∧ lf ∉ t ∧ cr ∉ t) ∧
        namesFolder t = true) ∧ s = PyStr.ofText (trimSlash (strip t)) := by
  have hline := @line_eq_ok_iff lax hlax entries dotted default t
  unfold folder
  cases hread : line entries dotted default with
  | error refused =>
    constructor
    · intro herr
      cases herr
    · rintro ⟨⟨hplain, -⟩, -⟩
      rw [(hline h).2 ⟨hplain, rfl⟩] at hread
      cases hread
  | ok value =>
    obtain ⟨hplain, rfl⟩ := (hline h).1 hread
    simp only [stripSlash_ofText, any_namesNothing]
    unfold namesFolder
    split
    · next hnothing =>
      rw [Bool.not_eq_true', ← Bool.not_eq_true] at hnothing
      simp only [hnothing, and_false, false_and, reduceCtorEq]
    · next hnames =>
      rw [Bool.not_eq_true', Bool.not_eq_false] at hnames
      simp only [hplain, hnames, Except.ok.injEq, true_and, ne_eq, not_false_eq_true, eq_comm]

end Fields

section Folders

/-- A folder whose every level is spelled the way the notes filesystem will hold it. -/
def Firm (t : Text) : Prop := ∀ part ∈ t.splitOn '/', PortablePart part

theorem ends_intercalate {P : Char → Prop} {parts : List Text} (hne : parts ≠ [])
    (hparts : ∀ part ∈ parts, part ≠ [] ∧ (∀ c ∈ part.head?, P c) ∧ ∀ c ∈ part.getLast?, P c) :
    (∀ c ∈ (['/'].intercalate parts).head?, P c) ∧
      ∀ c ∈ (['/'].intercalate parts).getLast?, P c := by
  induction parts with
  | nil => exact absurd rfl hne
  | cons part parts ih =>
    obtain ⟨hnil, hhead, hlast⟩ := hparts part List.mem_cons_self
    cases parts with
    | nil =>
      rw [List.intercalate_singleton]
      exact ⟨hhead, hlast⟩
    | cons next parts =>
      have hrest := ih (List.cons_ne_nil _ _) fun part hmem => hparts part (List.mem_cons_of_mem _ hmem)
      have hnonempty : ['/'].intercalate (next :: parts) ≠ [] := by
        have hnext := (hparts next (List.mem_cons_of_mem _ List.mem_cons_self)).1
        obtain ⟨c, next, rfl⟩ := List.exists_cons_of_ne_nil hnext
        cases parts <;> simp [List.intercalate_cons_cons]
      rw [List.intercalate_cons_cons]
      constructor
      · rw [List.append_assoc, List.head?_append_of_ne_nil _ hnil]
        exact hhead
      · rw [List.getLast?_append_of_ne_nil _ hnonempty]
        exact hrest.2

theorem portablePart_ends {part : Text} (h : PortablePart part) {c : Char}
    (hc : c ∈ part.head? ∨ c ∈ part.getLast?) : isSpace c = false ∧ (c == '/') = false := by
  have hmem : c ∈ part := by
    rcases hc with hc | hc
    · exact List.mem_of_mem_head? hc
    · exact List.mem_of_mem_getLast? hc
  refine ⟨?_, ?_⟩
  · have hstripped : (part.dropWhile isSpace).rdropWhile isSpace = part := h.stripped
    have hfront : part.dropWhile isSpace = part := by
      apply (List.dropWhile_suffix isSpace).eq_of_length
      have hle := (List.rdropWhile_prefix isSpace (part.dropWhile isSpace)).length_le
      have hge := (List.dropWhile_suffix (l := part) isSpace).length_le
      rw [hstripped] at hle
      omega
    rcases hc with hc | hc
    · obtain ⟨rest, rfl⟩ : ∃ rest, part = c :: rest := List.head?_eq_some_iff.1 hc
      rw [← Bool.not_eq_true]
      intro hspace
      rw [List.dropWhile_cons_of_pos hspace] at hfront
      have hlen := congrArg List.length hfront
      have hle := (List.dropWhile_suffix (l := rest) isSpace).length_le
      rw [List.length_cons] at hlen
      omega
    · rw [hfront, List.rdropWhile_eq_self_iff] at hstripped
      have hlast := hstripped h.ne_nil
      rw [List.getLast?_eq_some_getLast h.ne_nil, Option.mem_some] at hc
      rw [hc] at hlast
      exact Bool.eq_false_iff.2 hlast
  · rw [beq_eq_false_iff_ne]
    rintro rfl
    exact absurd (h.allowed '/' hmem) (by decide)

theorem Firm.ends {t : Text} (h : Firm t) :
    (∀ c ∈ t.head?, isSpace c = false ∧ (c == '/') = false) ∧
      ∀ c ∈ t.getLast?, isSpace c = false ∧ (c == '/') = false := by
  have hends := @ends_intercalate (fun c => isSpace c = false ∧ (c == '/') = false) _
    (List.splitOn_ne_nil '/' t)
    fun part hpart => ⟨(h part hpart).ne_nil, fun c hc => portablePart_ends (h part hpart) (.inl hc),
      fun c hc => portablePart_ends (h part hpart) (.inr hc)⟩
  rwa [List.intercalate_splitOn] at hends

theorem Firm.strip_eq {t : Text} (h : Firm t) : strip t = t :=
  trim_eq_self isSpace (fun c hc => (h.ends.1 c hc).1) fun c hc => (h.ends.2 c hc).1

theorem Firm.trimSlash_eq {t : Text} (h : Firm t) : trimSlash t = t :=
  trim_eq_self (· == '/') (fun c hc => (h.ends.1 c hc).2) fun c hc => (h.ends.2 c hc).2

theorem Firm.ne_nil {t : Text} (h : Firm t) : t ≠ [] := by
  rintro rfl
  exact (h [] (by simp)).ne_nil rfl

theorem mem_intercalate {c : Char} {parts : List Text} (h : c ∈ ['/'].intercalate parts) :
    c = '/' ∨ ∃ part ∈ parts, c ∈ part := by
  induction parts with
  | nil => cases h
  | cons part parts ih =>
    cases parts with
    | nil =>
      rw [List.intercalate_singleton] at h
      exact .inr ⟨part, List.mem_cons_self, h⟩
    | cons next parts =>
      rw [List.intercalate_cons_cons, List.mem_append, List.mem_append, List.mem_singleton] at h
      rcases h with (hpart | hslash) | hrest
      · exact .inr ⟨part, List.mem_cons_self, hpart⟩
      · exact .inl hslash
      · rcases ih hrest with hslash | ⟨other, hother, hc⟩
        · exact .inl hslash
        · exact .inr ⟨other, List.mem_cons_of_mem _ hother, hc⟩

theorem Firm.oneLine {t : Text} (h : Firm t) : lf ∉ t ∧ cr ∉ t := by
  have hmem : ∀ c ∈ t, c = '/' ∨ isForbidden c = false := by
    intro c hc
    rw [← @List.intercalate_splitOn _ t _ _ '/'] at hc
    rcases mem_intercalate hc with hslash | ⟨part, hpart, hc⟩
    · exact .inl hslash
    · exact .inr ((h part hpart).allowed c hc)
  constructor
  · intro hlf
    exact absurd (hmem lf hlf) (by decide)
  · intro hcr
    exact absurd (hmem cr hcr) (by decide)

theorem Firm.namesFolder {t : Text} (h : Firm t) : namesFolder t = true := by
  rw [Settings.namesFolder, h.strip_eq, h.trimSlash_eq, List.all_eq_true]
  intro part hpart
  have hportable := h part hpart
  rw [hportable.stripped]
  simp only [decide_eq_true_eq, List.mem_cons, List.not_mem_nil, or_false, not_or]
  exact ⟨hportable.ne_nil, hportable.ne_dot, hportable.ne_dots⟩

end Folders

section Accepted

variable {env : Env}

/-- The entries of a section, none when the document does not hold it. -/
def entriesOf (document : Entries) (name : Text) : Entries :=
  match Entries.get? name document with
  | some (.map entries) => entries
  | _ => []

/-- What the model read in the notes section. -/
structure NotesRead (env : Env) (entries : Entries) (notes : NotesSettings) : Prop where
  sourcesFolder : field entries "sources_folder".toList "_Sources".toList
    (fun value => (env.lax.str value).bind (portableFolder env.unicode)) = some notes.sourcesFolder
  trashFolder : field entries "trash_folder".toList "_Trash".toList env.lax.str =
    some notes.trashFolder

/-- What the model read in the Git section. -/
structure GitRead (env : Env) (entries : Entries) (git : GitSettings) : Prop where
  enabled : field entries "enabled".toList true env.lax.bool = some git.enabled
  debounceS : field entries "debounce_s".toList 60
    (fun value => (env.lax.int value).bind atLeastOne) = some git.debounceS
  pollIntervalS : field entries "poll_interval_s".toList 300
    (fun value => (env.lax.int value).bind atLeastOne) = some git.pollIntervalS
  identityName : field entries "identity_name".toList "Coppermind".toList
    (fun value => (env.lax.str value).bind validateIdentity) = some git.identityName
  identityEmail : field entries "identity_email".toList "coppermind@localhost".toList
    (fun value => (env.lax.str value).bind validateIdentity) = some git.identityEmail
  gcAuto : field entries "gc_auto".toList true env.lax.bool = some git.gcAuto

theorem entriesOf_of_field {α : Type} {document : Entries} {name : Text} {default a : α}
    {validate : Entries → Option α} (h : field document name default (nested validate) = some a) :
    sectionOf document name = .ok (entriesOf document name) ∧
      (entriesOf document name = [] ∧ a = default ∨
        validate (entriesOf document name) = some a) := by
  unfold field at h
  unfold sectionOf entriesOf
  cases hvalue : Entries.get? name document with
  | none =>
    rw [hvalue] at h
    exact ⟨rfl, .inl ⟨rfl, (Option.some.inj h).symm⟩⟩
  | some value =>
    rw [hvalue] at h
    cases value with
    | map entries => exact ⟨rfl, .inr h⟩
    | _ => cases h

theorem get?_pop {key name : Text} (hne : key ≠ name) (entries : Entries) :
    Entries.get? key (Entries.pop name entries) = Entries.get? key entries := by
  unfold Entries.get? Entries.pop
  congr 1
  rw [List.find?_filter]
  congr 1
  funext entry
  cases hkey : entry.1.isText key with
  | false => simp
  | true =>
    have hother : entry.1.isText name = false := by
      unfold Value.isText at hkey ⊢
      split at hkey
      · rw [beq_iff_eq] at hkey
        subst hkey
        simpa using hne
      · cases hkey
    simp [hother]

theorem notesRead_of_validate {entries : Entries} {notes : NotesSettings}
    (h : NotesSettings.validate env entries = some notes) : NotesRead env entries notes := by
  unfold NotesSettings.validate at h
  obtain ⟨-, -, h⟩ := Option.bind_eq_some_iff.1 h
  obtain ⟨notesFolder, -, h⟩ := Option.bind_eq_some_iff.1 h
  obtain ⟨reviewFolder, -, h⟩ := Option.bind_eq_some_iff.1 h
  obtain ⟨trashFolder, htrash, h⟩ := Option.bind_eq_some_iff.1 h
  obtain ⟨sourcesFolder, hsources, h⟩ := Option.bind_eq_some_iff.1 h
  obtain ⟨artifactsFolder, -, h⟩ := Option.bind_eq_some_iff.1 h
  obtain ⟨attachmentsFolder, -, h⟩ := Option.bind_eq_some_iff.1 h
  obtain ⟨journalFolder, -, h⟩ := Option.bind_eq_some_iff.1 h
  obtain ⟨datedTypes, -, h⟩ := Option.bind_eq_some_iff.1 h
  obtain ⟨-, -, h⟩ := Option.bind_eq_some_iff.1 h
  obtain rfl := Option.some.inj h
  exact ⟨hsources, htrash⟩

theorem gitRead_of_validate {entries : Entries} {git : GitSettings}
    (h : GitSettings.validate env entries = some git) : GitRead env entries git := by
  unfold GitSettings.validate at h
  obtain ⟨-, -, h⟩ := Option.bind_eq_some_iff.1 h
  obtain ⟨enabled, henabled, h⟩ := Option.bind_eq_some_iff.1 h
  obtain ⟨debounceS, hdebounce, h⟩ := Option.bind_eq_some_iff.1 h
  obtain ⟨pollIntervalS, hpoll, h⟩ := Option.bind_eq_some_iff.1 h
  obtain ⟨identityName, hname, h⟩ := Option.bind_eq_some_iff.1 h
  obtain ⟨identityEmail, hemail, h⟩ := Option.bind_eq_some_iff.1 h
  obtain ⟨gcAuto, hgc, h⟩ := Option.bind_eq_some_iff.1 h
  obtain rfl := Option.some.inj h
  exact ⟨henabled, hdebounce, hpoll, hname, hemail, hgc⟩

theorem read_of_readSettings {file : ReadText} {settings : ProductSettings}
    (h : readSettings env file = some settings) :
    ∃ t document, file = .text t ∧ env.yaml t = .ok (.map document) ∧
      sectionOf document "notes".toList = .ok (entriesOf document "notes".toList) ∧
      sectionOf document "git".toList = .ok (entriesOf document "git".toList) ∧
      NotesRead env (entriesOf document "notes".toList) settings.notes ∧
      GitRead env (entriesOf document "git".toList) settings.git := by
  unfold readSettings at h
  split at h
  · next t =>
    split at h
    · next document hyaml =>
      obtain ⟨-, -, h⟩ := Option.bind_eq_some_iff.1 h
      unfold ProductSettings.validate at h
      obtain ⟨-, -, h⟩ := Option.bind_eq_some_iff.1 h
      obtain ⟨schemaVersion, -, h⟩ := Option.bind_eq_some_iff.1 h
      obtain ⟨notes, hnotes, h⟩ := Option.bind_eq_some_iff.1 h
      obtain ⟨git, hgit, h⟩ := Option.bind_eq_some_iff.1 h
      obtain ⟨-, -, h⟩ := Option.bind_eq_some_iff.1 h
      obtain rfl := Option.some.inj h
      rw [field, get?_pop (by decide), ← field] at hnotes hgit
      obtain ⟨hnotesSection, hnotes⟩ := entriesOf_of_field hnotes
      obtain ⟨hgitSection, hgit⟩ := entriesOf_of_field hgit
      have hnotesRead : NotesRead env (entriesOf document "notes".toList) notes := by
        rcases hnotes with ⟨hnone, hdefault⟩ | hvalid
        · rw [hnone, hdefault]
          exact ⟨rfl, rfl⟩
        · exact notesRead_of_validate hvalid
      have hgitRead : GitRead env (entriesOf document "git".toList) git := by
        rcases hgit with ⟨hnone, hdefault⟩ | hvalid
        · rw [hnone, hdefault]
          exact ⟨rfl, rfl, rfl, rfl, rfl, rfl⟩
        · exact gitRead_of_validate hvalid
      exact ⟨t, document, rfl, hyaml, hnotesSection, hgitSection, hnotesRead, hgitRead⟩
    · cases h
  · cases h

/-- A check that keeps what it passes leaves the text that was read. -/
theorem field_str_of_checked {entries : Entries} {name default t : Text} {check : Text → Option Text}
    {P : Text → Prop} (hcheck : ∀ a b, check a = some b → a = b ∧ P b) (hdefault : P default)
    (h : field entries name default (fun value => (env.lax.str value).bind check) = some t) :
    field entries name default env.lax.str = some t ∧ P t := by
  unfold field at h ⊢
  cases hvalue : Entries.get? name entries with
  | none =>
    rw [hvalue] at h
    obtain rfl := Option.some.inj h
    exact ⟨rfl, hdefault⟩
  | some value =>
    rw [hvalue] at h
    obtain ⟨a, ha, hchecked⟩ := Option.bind_eq_some_iff.1 h
    obtain ⟨rfl, hP⟩ := hcheck a t hchecked
    exact ⟨ha, hP⟩

theorem field_str_of_identity {entries : Entries} {name default t : Text}
    (hdefault : strip default ≠ [])
    (h : field entries name default (fun value => (env.lax.str value).bind validateIdentity) =
      some t) :
    field entries name default env.lax.str = some t ∧ strip t ≠ [] := by
  apply field_str_of_checked (P := fun t => strip t ≠ []) _ hdefault h
  intro a b hab
  unfold validateIdentity at hab
  split at hab
  · cases hab
  · next hne =>
    obtain rfl := Option.some.inj hab
    exact ⟨rfl, hne⟩

theorem NotesRead.firm {entries : Entries} {notes : NotesSettings} (h : NotesRead env entries notes) :
    field entries "sources_folder".toList "_Sources".toList env.lax.str =
      some notes.sourcesFolder ∧ Firm notes.sourcesFolder := by
  apply field_str_of_checked _ _ h.sourcesFolder
  · intro a b hab
    unfold portableFolder at hab
    by_cases hnil : sanitizeFolder env.unicode a = []
    · simp [hnil] at hab
    · by_cases hsame : sanitizeFolder env.unicode a = a
      · simp only [hsame, ne_eq, not_true_eq_false, if_false] at hab
        rw [hsame] at hnil
        rw [if_neg hnil] at hab
        obtain rfl := Option.some.inj hab
        refine ⟨rfl, ?_⟩
        intro part hpart
        rw [← hsame] at hpart hnil
        exact portablePart_of_mem_sanitizeFolder env.unicode hnil hpart
      · simp [hnil, hsame] at hab
  · intro part hpart
    obtain rfl : part = "_Sources".toList := by
      rw [List.splitOn_eq_singleton (by decide)] at hpart
      exact List.mem_singleton.1 hpart
    exact ⟨by decide, by decide, by decide, by decide, by decide⟩

end Accepted

section Agreement

variable {env : Env}

/-- What stands in the document for the settings the helper reads, none of it to be converted:
each value is of its setting's own type, the identity and the trash folder are single lines, and
the trash folder names one inside the notes filesystem. -/
structure Usable (document : Entries) (settings : ProductSettings) : Prop where
  enabled : plainFlag (Entries.get? "enabled".toList (entriesOf document "git".toList)) = true
  debounceS : plainNumber (Entries.get? "debounce_s".toList (entriesOf document "git".toList)) = true
  pollIntervalS :
    plainNumber (Entries.get? "poll_interval_s".toList (entriesOf document "git".toList)) = true
  identityName :
    plainText (Entries.get? "identity_name".toList (entriesOf document "git".toList)) = true ∧
      lf ∉ settings.git.identityName ∧ cr ∉ settings.git.identityName
  identityEmail :
    plainText (Entries.get? "identity_email".toList (entriesOf document "git".toList)) = true ∧
      lf ∉ settings.git.identityEmail ∧ cr ∉ settings.git.identityEmail
  gcAuto : plainFlag (Entries.get? "gc_auto".toList (entriesOf document "git".toList)) = true
  sourcesFolder :
    plainText (Entries.get? "sources_folder".toList (entriesOf document "notes".toList)) = true
  trashFolder :
    plainText (Entries.get? "trash_folder".toList (entriesOf document "notes".toList)) = true ∧
      (strip settings.notes.trashFolder ≠ [] ∧ lf ∉ settings.notes.trashFolder ∧
        cr ∉ settings.notes.trashFolder) ∧ namesFolder settings.notes.trashFolder = true

/-- The helper's view of the settings the model read. -/
def viewOf (settings : ProductSettings) : HelperSettings where
  enabled := settings.git.enabled
  debounceS := settings.git.debounceS
  pollIntervalS := settings.git.pollIntervalS
  identityName := PyStr.ofText (strip settings.git.identityName)
  identityEmail := PyStr.ofText (strip settings.git.identityEmail)
  gcAuto := settings.git.gcAuto
  sourcesFolder := PyStr.ofText settings.notes.sourcesFolder
  trashFolder := PyStr.ofText (trimSlash (strip settings.notes.trashFolder))

theorem bind_eq_ok_iff {ε α β : Type} {x : Except ε α} {f : α → Except ε β} {P : Prop} {a : α}
    {r : β} (hx : ∀ a', x = .ok a' ↔ P ∧ a' = a) : (x >>= f) = .ok r ↔ P ∧ f a = .ok r := by
  cases x with
  | error e =>
    have hP : ¬P := by
      intro hP
      cases (hx a).2 ⟨hP, rfl⟩
    constructor
    · intro h
      cases h
    · intro h
      exact absurd h.1 hP
  | ok a' =>
    obtain ⟨hP, rfl⟩ := (hx a').1 rfl
    exact ⟨fun h => ⟨hP, h⟩, fun h => h.2⟩

/-- The helper loads an accepted document exactly when it is usable as it stands, and then to the
view of what the model read. -/
theorem fromDocument_eq_ok_iff (hlax : env.lax.Faithful) {document : Entries}
    {settings : ProductSettings} {helper : HelperSettings}
    (hnotesSection : sectionOf document "notes".toList = .ok (entriesOf document "notes".toList))
    (hgitSection : sectionOf document "git".toList = .ok (entriesOf document "git".toList))
    (hnotes : NotesRead env (entriesOf document "notes".toList) settings.notes)
    (hgit : GitRead env (entriesOf document "git".toList) settings.git) :
    fromDocument document = .ok helper ↔ Usable document settings ∧ helper = viewOf settings := by
  obtain ⟨hname, hnameNe⟩ := field_str_of_identity (by decide) hgit.identityName
  obtain ⟨hemail, hemailNe⟩ := field_str_of_identity (by decide) hgit.identityEmail
  obtain ⟨hsources, hfirm⟩ := hnotes.firm
  unfold fromDocument
  rw [hnotesSection, hgitSection]
  change (flag _ _ _ >>= _) = _ ↔ _
  rw [bind_eq_ok_iff fun _ => flag_eq_ok_iff hlax hgit.enabled,
    bind_eq_ok_iff fun _ => seconds_eq_ok_iff hlax (by decide) hgit.debounceS,
    bind_eq_ok_iff fun _ => seconds_eq_ok_iff hlax (by decide) hgit.pollIntervalS,
    bind_eq_ok_iff fun _ => line_eq_ok_iff hlax hname,
    bind_eq_ok_iff fun _ => line_eq_ok_iff hlax hemail,
    bind_eq_ok_iff fun _ => flag_eq_ok_iff hlax hgit.gcAuto,
    bind_eq_ok_iff fun _ => folder_eq_ok_iff hlax hsources,
    bind_eq_ok_iff fun _ => folder_eq_ok_iff hlax hnotes.trashFolder]
  rw [hfirm.strip_eq, hfirm.trimSlash_eq]
  constructor
  · rintro ⟨henabled, hdebounce, hpoll, hnamePlain, hemailPlain, hgc, hsourcesPlain, htrash, hhelper⟩
    obtain rfl := Except.ok.inj hhelper
    exact ⟨⟨henabled, hdebounce, hpoll, ⟨hnamePlain.1, hnamePlain.2.2⟩,
      ⟨hemailPlain.1, hemailPlain.2.2⟩, hgc, hsourcesPlain.1.1, htrash.1.1, htrash.1.2, htrash.2⟩, rfl⟩
  · rintro ⟨husable, rfl⟩
    exact ⟨husable.enabled, husable.debounceS, husable.pollIntervalS,
      ⟨husable.identityName.1, hnameNe, husable.identityName.2⟩,
      ⟨husable.identityEmail.1, hemailNe, husable.identityEmail.2⟩, husable.gcAuto,
      ⟨⟨husable.sourcesFolder, hfirm.ne_nil, hfirm.oneLine⟩, hfirm.namesFolder⟩,
      ⟨⟨husable.trashFolder.1, husable.trashFolder.2.1⟩, husable.trashFolder.2.2⟩, rfl⟩

/-- A path in a folder the view excludes. -/
theorem keptOut_of_under {helper : HelperSettings} {name path rest : Text}
    (hname : PyStr.ofText name ∈ keptOut helper) (hpath : path = name ++ '/' :: rest) :
    KeptOut helper path := by
  refine ⟨PyStr.ofText name, hname, PyStr.ofText rest, ?_⟩
  rw [hpath, PyStr.ofText, PyStr.ofText, PyStr.ofText, List.map_append, List.map_cons,
    List.append_assoc]
  rfl

theorem trimSlash_trimSlash (t : Text) : trimSlash (trimSlash t) = trimSlash t :=
  trim_idempotent (· == '/') t

theorem sources_mem_keptOut {settings : ProductSettings} (hfirm : Firm settings.notes.sourcesFolder) :
    PyStr.ofText settings.notes.sourcesFolder ∈ keptOut (viewOf settings) := by
  simp only [keptOut, viewOf, stripSlash_ofText, hfirm.trimSlash_eq, List.mem_cons, true_or, or_true]

theorem trash_mem_keptOut (settings : ProductSettings) :
    PyStr.ofText (trimSlash (strip settings.notes.trashFolder)) ∈ keptOut (viewOf settings) := by
  simp only [keptOut, viewOf, stripSlash_ofText, trimSlash_trimSlash, List.mem_cons, true_or, or_true]

/-- The levels of a folder do not depend on the slashes around it. -/
theorem levels_trimSlash (t : Text) :
    ((trimSlash t).splitOn '/').filter (· ≠ []) = (t.splitOn '/').filter (· ≠ []) := by
  have hfront : ∀ u : Text,
      ((u.dropWhile (· == '/')).splitOn '/').filter (· ≠ []) = (u.splitOn '/').filter (· ≠ []) := by
    intro u
    induction u with
    | nil => rfl
    | cons c u ih =>
      by_cases hc : (c == '/') = true
      · obtain rfl := beq_iff_eq.1 hc
        rw [List.dropWhile_cons_of_pos (p := fun x => x == '/') hc, ih, List.splitOn_cons_eq_if_modifyHead, if_pos hc]
        rfl
      · rw [List.dropWhile_cons_of_neg (p := fun x => x == '/') hc]
  have hback : ∀ u : Text,
      ((u.rdropWhile (· == '/')).splitOn '/').filter (· ≠ []) = (u.splitOn '/').filter (· ≠ []) := by
    intro u
    induction u using List.reverseRecOn with
    | nil => rfl
    | append_singleton u c ih =>
      by_cases hc : (c == '/') = true
      · obtain rfl := beq_iff_eq.1 hc
        rw [List.rdropWhile_concat_pos (fun x => x == '/') _ _ hc, ih, List.splitOn_append_cons_self, List.filter_append]
        simp
      · rw [List.rdropWhile_concat_neg (fun x => x == '/') _ _ hc]
  rw [trimSlash, hback, hfront]

theorem intercalate_append {parts rest : List Text} (hparts : parts ≠ []) (hrest : rest ≠ []) :
    ['/'].intercalate (parts ++ rest) = ['/'].intercalate parts ++ '/' :: ['/'].intercalate rest := by
  induction parts with
  | nil => exact absurd rfl hparts
  | cons part parts ih =>
    cases parts with
    | nil =>
      rw [List.singleton_append, List.intercalate_singleton, List.intercalate_cons_of_ne_nil hrest,
        List.append_assoc]
      rfl
    | cons next parts =>
      have hmore := ih (List.cons_ne_nil _ _)
      rw [List.cons_append, List.cons_append, List.intercalate_cons_cons, List.intercalate_cons_cons,
        ← List.cons_append, hmore]
      simp only [List.append_assoc]

/-- A path below a trash folder without surrounding blanks lies in the folder the view excludes. -/
theorem keptOut_of_below {settings : ProductSettings} {path : Text}
    (hstripped : strip settings.notes.trashFolder = settings.notes.trashFolder)
    (hnames : namesFolder settings.notes.trashFolder = true)
    (hbelow : Below settings.notes.trashFolder path) : KeptOut (viewOf settings) path := by
  obtain ⟨rest, hrest, hpath⟩ := hbelow
  have hlevels : (settings.notes.trashFolder.splitOn '/').filter (· ≠ []) =
      (trimSlash settings.notes.trashFolder).splitOn '/' := by
    rw [← levels_trimSlash, List.filter_eq_self]
    intro part hpart
    rw [namesFolder, hstripped, List.all_eq_true] at hnames
    have hpart := hnames part hpart
    rw [decide_eq_true_eq] at hpart ⊢
    rintro rfl
    exact hpart (by simp [strip])
  rw [hlevels, intercalate_append (List.splitOn_ne_nil _ _) hrest, List.intercalate_splitOn] at hpath
  have hname := trash_mem_keptOut settings
  rw [hstripped] at hname
  exact keptOut_of_under hname hpath

/-- A page path the store chooses under these settings. -/
inductive PagePath (sourcesFolder : Text) : NotePath → Prop
  /-- `new_projection_path`. -/
  | pending {env : Sources.Env} {s : Sources.Store} {title : Text} {noteDate : Date} {path : NotePath}
      (hfolder : env.sourcesFolder = sourcesFolder)
      (hpath : newProjectionPath env s title noteDate = some path) : PagePath sourcesFolder path
  /-- `filed_source_path`, where it does not leave the page at the path its manifest records. -/
  | filed {manifest : Filing.Manifest} {id : Sources.SourceId} {month : Text}
      (hmoved : manifest.filedProjectionPath ≠
        some (Filing.filedSourcePath sourcesFolder manifest id month)) :
      PagePath sourcesFolder (Filing.filedSourcePath sourcesFolder manifest id month)

theorem under_of_pagePath {sourcesFolder : Text} (hne : sourcesFolder ≠ []) {path : NotePath}
    (h : PagePath sourcesFolder path) : ∃ rest, pathText path = sourcesFolder ++ '/' :: rest := by
  have htext : ∀ (rest name : Text),
      pathText ⟨sourcesFolder ++ '/' :: rest, name⟩ = sourcesFolder ++ '/' :: (rest ++ '/' :: name) := by
    intro rest name
    unfold pathText
    rw [if_neg (by simp [hne])]
    simp
  cases h with
  | pending hfolder hpath =>
    obtain ⟨stem, -, rfl⟩ := Option.map_eq_some_iff.1 hpath
    rw [hfolder, List.append_assoc]
    exact ⟨_, htext _ _⟩
  | filed hmoved =>
    unfold Filing.filedSourcePath at hmoved ⊢
    split
    · rw [Filing.sourcesMonth, List.append_assoc, List.cons_append]
      exact ⟨_, htext _ _⟩
    · next filed hfiled =>
      simp only [hfiled] at hmoved
      generalize (Naming.rpartition? '/' filed.folder).getD ([], filed.folder) = cut at hmoved ⊢
      obtain ⟨folder, filedMonth⟩ := cut
      by_cases hunder : folder = sourcesFolder ∧ Filing.isFiledMonth filedMonth = true
      · simp only [if_pos hunder]
        rw [Filing.sourcesMonth, List.append_assoc, List.cons_append]
        exact ⟨_, htext _ _⟩
      · simp only [if_neg hunder] at hmoved
        exact absurd rfl hmoved

/-- **One file read alike**: of the files the shared model accepts, the helper loads exactly those
whose settings need no conversion; whenever it does, it means what the model means, every page
path the store chooses lies in a folder that never enters history, and so does every path below a
trash folder whose name has no surrounding blanks. -/
theorem load_agrees (hlax : env.lax.Faithful) {file : ReadText} {settings : ProductSettings}
    (h : readSettings env file = some settings) (name : Text) :
    ∃ t document, file = .text t ∧ env.yaml t = .ok (.map document) ∧
      ((∃ helper, load env.yaml name file = .ok helper) ↔ Usable document settings) ∧
      ∀ helper, load env.yaml name file = .ok helper →
        helper.enabled = settings.git.enabled ∧ helper.debounceS = settings.git.debounceS ∧
          helper.pollIntervalS = settings.git.pollIntervalS ∧
          helper.identityName = PyStr.ofText (strip settings.git.identityName) ∧
          helper.identityEmail = PyStr.ofText (strip settings.git.identityEmail) ∧
          helper.gcAuto = settings.git.gcAuto ∧
          (∀ path, PagePath settings.notes.sourcesFolder path → KeptOut helper (pathText path)) ∧
          (strip settings.notes.trashFolder = settings.notes.trashFolder →
            ∀ path, Below settings.notes.trashFolder path → KeptOut helper path) := by
  obtain ⟨t, document, rfl, hyaml, hnotesSection, hgitSection, hnotes, hgit⟩ :=
    read_of_readSettings h
  have hload : load env.yaml name (.text t) = fromDocument document := by
    rw [load, hyaml]
  have hiff := fun helper =>
    @fromDocument_eq_ok_iff _ hlax _ _ helper hnotesSection hgitSection hnotes hgit
  refine ⟨t, document, rfl, hyaml, ?_, ?_⟩
  · rw [hload]
    constructor
    · rintro ⟨helper, hhelper⟩
      exact ((hiff helper).1 hhelper).1
    · intro husable
      exact ⟨viewOf settings, (hiff _).2 ⟨husable, rfl⟩⟩
  · intro helper hhelper
    rw [hload] at hhelper
    obtain ⟨husable, rfl⟩ := (hiff helper).1 hhelper
    have hfirm := hnotes.firm.2
    refine ⟨rfl, rfl, rfl, rfl, rfl, rfl, ?_, ?_⟩
    · intro path hpath
      obtain ⟨rest, hrest⟩ := under_of_pagePath hfirm.ne_nil hpath
      exact keptOut_of_under (sources_mem_keptOut hfirm) hrest
    · intro hstripped path hbelow
      exact keptOut_of_below hstripped husable.trashFolder.2.2 hbelow

end Agreement

section Sample

/-- The texts a flag is read from, in any case. -/
def sampleFlag (t : Text) : Option Bool :=
  let t := t.map Char.toLower
  if t ∈ ["0", "off", "f", "false", "n", "no"].map String.toList then some false
  else if t ∈ ["1", "on", "t", "true", "y", "yes"].map String.toList then some true
  else none

def sampleLax : Lax where
  bool
    | .bool b => some b
    | .int i => if i = 0 then some false else if i = 1 then some true else none
    | .str t => sampleFlag t
    | _ => none
  int
    | .int i => some i
    | .bool b => some (if b then 1 else 0)
    | .float (.finite q) => if q.den = 1 then some q.num else none
    | .str t => if t ≠ [] then (digits? t.length 0 t).map fun read => (read.1 : Int) else none
    | _ => none
  str
    | .str t => some t
    | _ => none
  strList
    | .seq _ items => items.mapM fun
      | .str t => some t
      | _ => none
    | _ => none

/-- `git:` with `poll_interval_s: '300'` below it. -/
def quoted : Text := "git:\n  poll_interval_s: '300'\n".toList

/-- The sections a person wrote out, nothing of them to be converted. -/
def plain : Text :=
  "git:\n  debounce_s: 5\n  identity_name: Notes Bot\nnotes:\n  trash_folder: Archive/Trash\n".toList

def sampleYaml (t : Text) : Except Text Value :=
  if t = quoted then
    .ok (.map [(.str "git".toList, .map [(.str "poll_interval_s".toList, .str "300".toList)])])
  else if t = plain then
    .ok (.map [(.str "git".toList, .map [(.str "debounce_s".toList, .int 5),
        (.str "identity_name".toList, .str "Notes Bot".toList)]),
      (.str "notes".toList, .map [(.str "trash_folder".toList, .str "Archive/Trash".toList)])])
  else .error "not of these".toList

def sampleEnv : Env where
  unicode := { nfc := id, upper := fun t => t.map Char.toUpper, casefold := fun t => t.map Char.toLower }
  lax := sampleLax
  pyInt
    | .int i => some i
    | _ => none
  yaml := sampleYaml
  accepts := fun _ _ => true

theorem sampleLax_faithful : sampleLax.Faithful where
  bool_bool := fun _ => rfl
  int_int := fun _ => rfl
  str_str := fun _ => rfl
  bool_null := rfl
  int_null := rfl
  str_null := rfl
  str_surrogate := fun _ => rfl

theorem readSettings_plain : readSettings sampleEnv (.text plain) =
    some { notes := { trashFolder := "Archive/Trash".toList },
           git := { debounceS := 5, identityName := "Notes Bot".toList } } := by
  decide +kernel

theorem load_agrees_plain :
    ∃ helper, load sampleEnv.yaml "settings.yaml".toList (.text plain) = .ok helper ∧
      helper.debounceS = 5 ∧ KeptOut helper "Archive/Trash/old.md".toList := by
  obtain ⟨t, document, -, -, -, hview⟩ :=
    load_agrees sampleLax_faithful readSettings_plain "settings.yaml".toList
  have hload : load sampleEnv.yaml "settings.yaml".toList (.text plain) =
      .ok { debounceS := 5, identityName := PyStr.lit "Notes Bot",
            trashFolder := PyStr.lit "Archive/Trash" } := by
    decide +kernel
  obtain ⟨-, hdebounce, -, -, -, -, -, htrash⟩ := hview _ hload
  refine ⟨_, hload, hdebounce, htrash (by decide +kernel) _ ⟨["old.md".toList], by simp, ?_⟩⟩
  decide +kernel

/-- Seconds in quotes are seconds to the shared model, and stop the helper. -/
theorem quoted_seconds_stop_load :
    sampleEnv.lax.Faithful ∧
      readSettings sampleEnv (.text quoted) = some { git := { pollIntervalS := 300 } } ∧
      load sampleEnv.yaml "settings.yaml".toList (.text quoted) =
        .error ("git.poll_interval_s: expected a whole number of seconds, at least 1".toList) :=
  ⟨sampleLax_faithful, by decide +kernel, by decide +kernel⟩

end Sample

end Coppermind.Settings
