import Coppermind.Filing.Approval
import Coppermind.Frontmatter.BodyBytes
import Coppermind.Sources.Ingest
import Coppermind.Sources.Order

/-!
# A pass publishes what is approved

The last part of a pass: the note keeps its mark where its links are rewritten and where it is
moved, and what is published under the record the pass has looked at is approved.  From the pass
as a whole, the run: in every run whose turns disturb no pass, every publication is approved.
-/

namespace Coppermind.Filing

open Coppermind.Lib Coppermind.Lib.Text Coppermind.Lib.Task Coppermind.Frontmatter Coppermind.Schema
open Coppermind.Artifacts (NotePath)
open Coppermind.Notes (FileBytes NoteId Libraries strOf isTrue strValue strValue_cases
  strValue_ne_bool strOf_strValue storable setStr jsonable jsonableEntries)
open Coppermind.Reconciler (Review)
open Coppermind.Sources (SourceId withKind withKinds ordered get?_ordered mem_of_get?
  present?_eq_some_iff blockLines blockEntries blockYaml sampleSources)

section Marks

/-- The keys of a mapping that came through JSON: strings without a NUL. -/
def Named (entries : Entries) : Prop := ∀ e ∈ entries, ∃ key : PyStr, 0 ∉ key ∧ e.1 = strValue key

/-- The YAML library loads what it dumps: under a key of such a mapping a boolean is loaded as it
was, as JSON too, and what is a string in JSON as something with the same `str`. -/
def LoadsBack (lib : Libraries) : Prop :=
  ∀ (entries : Entries) block, Named entries → entries ≠ [] →
    lib.yaml.dump .house (yamlMapping ⟨none, entries⟩) = .ok block →
    block.notBlank = true ∧ ∃ m, lib.yaml.load block = .ok (.mapping m) ∧
      (∀ k b, entries.get? k = some (.bool b) →
        (jsonableEntries lib.py m.entries []).get? k = some (.bool b)) ∧
      ∀ k v, k ∉ dateKeys → entries.get? k = some v → (str? (jsonable lib.py v)).isSome = true →
        ∃ v', m.entries.get? k = some v' ∧ v' ≠ .null ∧ strOf lib.py v' = strOf lib.py v

/-- The identity and the mark share no key with each other or with the citation of artifacts, and
the identity is not read as a date. -/
structure KeysApart (schema : FrontmatterSchema) : Prop where
  id_ne_reviewed : schema.roles.idKey ≠ schema.roles.reviewedKey
  artifacts_ne_reviewed : schema.artifactsKey ≠ schema.roles.reviewedKey
  artifacts_ne_id : schema.artifactsKey ≠ schema.roles.idKey
  id_notMem : schema.roles.idKey ∉ dateKeys
  id_kind : ((schema.keys.reverse.find? (·.name == schema.roles.idKey)).any (·.kind == .date)) = false
  id_nul : '\x00' ∉ schema.roles.idKey
  artifacts_nul : '\x00' ∉ schema.artifactsKey

/-- What a pass relies on: no two files have one hash, the YAML library loads what it dumps, and
the schema keeps its keys apart. -/
structure Dependable (env : Env) : Prop where
  hash : Function.Injective env.lib.hash
  lines : DumpsLines env.lib.yaml
  loads : LoadsBack env.lib
  keys : KeysApart env.schema

variable {env : Env} {id : NoteId} {entries : Entries}

/-- A composed note is parsed back. -/
theorem parse_composed {lib : Libraries} (hlines : DumpsLines lib.yaml) (hload : LoadsBack lib)
    {body text : Text} (hnamed : Named entries) (hne : entries ≠ [])
    (hcompose : compose lib.yaml ⟨none, entries⟩ body = .ok text) :
    ∃ loaded, Notes.parse lib.yaml text = .ok (loaded, body) ∧
      (∀ k b, entries.get? k = some (.bool b) →
        (jsonableEntries lib.py loaded []).get? k = some (.bool b)) ∧
      ∀ k v, k ∉ dateKeys → entries.get? k = some v → (str? (jsonable lib.py v)).isSome = true →
        ∃ v', loaded.get? k = some v' ∧ v' ≠ .null ∧ strOf lib.py v' = strOf lib.py v := by
  unfold compose composeAt dump at hcompose
  rw [if_neg hne] at hcompose
  cases hdump : lib.yaml.dump .house (yamlMapping ⟨none, entries⟩) with
  | error e =>
    rw [hdump] at hcompose
    cases hcompose
  | ok block =>
    rw [hdump] at hcompose
    obtain ⟨hblank, m, hm, hbool, hstr⟩ := hload entries block hnamed hne hdump
    have hentries : (yamlMapping ⟨none, entries⟩).entries ≠ [] := by
      rw [Sources.yamlMapping_entries]
      simpa using hne
    have hends := hlines.newline _ _ _ hentries hdump
    have hblock : block ≠ [] := by
      intro h
      rw [h] at hends
      cases hends
    have htext : text = delimiter ++ [lf] ++ (block ++ (delimiter ++ [lf] ++ body)) := by
      change (if block = [] then Except.ok body else Except.ok (delimiter ++ [lf] ++
        ((if block.getLast? = some lf then block else block ++ [lf]) ++
          (delimiter ++ [lf] ++ body)))) = Except.ok text at hcompose
      rw [if_neg hblock, if_pos hends] at hcompose
      exact (Except.ok.inj hcompose).symm
    obtain ⟨s, hsplit, hsblock, hsbody⟩ :=
      @split_composed _ body hends (hlines.clean _ _ _ hdump)
    refine ⟨m.entries, ?_, hbool, hstr⟩
    rw [Notes.parse, htext, hsplit]
    change (do
      let m ← parseBlock lib.yaml s.block
      return (m.entries, s.body)) = _
    rw [hsblock, hsbody, parseBlock, if_pos hblank, hm]
    rfl

theorem named_ofText {key : Text} (h : '\x00' ∉ key) :
    ∃ points : PyStr, 0 ∉ points ∧ Value.str key = strValue points := by
  refine ⟨PyStr.ofText key, ?_, (Sources.strValue_ofText key).symm⟩
  intro hmem
  obtain ⟨c, hc, hzero⟩ := List.mem_map.1 hmem
  have hnul : c = '\x00' := Char.ext (UInt32.toNat_inj.1 hzero)
  exact h (hnul ▸ hc)

theorem Named.set (h : Named entries) {key : Text}
    (hkey : ∃ points : PyStr, 0 ∉ points ∧ Value.str key = strValue points) (v : Value) :
    Named (entries.set key v) := by
  intro e he
  unfold Entries.set at he
  split at he
  · obtain ⟨e', he', rfl⟩ := List.mem_map.1 he
    obtain ⟨points, hpoints, hname⟩ := h e' he'
    refine ⟨points, hpoints, ?_⟩
    split <;> exact hname
  · obtain he | he := List.mem_append.1 he
    · exact h e he
    · obtain rfl := List.mem_singleton.1 he
      exact hkey

theorem Named.setStr (h : Named entries) {key : PyStr} (hkey : 0 ∉ key) (v : Value) :
    Named (setStr entries key v) := by
  intro e he
  unfold Notes.setStr at he
  split at he
  · obtain ⟨e', he', rfl⟩ := List.mem_map.1 he
    obtain ⟨points, hpoints, hname⟩ := h e' he'
    refine ⟨points, hpoints, ?_⟩
    split <;> exact hname
  · obtain he | he := List.mem_append.1 he
    · exact h e he
    · obtain rfl := List.mem_singleton.1 he
      exact ⟨key, hkey, rfl⟩

/-- **Names**: what is JSON has such keys. -/
theorem named_jsonableEntries {py : Python} (entries : List (Value × Value)) {done : Entries}
    (h : Named done) : Named (jsonableEntries py entries done) := by
  induction entries generalizing done with
  | nil => exact h
  | cons entry rest ih =>
    obtain ⟨key, value⟩ := entry
    exact ih (h.setStr (PyStr.zero_notMem_dropNul (strOf py key)) (jsonable py value))

theorem Named.map (h : Named entries) (f : Value × Value → Value) :
    Named (entries.map fun e => (e.1, f e)) := by
  intro e he
  obtain ⟨e', he', rfl⟩ := List.mem_map.1 he
  exact h e' he'

/-- A key of the schema that is written is one of the mapping's. -/
theorem named_known {values known : Entries} {definitions : List KeyDefinition}
    (hvalues : Named values) (hknown : Named known) :
    Named (definitions.foldl (Sources.placed values) known) := by
  induction definitions generalizing known with
  | nil => exact hknown
  | cons definition rest ih =>
    apply ih
    unfold Sources.placed
    cases hpresent : present? values definition.name with
    | none => exact hknown
    | some value =>
      have hget := (present?_eq_some_iff.1 hpresent).1
      exact hknown.set (hvalues _ (mem_of_get? hget)) value

theorem Named.ordered (h : Named entries) (py : Python) (schema : FrontmatterSchema) :
    Named (ordered py schema entries) := by
  have hkinds : Named (withKinds py schema entries) := h.map _
  intro e he
  obtain he | he := List.mem_append.1 he
  · exact @named_known _ [] _ hkinds (fun _ h => by cases h) e he
  · exact hkinds e (List.mem_of_mem_filter he)

theorem named_withArtifacts (hkeys : KeysApart env.schema) (h : Named entries)
    (added : List PyStr) : Named (withArtifacts env entries added) := by
  unfold withArtifacts
  split
  · exact h
  · exact h.set (named_ofText hkeys.artifacts_nul) _

theorem get?_withArtifacts {key : Text} (hkey : env.schema.artifactsKey ≠ key) (entries : Entries)
    (added : List PyStr) : (withArtifacts env entries added).get? key = entries.get? key := by
  unfold withArtifacts
  split
  · rfl
  · exact get?_set_of_ne (Ne.symm hkey) entries

/-- The value a key is written with over the current one. -/
def keptValue (env : Env) (current : Entries) (key v : Value) : Value :=
  match current.find? fun e => e.1.same key with
  | some held => if sameJson env v held.2 then held.2 else v
  | none => v

theorem keepingTypes_eq (sent current : Entries) :
    keepingTypes env sent current = sent.map fun e => (e.1, keptValue env current e.1 e.2) := by
  unfold keepingTypes
  apply List.map_congr_left
  intro e _
  unfold keptValue
  cases current.find? fun c => c.1.same e.1 with
  | none => rfl
  | some held =>
    dsimp only
    split <;> rfl

theorem same_str {key : Text} (v : Value) : v.same (.str key) = v.isText key := by
  cases v <;> simp [Value.same, Value.isText]

theorem get?_keepingTypes {sent current : Entries} {key : Text} {v : Value}
    (h : sent.get? key = some v) :
    (keepingTypes env sent current).get? key = some
      (match current.get? key with
        | some held => if sameJson env v held then held else v
        | none => v) := by
  rw [keepingTypes_eq, get?_map (keptValue env current), h, Option.map_some, keptValue]
  simp only [same_str, Entries.get?]
  cases current.find? fun e => e.1.isText key <;> rfl

theorem named_keepingTypes {sent current : Entries} (h : Named sent) :
    Named (keepingTypes env sent current) := by
  rw [keepingTypes_eq]
  exact h.map _

theorem eq_bool_of_jsonable {py : Python} {b : Bool} {v : Value} (h : jsonable py v = .bool b) :
    v = .bool b := by
  cases v <;> simp only [jsonable] at h
  case bool => exact h
  all_goals first | exact absurd h (strValue_ne_bool _ b) | cases h

theorem eq_bool_of_unstyled {b : Bool} {v : Value} (h : unstyled v = .bool b) : v = .bool b := by
  cases v <;> simp only [unstyled] at h
  case bool => exact h
  all_goals cases h

/-- Nothing else reads as a boolean. -/
theorem eq_bool_of_sameJson {b : Bool} {v : Value} (h : sameJson env (.bool b) v = true) :
    v = .bool b := by
  have hjson := eq_of_same _ _ h
  simp only [jsonable, unstyled] at hjson
  exact eq_bool_of_jsonable (eq_bool_of_unstyled hjson.symm)

theorem str?_unstyled (v : Value) : str? (unstyled v) = str? v := by
  cases v <;> simp [unstyled, str?]

/-- What reads as a string reads as one beside it. -/
theorem isSome_str?_of_sameJson {v w : Value} (h : sameJson env v w = true)
    (hv : (str? (jsonable env.lib.py v)).isSome = true) :
    (str? (jsonable env.lib.py w)).isSome = true := by
  have hjson := eq_of_same _ _ h
  rw [← str?_unstyled, ← hjson, str?_unstyled]
  exact hv

theorem isSome_str?_strValue (py : Python) (points : PyStr) :
    (str? (jsonable py (strValue points))).isSome = true := by
  have hstr : ∀ points : PyStr, (str? (strValue points)).isSome = true := by
    intro points
    obtain ⟨t, ht⟩ | ht := strValue_cases points
    · rw [ht]; rfl
    · rw [ht]; rfl
  obtain ⟨t, ht⟩ | ht := strValue_cases points
  · rw [ht, jsonable]
    exact hstr _
  · rw [ht, jsonable]
    exact hstr _

theorem withKind_bool {py : Python} {schema : FrontmatterSchema} (key : Value) (b : Bool) :
    withKind py schema key (.bool b) = .bool b := by
  unfold withKind
  cases key with
  | str name =>
    dsimp only
    split
    · rfl
    · split <;> rfl
  | _ => rfl

theorem withKind_strValue {py : Python} {schema : FrontmatterSchema} (hkeys : KeysApart schema)
    (points : PyStr) :
    withKind py schema (.str schema.roles.idKey) (strValue points) = strValue points := by
  unfold withKind
  dsimp only
  rw [hkeys.id_kind, if_neg Bool.false_ne_true]
  obtain ⟨t, ht⟩ | ht := strValue_cases points
  · rw [ht]
    simp
  · rw [ht]
    simp

theorem isReviewed_iff :
    isReviewed env entries = true ↔ entries.get? env.schema.roles.reviewedKey = some (.bool true) := by
  unfold isReviewed Notes.isTrue
  split
  · next b hb => simp [hb]
  · next hne =>
    constructor
    · intro h
      cases h
    · intro h
      exact absurd h (hne true)

/-- What a replace sends carries the mark and the identity. -/
theorem sent_of_replacementFrontmatter {note : Entries} {added : List PyStr} {sent : Entries}
    (hkeys : KeysApart env.schema) (hnamed : Named note) (hreviewed : isReviewed env note = true)
    (h : replacementFrontmatter env id (withArtifacts env note added) = .ok sent) :
    Named sent ∧ sent.get? env.schema.roles.reviewedKey = some (.bool true) ∧
      sent.get? env.schema.roles.idKey = some (strValue id) := by
  unfold replacementFrontmatter at h
  dsimp only at h
  split at h
  · cases h
  · split at h
    · obtain rfl := Except.ok.inj h
      refine ⟨?_, ?_, ?_⟩
      · exact ((named_withArtifacts hkeys hnamed added).set (named_ofText hkeys.id_nul) _).ordered _ _
      · have hmark : ((withArtifacts env note added).set env.schema.roles.idKey (strValue id)).get?
            env.schema.roles.reviewedKey = some (.bool true) := by
          rw [get?_set_of_ne (Ne.symm hkeys.id_ne_reviewed),
            get?_withArtifacts hkeys.artifacts_ne_reviewed]
          exact isReviewed_iff.1 hreviewed
        rw [get?_ordered (by rw [withKind_bool]; simp) hmark, withKind_bool]
      · have hne : strValue id ≠ .null := by
          obtain ⟨t, ht⟩ | ht := strValue_cases id
          · rw [ht]; simp
          · rw [ht]; simp
        have hself := @get?_set_self env.schema.roles.idKey (strValue id)
          (withArtifacts env note added)
        rw [get?_ordered (by rw [withKind_strValue hkeys]; exact hne) hself,
          withKind_strValue hkeys]
    · cases h

/-- What is written over the current note keeps the mark. -/
theorem get?_kept_mark {sent current : Entries}
    (h : sent.get? env.schema.roles.reviewedKey = some (.bool true)) :
    (keepingTypes env sent current).get? env.schema.roles.reviewedKey = some (.bool true) := by
  rw [get?_keepingTypes h]
  split
  · split
    · next hsame => rw [eq_bool_of_sameJson hsame]
    · rfl
  · rfl

/-- And the identity, as what it was or as a string. -/
theorem get?_kept_id {sent current : Entries} (hid : ∀ c ∈ id, c < 0x110000)
    (hcurrent : ∀ carried, present? current env.schema.roles.idKey = some carried →
      strOf env.lib.py carried = id)
    (h : sent.get? env.schema.roles.idKey = some (strValue id)) :
    ∃ v, (keepingTypes env sent current).get? env.schema.roles.idKey = some v ∧
      (str? (jsonable env.lib.py v)).isSome = true ∧ strOf env.lib.py v = id := by
  rw [get?_keepingTypes h]
  split
  · next held hheld =>
    split
    · next hsame =>
      have hsome := isSome_str?_of_sameJson hsame (isSome_str?_strValue _ id)
      have hne : held ≠ .null := by
        intro hnull
        rw [hnull] at hsome
        cases hsome
      exact ⟨held, rfl, hsome, hcurrent held (present?_eq_some_iff.2 ⟨hheld, hne⟩)⟩
    · exact ⟨_, rfl, isSome_str?_strValue _ id, strOf_strValue hid⟩
  · exact ⟨_, rfl, isSome_str?_strValue _ id, strOf_strValue hid⟩

/-- **The rewritten note**: a marked note that is replaced is that note, marked. -/
theorem marks_replacement {note : Entries} {added : List PyStr} {sent current written : Entries}
    {body text : Text} (henv : Dependable env) (hid : ∀ c ∈ id, c < 0x110000) (hnamed : Named note) (hreviewed : isReviewed env note = true)
    (hsent : replacementFrontmatter env id (withArtifacts env note added) = .ok sent)
    (hcurrent : ∀ carried, present? current env.schema.roles.idKey = some carried →
      strOf env.lib.py carried = id)
    (htext : replacementText env sent current body = .ok (written, text)) :
    marks env id (.utf8 text) = true := by
  obtain ⟨hnamed', hmark, hident⟩ := sent_of_replacementFrontmatter henv.keys hnamed hreviewed hsent
  unfold replacementText at htext
  split at htext
  · cases htext
  · dsimp only at htext
    split at htext
    · next text' hcompose =>
      obtain ⟨rfl, rfl⟩ := Prod.mk.inj (Except.ok.inj htext)
      have hne : keepingTypes env sent current ≠ [] := by
        intro h
        have hkept := @get?_kept_mark _ _ current hmark
        rw [h] at hkept
        cases hkept
      obtain ⟨loaded, hparse, hbool, hstr⟩ :=
        parse_composed henv.lines henv.loads (named_keepingTypes hnamed') hne hcompose
      have hloaded := hbool _ _ (get?_kept_mark hmark)
      obtain ⟨v, hv, hsome, hstrOf⟩ := get?_kept_id hid hcurrent hident
      obtain ⟨v', hv', hnull, hsame⟩ := hstr _ v henv.keys.id_notMem hv hsome
      unfold marks parseNote
      simp only [hparse, present?_eq_some_iff.2 ⟨hv', hnull⟩, hsame, hstrOf, if_true]
      exact isReviewed_iff.2 hloaded
    · cases htext
  · cases htext

end Marks

section Note

variable {env : Env} {id : NoteId} {r : PyStr → Option Nat} {items : List Item} {s : World}

/-- The bytes at a version, and the frontmatter they are parsed to. -/
theorem bytesAt_does {P : World → Prop} {site : Site} {path : NotePath} {ifMatch : PyStr}
    (h : Lasting env id [site] P) (hs : P s) :
    Does env id (fun read s' => P s' ∧ s'.file? path = some read.1 ∧ env.lib.hash read.1 = ifMatch ∧
      ∃ body, parseNote env id read.1 = .ok (read.2, body)) (bytesAt env id site path ifMatch) s := by
  apply does_bind
  · exact readFile_does h hs
  rintro data s₁ ⟨hs₁, hdata⟩
  apply does_bind (R := fun parsed s' => s' = s₁ ∧ parseNote env id data = .ok parsed)
  · exact does_ofExcept (h.kept s₁ hs₁) fun parsed hparsed => ⟨rfl, hparsed⟩
  rintro parsed s₂ ⟨hs₂, hparsed⟩
  subst hs₂
  apply does_bind (R := fun _ s' => s' = s₂ ∧ env.lib.hash data = ifMatch)
  · apply does_raiseIf (h.kept s₂ hs₁)
    intro hsame
    exact ⟨rfl, by simpa using hsame⟩
  rintro _ s₃ ⟨hs₃, hhash⟩
  subst hs₃
  exact does_pure ⟨hs₁, hdata, hhash, parsed.2, hparsed⟩

theorem carried_of_parse {data : FileBytes} {frontmatter : Entries} {body : Text}
    (h : parseNote env id data = .ok (frontmatter, body)) (carried : Value)
    (hcarried : present? frontmatter env.schema.roles.idKey = some carried) :
    strOf env.lib.py carried = id := by
  unfold parseNote at h
  cases data with
  | other bytes => cases h
  | utf8 text =>
    dsimp only at h
    cases hparse : Notes.parse env.lib.yaml text with
    | error e =>
      rw [hparse] at h
      cases e with
      | python className => cases h
      | frontmatter e =>
        dsimp only at h
        split at h <;> cases h
    | ok parsed =>
      obtain ⟨frontmatter', body'⟩ := parsed
      rw [hparse] at h
      dsimp only at h
      split at h
      · next carried' hpresent =>
        split at h
        · next hid =>
          obtain ⟨rfl, rfl⟩ := Prod.mk.inj (Except.ok.inj h)
          rw [hpresent] at hcarried
          obtain rfl := Option.some.inj hcarried
          exact hid
        · cases h
      · next hpresent =>
        obtain ⟨rfl, rfl⟩ := Prod.mk.inj (Except.ok.inj h)
        rw [hpresent] at hcarried
        cases hcarried

/-- A review that a replace records leaves what is approved. -/
theorem recordReplaced_does {current written : Entries} (hs : During env id r items s) :
    Does env id (fun _ => During env id r items) (recordReplaced env id current written) s := by
  unfold recordReplaced
  split
  · exact does_pure hs
  · apply does_step hs.kept
    · intro s₁ hleft hkept htaken
      have hs₁ := hs.left rfl hleft hkept
      cases hrecord : recordReview env id written s₁ with
      | error e => exact does_raised hkept
      | ok s₂ =>
        have hsame := htaken rfl
        simp only [hrecord] at hsame
        refine does_pure ⟨hkept.recordReview hrecord, ?_, ?_⟩
        · intro source
          rw [hsame source]
          exact hs₁.approved source
        · exact hs₁.planned.advances (Advances.of_manifests (manifests_recordReview hrecord))
    · intro s₁ _ hkept
      exact does_raised hkept

/-- **The replace**: it returns a marked note. -/
theorem replaceNote_does {note : Entries} {added : List PyStr} {body : Text} {ifMatch : PyStr}
    (henv : Dependable env) (hid : ∀ c ∈ id, c < 0x110000)
    (hnamed : Named note) (hreviewed : isReviewed env note = true) (hs : During env id r items s) :
    Does env id (fun note s' => During env id r items s' ∧ IsMarked env id note)
      (replaceNote env id (withArtifacts env note added) body ifMatch) s := by
  apply does_bind (R := fun sent s' => During env id r items s' ∧
    replacementFrontmatter env id (withArtifacts env note added) = .ok sent)
  · exact does_ofExcept hs.kept fun sent hsent => ⟨hs, hsent⟩
  rintro sent s₁ ⟨hs₁, hsent⟩
  apply does_bind (R := fun _ => During env id r items)
  · exact locate_does (lasting_during (by simp [locateSites, Site.isPastApproval])) hs₁
  intro path s₂ hs₂
  apply does_bind
  · exact bytesAt_does (lasting_during (by simp [Site.isPastApproval])) hs₂
  rintro read s₃ ⟨hs₃, _, _, body', hparse⟩
  apply does_bind (R := fun _ => During env id r items)
  · exact does_look hs₃.kept fun s' hleft hkept => hs₃.left rfl hleft hkept
  intro _ s₄ hs₄
  apply does_bind (R := fun new s' => During env id r items s' ∧
    replacementText env sent read.2 body = .ok new)
  · exact does_ofExcept hs₄.kept fun new hnew => ⟨hs₄, hnew⟩
  rintro new s₅ ⟨hs₅, hnew⟩
  obtain ⟨written, text⟩ := new
  have hmarks := marks_replacement henv hid hnamed hreviewed hsent (carried_of_parse hparse) hnew
  apply does_bind (R := fun _ => During env id r items)
  · exact does_look hs₅.kept fun s' hleft hkept => hs₅.left rfl hleft hkept
  intro _ s₆ hs₆
  apply does_bind (R := fun _ => During env id r items)
  · apply does_mono (bytesAt_does (lasting_during (by simp [Site.isPastApproval])) hs₆)
    intro _ s' h
    exact h.1
  intro _ s₇ hs₇
  apply does_bind (R := fun _ => During env id r items)
  · apply does_act hs₇.kept
    intro s' hleft hkept
    exact (hs₇.left rfl hleft hkept).of_same rfl rfl rfl rfl rfl
  intro _ s₈ hs₈
  apply does_bind (R := fun _ => During env id r items)
  · exact recordReplaced_does hs₈
  intro _ s₉ hs₉
  apply does_bind (R := fun _ => During env id r items)
  · apply does_act hs₉.kept
    intro s' hleft hkept
    exact (@lasting_during _ _ _ _ [] (by simp)).updateRow _ (hs₉.left rfl hleft hkept)
  intro _ s₁₀ hs₁₀
  exact does_pure ⟨hs₁₀, .utf8 text, rfl, hmarks⟩

theorem hasMark_of_bytes {note : Document} {path : NotePath} {data : FileBytes}
    (hhash : Function.Injective env.lib.hash) (hmarked : IsMarked env id note)
    (hfile : s.file? path = some data) (hdata : env.lib.hash data = note.contentHash) :
    HasMark env id s path := by
  obtain ⟨data', hsame, hmarks⟩ := hmarked
  obtain rfl := hhash (hsame.trans hdata.symm)
  exact ⟨_, hfile, hmarks⟩

theorem HasMark.of_notes {s' : World} {path : NotePath} (h : HasMark env id s path)
    (hnotes : s'.notes.lookup path = s.notes.lookup path) : HasMark env id s' path := by
  obtain ⟨data, hfile, hmarks⟩ := h
  refine ⟨data, ?_, hmarks⟩
  rw [← hfile]
  unfold World.file?
  rw [hnotes]

theorem lookup_of_file? {path : NotePath} {data : FileBytes} (h : s.file? path = some data) :
    s.notes.lookup path = some (.file data) := by
  unfold World.file? at h
  split at h
  · next hlookup =>
    obtain rfl := Option.some.inj h
    exact hlookup
  · cases h

theorem file?_of_lookup {path : NotePath} {data : FileBytes}
    (h : s.notes.lookup path = some (.file data)) : s.file? path = some data := by
  unfold World.file?
  rw [h]

/-- The file keeps its bytes under its new name. -/
theorem moveFile_does {path target : NotePath} (hne : target ≠ path)
    (hs : Marked env id r items path s) :
    Does env id (fun _ => Marked env id r items target) (moveFile path target) s := by
  apply does_step hs.1.kept
  · intro s₁ hleft hkept _
    have hs₁ := hs.left rfl rfl hleft hkept
    obtain ⟨data, hfile, hmarks⟩ := hs₁.2
    have hlookup := lookup_of_file? hfile
    cases htarget : s₁.notes.lookup target with
    | some e =>
      simp only [hlookup, Option.isSome_some, if_true]
      exact does_raised hkept
    | none =>
      simp only [hlookup, Option.isSome_none, Option.isNone_some, Bool.false_eq_true, if_false]
      have hs₂ : Marked env id r items target (s₁.setNote target (.file data)) := by
        refine ⟨hs₁.1.of_same rfl rfl rfl rfl rfl, data, file?_of_lookup ?_, hmarks⟩
        exact AList.lookup_insert _
      apply does_catch
      · apply does_step hs₂.1.kept
        · intro s₃ hleft' hkept' _
          have hs₃ := hs₂.left rfl rfl hleft' hkept'
          have hdropped : Marked env id r items target (s₃.dropNote path) :=
            ⟨hs₃.1.of_same rfl rfl rfl rfl rfl, hs₃.2.of_notes (AList.lookup_erase_ne hne)⟩
          split
          · exact does_pure hdropped
          · exact does_raised hdropped.1.kept
        · intro s₃ _ hkept'
          exact does_raised hkept'
      · intro e s₃ hkept'
        apply does_bind (R := fun _ => WellKept env)
        · apply does_act hkept'
          intro s₄ _ hkept''
          split
          · exact hkept''.of_same rfl rfl rfl rfl rfl
          · exact hkept''
        intro _ s₄ hs₄
        exact does_raised hs₄
  · intro s₁ _ hkept
    exact does_raised hkept

theorem Marked.updateRow {path : NotePath} (h : Marked env id r items path s)
    (f : NoteRow → NoteRow) : Marked env id r items path (updateRow id f s) := by
  unfold Filing.updateRow
  split
  · exact ⟨h.1.of_same rfl rfl rfl rfl rfl, h.2.of_notes rfl⟩
  · exact h

/-- **The move**: a marked note stands marked where it is moved. -/
theorem moveNote_does {note : Document} {folder : Text} (hhash : Function.Injective env.lib.hash)
    (hmarked : IsMarked env id note) (hs : During env id r items s) :
    Does env id (fun note s' => Marked env id r items note.path s')
      (moveNote env id folder note.contentHash) s := by
  unfold moveNote
  split
  · exact does_raised hs.kept
  next parts _ =>
  dsimp only
  apply does_bind (R := fun _ => During env id r items)
  · exact locate_does (lasting_during (by simp [locateSites, Site.isPastApproval])) hs
  intro path s₁ hs₁
  apply does_bind
  · exact bytesAt_does (lasting_during (by simp [Site.isPastApproval])) hs₁
  rintro read s₂ ⟨hs₂, hfile, hdata, _⟩
  have hmark₂ := hasMark_of_bytes hhash hmarked hfile hdata
  obtain ⟨data, frontmatter⟩ := read
  let target : NotePath := ⟨['/'].intercalate (env.existingFolder parts), path.name⟩
  apply does_bind (R := fun _ s' => s' = s₂)
  · exact does_ofExcept hs₂.kept fun _ _ => rfl
  intro parsed s₃ hs₃
  subst hs₃
  split
  · -- The note stands there already.
    next htarget =>
    apply does_bind (R := fun _ => Marked env id r items path)
    · apply does_look hs₂.kept
      intro s' hleft hkept
      exact Marked.left rfl rfl ⟨hs₂, hmark₂⟩ hleft hkept
    intro _ s₄ hs₄
    exact does_pure hs₄
  next hne =>
  apply does_bind (R := fun _ => During env id r items)
  · exact does_look hs₂.kept fun s' hleft hkept => hs₂.left rfl hleft hkept
  intro _ s₄ hs₄
  apply does_bind (R := fun _ => During env id r items)
  · exact does_raiseIf hs₄.kept fun _ => hs₄
  intro _ s₅ hs₅
  apply does_bind (R := fun _ => During env id r items)
  · exact does_look hs₅.kept fun s' hleft hkept => hs₅.left rfl hleft hkept
  intro _ s₆ hs₆
  apply does_bind (R := fun _ => During env id r items)
  · exact does_raiseIf hs₆.kept fun _ => hs₆
  intro _ s₇ hs₇
  apply does_bind
  · exact bytesAt_does (lasting_during (by simp [Site.isPastApproval])) hs₇
  rintro read s₈ ⟨hs₈, hfile₈, hdata₈, _⟩
  have hmark₈ := hasMark_of_bytes hhash hmarked hfile₈ hdata₈
  obtain ⟨data', frontmatter'⟩ := read
  apply does_bind (R := fun _ s' => s' = s₈)
  · exact does_ofExcept hs₈.kept fun _ _ => rfl
  intro parsed s₉ hs₉
  subst hs₉
  apply does_bind (R := fun _ => Marked env id r items path)
  · apply does_look hs₈.kept
    intro s' hleft hkept
    exact Marked.left rfl rfl ⟨hs₈, hmark₈⟩ hleft hkept
  intro _ s₁₀ hs₁₀
  apply does_bind
  · exact moveFile_does hne hs₁₀
  intro _ s₁₁ hs₁₁
  apply does_bind (R := fun _ => Marked env id r items target)
  · apply does_act hs₁₁.1.kept
    intro s' hleft hkept
    exact (hs₁₁.left rfl rfl hleft hkept).updateRow _
  intro _ s₁₂ hs₁₂
  exact does_pure hs₁₂

end Note

section Publishing

variable {env : Env} {id : NoteId} {r : PyStr → Option Nat} {items : List Item} {s : World}
  {note : Document}

/-- What a publication under an unchanged record writes is approved. -/
theorem isApproved_of_published {placed : List (SourceId × Nat)} {approved : Review}
    (hs : Marked env id r items note.path s) (hplaced : PlacedApproved r placed)
    (happroved : ∀ source, World.approvedFor (some approved) source = r source) :
    Publication.IsApproved env
      { noteId := id, placed, rows := publishedRows approved note, file := s.notes.lookup note.path
        review := s.reviews.lookup id, since := s.since id } where
  marked := by
    obtain ⟨data, hfile, hmarks⟩ := hs.2
    exact ⟨data, lookup_of_file? hfile, hmarks⟩
  placed := by
    intro x hx
    exact (hs.1.approved _).trans (hplaced x hx)
  rows := by
    intro x hx
    obtain ⟨source, -, rfl⟩ := List.mem_map.1 hx
    exact (happroved source).trans (hs.1.approved source).symm
  placed_before := by
    intro x hx hsince
    have hlt := hs.1.kept.since_lt id x hsince x.2 ((hs.1.approved _).trans (hplaced x hx))
    exact Nat.lt_irrefl _ hlt
  rows_before := by
    intro x hx y hy hsource hrow
    obtain ⟨source, -, rfl⟩ := List.mem_map.1 hx
    obtain rfl : PyStr.ofText y.1 = source := hsource
    have hlt := hs.1.kept.since_lt id y hy y.2 (by
      rw [hs.1.approved, ← happroved]
      exact hrow)
    exact Nat.lt_irrefl _ hlt

theorem wellKept_published {placed : List (SourceId × Nat)} {approved : Review} {s' : World}
    (hs : Marked env id r items note.path s) (hplaced : PlacedApproved r placed)
    (happroved : ∀ source, World.approvedFor (some approved) source = r source)
    (h : published id placed approved note s = some s') : WellKept env s' ∧ Planned items s' := by
  have hkept := hs.1.kept
  unfold published at h
  split at h
  · split at h
    · obtain rfl := Option.some.inj h
      refine ⟨⟨hkept.approved_le, hkept.planned_le, hkept.since_lt, ?_⟩, hs.1.planned⟩
      intro p hp
      obtain hp | hp := List.mem_append.1 hp
      · exact hkept.published p hp
      · obtain rfl := List.mem_singleton.1 hp
        exact isApproved_of_published hs hplaced happroved
    · cases h
  · cases h

/-- **The publication**: under the record the pass has looked at, it publishes what is approved. -/
theorem publish_does {placed : List (SourceId × Nat)} (hs : Marked env id r items note.path s)
    (hplaced : PlacedApproved r placed) :
    Does env id (fun _ s' => WellKept env s' ∧ Planned items s') (publish id placed note) s := by
  apply does_bind (R := fun approved s' => Marked env id r items note.path s' ∧
    ∀ source, World.approvedFor (some approved) source = r source)
  · apply does_lookOr hs.1.kept
    intro s' approved hleft hkept hread
    have hs' := hs.left rfl rfl hleft hkept
    refine ⟨hs', fun source => ?_⟩
    have hlookup : s'.reviews.lookup id = some approved := by
      split at hread
      · next hreview =>
        rw [hreview, Except.ok.inj hread]
      · cases hread
    rw [← hs'.1.approved source, approvedAt, hlookup]
  rintro approved s₁ ⟨hs₁, happroved⟩
  apply does_step hs₁.1.kept
  · intro s₂ hleft hkept _
    have hs₂ := hs₁.left rfl rfl hleft hkept
    cases hpublished : published id placed approved note s₂ with
    | none => exact does_raised hkept
    | some s₃ => exact does_pure (wellKept_published hs₂ hplaced happroved hpublished)
  · intro s₂ _ hkept
    exact does_raised hkept

@[simp] theorem Plan.items_remember (plan : Plan) (copy : Copy) :
    (plan.remember copy).items = plan.items := by
  unfold Plan.remember Plan.items
  split <;> rfl

/-- A plan with a copy of the note's bytes; the note that was read stands there. -/
theorem rememberNote_does {reading : Reading} {plan : Plan}
    (hhash : Function.Injective env.lib.hash) (hplan : plan.items = items)
    (hs : During env id r items s) :
    Does env id (fun plan s' => plan.items = items ∧ During env id r items s' ∧
      (reading = .again → IsMarked env id note → HasMark env id s' note.path))
      (rememberNote env id reading plan note) s := by
  apply does_bind (R := fun data s' => During env id r items s' ∧ s'.file? note.path = some data)
  · apply does_lookOr hs.kept
    intro s' data hleft hkept hread
    refine ⟨hs.left rfl hleft hkept, ?_⟩
    split at hread
    · next hfile =>
      obtain rfl := Except.ok.inj hread
      exact hfile
    · cases hread
  rintro data s₁ ⟨hs₁, hfile⟩
  apply does_bind (R := fun _ s' => s' = s₁ ∧ env.lib.hash data = note.contentHash)
  · apply does_raiseIf hs₁.kept
    intro hsame
    exact ⟨rfl, by simpa using hsame⟩
  rintro _ s₂ ⟨hs₂, hdata⟩
  subst hs₂
  apply does_bind (R := fun _ s' => During env id r items s' ∧
    (reading = .again → IsMarked env id note → HasMark env id s' note.path))
  · apply does_act hs₁.kept
    intro s' hleft hkept
    refine ⟨(hs₁.left rfl hleft hkept).setJournal id (by simpa using hplan), ?_⟩
    intro hagain hmarked
    subst hagain
    have hmark := hleft.mark rfl _ (hasMark_of_bytes hhash hmarked hfile hdata)
    exact hmark.of_notes rfl
  intro _ s₃ hs₃
  exact does_pure ⟨by simpa using hplan, hs₃⟩

theorem rewriteNote_does {plan : Plan} {filed : Filed} (henv : Dependable env) (hid : ∀ c ∈ id, c < 0x110000)
    (hjson : ∃ frontmatter, note.frontmatter = jsonableEntries env.lib.py frontmatter [])
    (hreviewed : isReviewed env note.frontmatter = true) (hmarked : IsMarked env id note)
    (hs : During env id r items s) :
    Does env id (fun note s' => During env id r items s' ∧ IsMarked env id note)
      (rewriteNote env id plan filed note) s := by
  unfold rewriteNote
  dsimp only
  split
  · obtain ⟨frontmatter, hfrontmatter⟩ := hjson
    have hnamed : Named note.frontmatter := by
      rw [hfrontmatter]
      exact named_jsonableEntries frontmatter fun _ h => by cases h
    exact replaceNote_does henv hid hnamed hreviewed hs
  · exact does_pure ⟨hs, hmarked⟩

theorem moveUnder_does {folder : Text} {plan : Plan} (hhash : Function.Injective env.lib.hash)
    (hplan : plan.items = items) (hmarked : IsMarked env id note)
    (hs : Marked env id r items note.path s) :
    Does env id (fun filed s' => filed.1.items = items ∧ Marked env id r items filed.2.path s')
      (moveUnder env id folder plan note) s := by
  unfold moveUnder
  split
  · exact does_pure ⟨hplan, hs⟩
  · apply does_bind (R := fun _ => During env id r items)
    · apply does_act hs.1.kept
      intro s' hleft hkept
      exact (hs.1.left rfl hleft hkept).setJournal id hplan
    intro _ s₁ hs₁
    apply does_bind
    · exact moveNote_does hhash hmarked hs₁
    intro moved s₂ hs₂
    exact does_pure ⟨hplan, hs₂⟩

/-- **The note**: once the sources are placed, it is rewritten, moved and published. -/
theorem fileRead_does {month folder : Text} {plan : Plan} {filed : Filed}
    (henv : Dependable env) (hid : ∀ c ∈ id, c < 0x110000) (hplan : plan.items = items)
    (hplaced : PlacedApproved r filed.placed) (hs : During env id r items s) :
    Does env id (fun _ => WellKept env) (fileRead env id month folder plan filed) s := by
  apply does_bind
  · apply getNote_does (r := .again) _ hs
    exact lasting_during (by simp [readSites, locateSites, Site.isPastApproval])
  intro note s₁ hnote
  apply does_bind (R := fun _ s' => s' = s₁ ∧ isReviewed env note.frontmatter = true)
  · apply does_raiseIf hnote.lasts.kept
    intro h
    simp only [Bool.or_eq_false_iff, Bool.not_eq_false'] at h
    exact ⟨rfl, h.1⟩
  rintro _ s₂ ⟨hs₂, hreviewed⟩
  subst hs₂
  apply does_bind (R := fun _ s' => s' = s₂)
  · exact does_raiseIf hnote.lasts.kept fun _ => rfl
  intro _ s₃ hs₃
  subst hs₃
  apply does_bind
  · exact rewriteNote_does henv hid hnote.json hreviewed (hnote.marked hreviewed) hnote.lasts
  rintro rewritten s₄ ⟨hs₄, hmarked₄⟩
  apply does_bind
  · exact rememberNote_does henv.hash hplan hs₄
  rintro plan₅ s₅ ⟨hplan₅, hs₅, hmark₅⟩
  apply does_bind
  · exact moveUnder_does henv.hash hplan₅ hmarked₄ ⟨hs₅, hmark₅ rfl hmarked₄⟩
  rintro moved s₆ ⟨hplan₆, hs₆⟩
  obtain ⟨plan₆, note₆⟩ := moved
  apply does_bind (R := fun _ => Marked env id r items note₆.path)
  · apply does_act hs₆.1.kept
    intro s' hleft hkept
    exact (hs₆.left rfl rfl hleft hkept).setJournal id hplan₆
  intro _ s₇ hs₇
  apply does_bind
  · exact publish_does hs₇ hplaced
  intro _ s₈ hs₈
  apply does_bind (R := fun _ => WellKept env)
  · exact does_look hs₈.1 fun s' _ hkept => hkept
  intro _ s₉ hs₉
  exact does_pure hs₉

end Publishing

section Pass

variable {env : Env} {id : NoteId} {s : World} {note : Document}

/-- The items of a plan, none where there is none. -/
def itemsOf (plan : Option Plan) : List Item := (plan.map (·.items)).getD []

/-- What a pass knows once it has looked at the record: the manifests are those it read. -/
structure Looked (env : Env) (id : NoteId) (p : Prepared) (w : World) : Prop where
  marked : Marked env id (World.approvedFor (some p.review)) (itemsOf p.plan) p.note.path w
  manifests : manifestsOf w p.ids = .ok p.manifests

theorem manifestsOf_congr {w w' : World} (h : w'.manifests = w.manifests) (ids : List SourceId) :
    manifestsOf w' ids = manifestsOf w ids := by
  unfold manifestsOf
  rw [h]

theorem lookup_of_manifestsOf {w : World} {ids : List SourceId}
    {manifests : List (SourceId × Manifest)} (h : manifestsOf w ids = .ok manifests)
    {m : SourceId × Manifest} (hm : m ∈ manifests) : w.manifests.lookup m.1 = some m.2 := by
  obtain ⟨id, -, hid⟩ := forall₂_mem_left (mapM_eq_ok.1 h).flip hm
  split at hid
  · next held hheld =>
    obtain rfl := Except.ok.inj hid
    exact hheld
  · cases hid

/-- What a record that is missing implies is current. -/
theorem current_of_impliedReview {plan : Option Plan} {ids : List SourceId}
    {manifests : List (SourceId × Manifest)} (hs : WellKept env s)
    (hplan : s.journals.lookup id = plan) (hmanifests : manifestsOf s ids = .ok manifests)
    {source : PyStr} {r : Nat}
    (hr : World.approvedFor (some (impliedReview plan manifests)) source = some r) :
    ∃ c, currentOf s (source.map Char.ofNat) = some c ∧ r ≤ c := by
  have hmem := approvedFor_eq_some hr
  unfold impliedReview at hmem
  dsimp only at hmem
  split at hmem
  · next items hitems =>
    obtain ⟨item, hitem, hpair⟩ := List.mem_map.1 hmem
    obtain ⟨plan', rfl, hsources⟩ := Option.bind_eq_some_iff.1 hitems
    obtain ⟨hsource, hrevision⟩ := Prod.mk.inj hpair
    obtain ⟨c, hc, hle⟩ := hs.planned_le id plan' hplan item (by
      rw [Plan.items, hsources]
      exact hitem)
    refine ⟨c, ?_, ?_⟩
    · rw [← hsource, Sources.map_ofNat_ofText]
      exact hc
    · rw [← Option.some.inj hrevision]
      exact hle
  · obtain ⟨m, hm, hpair⟩ := List.mem_map.1 hmem
    obtain ⟨hsource, hrevision⟩ := Prod.mk.inj hpair
    refine ⟨m.2.currentRevision, ?_, (Option.some.inj hrevision).ge⟩
    rw [← hsource, Sources.map_ofNat_ofText, currentOf, lookup_of_manifestsOf hmanifests hm,
      Option.map_some]

/-- Before the record is looked at: the plan is the one that was read. -/
structure Before (env : Env) (id : NoteId) (path : NotePath) (plan : Option Plan) (w : World) :
    Prop where
  kept : WellKept env w
  mark : HasMark env id w path
  journal : w.journals.lookup id = plan

theorem Before.left {site : Site} {path : NotePath} {plan : Option Plan} {s' : World}
    (hread : site.isPastReading = true) (h : Before env id path plan s)
    (hleft : Left env id site s s') (hkept : WellKept env s') : Before env id path plan s' where
  kept := hkept
  mark := hleft.mark hread path h.mark
  journal := by rw [hleft.journals, h.journal]

theorem Before.planned {path : NotePath} {plan : Option Plan} (h : Before env id path plan s) :
    Planned (itemsOf plan) s := by
  intro item hitem
  cases plan with
  | none => cases hitem
  | some plan => exact h.kept.planned_le id plan h.journal item hitem

theorem readReview_does {path : NotePath} {plan : Option Plan} {ids : List SourceId}
    {manifests : List (SourceId × Manifest)} (hs : Before env id path plan s)
    (hmanifests : manifestsOf s ids = .ok manifests) :
    Does env id (fun review s' => Marked env id (World.approvedFor (some review)) (itemsOf plan) path s' ∧
      manifestsOf s' ids = .ok manifests) (readReview id plan manifests) s := by
  apply does_bind (R := fun found s' => (Before env id path plan s' ∧
    manifestsOf s' ids = .ok manifests) ∧ s'.reviews.lookup id = found)
  · apply does_look hs.kept
    intro s' hleft hkept
    refine ⟨⟨hs.left rfl hleft hkept, ?_⟩, rfl⟩
    rw [manifestsOf_congr (hleft.manifests rfl)]
    exact hmanifests
  rintro found s₁ ⟨⟨hs₁, hmanifests₁⟩, hfound⟩
  cases found with
  | some review =>
    refine does_pure ⟨⟨⟨hs₁.kept, ?_, hs₁.planned⟩, hs₁.mark⟩, hmanifests₁⟩
    intro source
    rw [approvedAt, hfound]
  | none =>
    apply does_bind (R := fun _ s' =>
      Marked env id (World.approvedFor (some (impliedReview plan manifests))) (itemsOf plan) path s' ∧
        manifestsOf s' ids = .ok manifests)
    · apply does_act hs₁.kept
      intro s' hleft hkept
      have hs' := hs₁.left rfl hleft hkept
      have hmanifests' : manifestsOf s' ids = .ok manifests := by
        rw [manifestsOf_congr (hleft.manifests rfl)]
        exact hmanifests₁
      refine ⟨⟨⟨?_, approvedAt_setReview_self id _, hs'.planned⟩, hs'.mark.of_notes rfl⟩,
        hmanifests'⟩
      exact hkept.setReview id fun source r hr =>
        current_of_impliedReview hkept hs'.journal hmanifests' hr
    intro _ s₂ hs₂
    exact does_pure hs₂

theorem prepare_does (hs : WellKept env s) (hmark : HasMark env id s note.path) :
    Does env id (fun p s' => Looked env id p s' ∧ p.note = note) (prepare env id note) s := by
  apply does_bind (R := fun plan => Before env id note.path plan)
  · apply does_look hs
    intro s' hleft hkept
    exact ⟨hkept, hleft.mark rfl _ hmark, rfl⟩
  intro plan s₁ hs₁
  apply does_bind (R := fun _ => Before env id note.path plan)
  · unfold confirm
    split
    · exact does_look hs₁.kept fun s' hleft hkept => hs₁.left rfl hleft hkept
    · exact does_pure hs₁
  intro _ s₂ hs₂
  apply does_bind (R := fun _ s' => s' = s₂)
  · exact does_ofExcept hs₂.kept fun _ _ => rfl
  intro day s₃ hs₃
  subst hs₃
  apply does_bind (R := fun _ s' => s' = s₃)
  · exact does_ofExcept hs₂.kept fun _ _ => rfl
  intro ids s₄ hs₄
  subst hs₄
  apply does_bind (R := fun manifests s' => Before env id note.path plan s' ∧
    manifestsOf s' ids = .ok manifests)
  · apply does_lookOr hs₂.kept
    intro s' manifests hleft hkept hread
    exact ⟨hs₂.left rfl hleft hkept, hread⟩
  rintro manifests s₅ ⟨hs₅, hmanifests⟩
  apply does_bind
  · exact readReview_does hs₅ hmanifests
  rintro review s₆ ⟨hs₆, hmanifests₆⟩
  exact does_pure ⟨⟨hs₆, hmanifests₆⟩, rfl⟩

/-- The items of the rebuilt plan are approved and have arrived. -/
theorem rebuiltPlan_items {p : Prepared} {r : PyStr → Option Nat} {before : List Item}
    (hs : During env id (World.approvedFor (some p.review)) before s)
    (hmanifests : manifestsOf s p.ids = .ok p.manifests)
    (happroved : isUnapproved p.review p.manifests = false)
    (hr : r = World.approvedFor (some p.review)) {items : List Item}
    (hitems : items = (rebuiltPlan env p.plan p.month p.folder p.note p.manifests).items) :
    During env id r items s ∧ ∀ item ∈ items, r (PyStr.ofText item.id) = some item.revision := by
  subst hr
  unfold isUnapproved at happroved
  simp only [Bool.or_eq_false_iff, List.any_eq_false, bne_iff_ne, ne_eq, not_not] at happroved
  have hmem : ∀ item ∈ items, ∃ m ∈ p.manifests, item.id = m.1 ∧ item.revision = m.2.currentRevision := by
    intro item hitem
    rw [hitems] at hitem
    obtain ⟨m, hm, rfl⟩ := List.mem_map.1 hitem
    exact ⟨m, hm, rfl, rfl⟩
  refine ⟨⟨hs.kept, hs.approved, ?_⟩, ?_⟩
  · intro item hitem
    obtain ⟨m, hm, hid, hrevision⟩ := hmem item hitem
    refine ⟨m.2.currentRevision, ?_, hrevision.le⟩
    rw [currentOf, hid, lookup_of_manifestsOf hmanifests hm, Option.map_some]
  · intro item hitem
    obtain ⟨m, hm, hid, hrevision⟩ := hmem item hitem
    rw [hid, hrevision]
    exact happroved.2 m hm

/-- **The filing**: from a plan rebuilt from the manifests. -/
theorem fileSources_does {p : Prepared} (henv : Dependable env) (hid : ∀ c ∈ id, c < 0x110000)
    (happroved : isUnapproved p.review p.manifests = false) (hs : Looked env id p s) :
    Does env id (fun _ => WellKept env) (fileSources env id p) s := by
  apply does_bind (R := fun manifests s' => manifests = p.manifests ∧
    During env id (World.approvedFor (some p.review)) (itemsOf p.plan) s' ∧
      manifestsOf s' p.ids = .ok p.manifests)
  · apply does_lookOr hs.marked.1.kept
    intro s' manifests hleft hkept hread
    -- Nobody else had a turn since the pass read the manifests.
    have hsame : manifestsOf s' p.ids = .ok p.manifests := by
      rw [manifestsOf_congr (hleft.manifests rfl)]
      exact hs.manifests
    rw [hsame] at hread
    exact ⟨(Except.ok.inj hread).symm, hs.marked.1.left rfl hleft hkept, hsame⟩
  rintro manifests s₁ ⟨heq, hs₁, hmanifests⟩
  subst heq
  obtain ⟨hs₂, hitems⟩ := rebuiltPlan_items hs₁ hmanifests happroved rfl rfl
  apply does_bind
  · exact rememberNote_does henv.hash rfl hs₂
  rintro plan s₃ ⟨hplan, hs₃, _⟩
  apply does_bind (R := fun _ => During env id _ _)
  · apply does_act hs₃.kept
    intro s' hleft hkept
    exact (@lasting_during _ _ _ _ [] (by simp)).updateRow _ (hs₃.left rfl hleft hkept)
  intro _ s₄ hs₄
  apply does_bind (R := fun _ => During env id _ _)
  · apply does_act hs₄.kept
    intro s' hleft hkept
    exact (hs₄.left rfl hleft hkept).setJournal id hplan
  intro _ s₅ hs₅
  apply does_bind
  · apply placeSources_does _ (fun _ h => by cases h) hs₅
    rw [hplan]
    exact hitems
  rintro filed s₆ ⟨hs₆, hplaced⟩
  exact fileRead_does henv hid hplan hplaced hs₆

theorem publishAgain_does {p : Prepared} (hs : Looked env id p s) :
    Does env id (fun _ => WellKept env) (publishAgain id p) s := by
  apply does_bind
  · exact publish_does hs.marked fun _ h => by cases h
  rintro _ s₁ ⟨hkept₁, hplanned₁⟩
  cases hplan : p.plan with
  | none => exact does_pure hkept₁
  | some plan =>
    rw [hplan] at hplanned₁
    dsimp only
    split
    · exact does_pure hkept₁
    · apply does_bind (R := fun _ => WellKept env)
      · apply does_act hkept₁
        intro s' hleft hkept
        exact hkept.setJournal id (hplanned₁.advances hleft.advances)
      intro _ s₂ hs₂
      exact does_pure hs₂

theorem refuse_does {p : Prepared} (hs : Looked env id p s) :
    Does env id (fun _ => WellKept env) (refuse id p) s := by
  unfold refuse
  split
  · apply does_bind
    · exact publish_does hs.marked fun _ h => by cases h
    intro _ s₁ hs₁
    exact does_raised hs₁.1
  · exact does_raised hs.marked.1.kept

theorem lasting_kept {sites : List Site} : Lasting env id sites (WellKept env) where
  kept := fun _ h => h
  left := fun _ _ _ _ _ _ hkept => hkept
  rows := fun _ _ h => h.of_same rfl rfl rfl rfl rfl

/-- **A pass**: what it publishes is approved, in any weather it may expect. -/
theorem fileNote_does (henv : Dependable env) (hid : ∀ c ∈ id, c < 0x110000) (hs : WellKept env s) :
    Does env id (fun _ => WellKept env) (fileNote env id) s := by
  apply does_bind
  · exact getNote_does (r := .first) lasting_kept hs
  intro note s₁ hnote
  split
  · exact does_pure hnote.lasts
  next hreviewed =>
  apply does_bind
  · exact prepare_does hnote.lasts (hnote.mark rfl (by simpa using hreviewed))
  rintro p s₂ ⟨hs₂, _⟩
  cases happroved : isUnapproved p.review p.manifests with
  | true => exact refuse_does hs₂
  | false =>
    simp only [Bool.false_eq_true, if_false]
    split
    · exact publishAgain_does hs₂
    · exact fileSources_does henv hid happroved hs₂

end Pass

section Run

variable {env : Env}

/-- **Every publication is approved**: in a run whose turns disturb no pass, whatever is reviewed,
edited and ingested and wherever passes fail or are killed, what is published is marked reviewed
and is what the last recorded review approves. -/
theorem published_approved (henv : Dependable env) {w : World} {turns : List (Turn NoteId Event)}
    (hw : WellKept env w) (hrun : Along (storeTurn env) (Undisturbed env) ⟨w, none⟩ turns) :
    ∀ p ∈ (turns.foldl (storeTurn env) ⟨w, none⟩).world.published, p.IsApproved env := by
  have hway := @onTheWay_run _ _ _ _ _ _ (Event.apply env) Event.enabled (fileNote env)
    (passWeather env) (WellKept env) (Undisturbed env)
    (fun _ _ _ => Relation.ReflTransGen.refl)
    (fun _ _ _ _ _ h h' => h.trans h')
    (fun scene id hid s hs => fileNote_does henv hid hs)
    ?_ ?_ (fun _ _ => trivial) _ _ hrun ⟨hw, trivial⟩
  · exact hway.1.published
  · intro scene e he henabled hs
    refine ⟨hs.apply e, fun id site hsite => ?_⟩
    apply Relation.ReflTransGen.single
    exact ⟨e, by rw [← hsite]; exact henabled, he id site hsite, rfl⟩
  · intro scene hresume id site hsite hreview source
    subst hreview
    exact hresume id hsite source

end Run

section Samples

/-- A block that is loaded as it was dumped. -/
def readsBack (py : Python) (m : Mapping) (block : Text) : Bool :=
  block.notBlank && block.getLast? == some lf && scanClean true block &&
    sameEntries (blockEntries (splitLines block)) m.entries &&
    m.entries.all fun e =>
      match e with
      | (.str k, .bool b) =>
        match (jsonableEntries py m.entries []).get? k with
        | some (.bool b') => b == b'
        | _ => false
      | _ => true

/-- YAML of plain blocks, which dumps only what it loads back. -/
def checkedYaml : RoundTrip :=
  { blockYaml with
    dump := fun _ m =>
      let block := m.entries.flatMap blockLines
      if readsBack sampleSources.lib.py m block then .ok block
      else .error (.other "RepresenterError") }

/-- A store whose files are their own hashes. -/
def sampleFiling : Env where
  schema := sampleSources.schema
  closedTags := none
  notesFolder := "Notes".toList
  sourcesFolder := "Sources".toList
  attachmentsFolder := "Attachments".toList
  folders := ⟨"Review".toList, "Sources".toList, "Artifacts".toList⟩
  lifecycleEnabled := false
  reconcile := ⟨[], [], []⟩
  lib :=
    { sampleSources.lib with
      yaml := checkedYaml
      hash := fun
        | .utf8 text => 0 :: PyStr.ofText text
        | .other bytes => 1 :: bytes.map UInt8.toNat }
  unicode := sampleSources.unicode
  artifacts :=
    { unicode := sampleSources.unicode, sha256 := sampleSources.sha256
      mediaType := fun _ _ _ => [], extract := fun _ _ => ([], .unsupported), extractorVersion := []
      artifactsFolder := "Artifacts".toList, artifactMaxBytes := 1000
      localMonth := fun _ => ([], []) }
  existingFolder := id
  rewriteEmbeds := fun body _ => body
  draw := fun _ _ => ⟨0, 0, []⟩

def sampleNote : NoteId := PyStr.lit "01ARZ3NDEKTSV4RRFFQ69G5FAW"

def sampleSource : SourceId := "01ARZ3NDEKTSV4RRFFQ69G5FAV".toList

def samplePath : NotePath := ⟨"Notes/2026/2026-01".toList, "n.md".toList⟩

def samplePage (revision : Nat) : FileBytes :=
  .utf8 ("---\nsource_id: 01ARZ3NDEKTSV4RRFFQ69G5FAV\nsource_revision: ".toList ++
    (toString revision).toList ++ "\nmanaged: true\nreviewed: false\n---\ntext\n".toList)

def sampleText : FileBytes :=
  .utf8 ("---\nid: 01ARZ3NDEKTSV4RRFFQ69G5FAW\ndate: 2026-01-05T10:00:00\n".toList ++
    "reviewed: true\nsources:\n  - 01ARZ3NDEKTSV4RRFFQ69G5FAV\n---\nhello\n".toList)

def sampleRevision (n : Nat) : Sources.Revision :=
  { revision := n, ingestedAt := 0, capturedAt := none, contentIdentity := [], metadata := []
    artifacts := [] }

def sampleArrival : Arrival where
  provider := "mail".toList
  entry := sampleRevision
  bytes := []
  page := samplePage 2
  path := ⟨"Sources/_Unfiled".toList, "s.md".toList⟩

/-- A reviewed note of one source. -/
def sampleWorld : World where
  notes := [⟨samplePath, .file sampleText⟩, ⟨sampleArrival.path, .file (samplePage 1)⟩].toAList
  manifests :=
    [⟨sampleSource, ⟨"mail".toList, 1, [sampleRevision 1], sampleArrival.path, none⟩⟩].toAList
  archived := ∅
  reviews := ∅
  journals := ∅
  rows :=
    [⟨sampleNote, ⟨samplePath, sampleFiling.lib.hash sampleText, true, false, .ok, [], []⟩⟩].toAList
  noteSources := ∅
  artifacts := Artifacts.Store.empty
  since := fun _ => []
  published := []

def sampleMark : Entries :=
  [(.str "reviewed".toList, .bool true), (.str "sources".toList, .seq false [.str sampleSource])]

theorem checkedYaml_dumpsLines : DumpsLines checkedYaml where
  clean := by
    intro indent m block h
    simp only [checkedYaml] at h
    split at h
    · next hback =>
      obtain rfl := Except.ok.inj h
      simp only [readsBack, Bool.and_eq_true] at hback
      exact noDelimiter_iff_scanClean.2 hback.1.1.2
    · cases h
  newline := by
    intro indent m block _ h
    simp only [checkedYaml] at h
    split at h
    · next hback =>
      obtain rfl := Except.ok.inj h
      simp only [readsBack, Bool.and_eq_true, beq_iff_eq] at hback
      exact hback.1.1.1.2
    · cases h

theorem yamlScalar_bool (k : Text) (b : Bool) : yamlScalar k (.bool b) = .bool b := by
  unfold yamlScalar
  split <;> rfl

theorem loadsBack_sample : LoadsBack sampleFiling.lib := by
  intro entries block _ _ hdump
  simp only [sampleFiling, checkedYaml] at hdump
  split at hdump
  · next hback =>
    obtain rfl := Except.ok.inj hdump
    simp only [readsBack, Bool.and_eq_true] at hback
    obtain ⟨⟨⟨⟨hblank, -⟩, -⟩, hsame⟩, hbools⟩ := hback
    have hloaded := eq_of_sameEntries _ _ hsame
    refine ⟨hblank, ⟨some _, blockEntries (splitLines _)⟩, rfl, ?_, ?_⟩
    · intro k b hb
      have hget : (yamlMapping ⟨none, entries⟩).entries.get? k = some (.bool b) := by
        rw [Sources.get?_yamlMapping, hb, Option.map_some, yamlScalar_bool]
      have hcheck := List.all_eq_true.1 hbools _ (mem_of_get? hget)
      dsimp only at hcheck ⊢
      rw [hloaded]
      split at hcheck
      · next b' hb' =>
        rw [beq_iff_eq] at hcheck
        rw [hcheck]
        exact hb'
      · cases hcheck
    · intro k v hk hv hsome
      refine ⟨v, ?_, ?_, rfl⟩
      · dsimp only
        rw [hloaded, Sources.get?_yamlMapping, hv, Option.map_some, Sources.yamlScalar_of_notMem hk]
      · intro hnull
        rw [hnull] at hsome
        cases hsome
  · cases hdump

theorem dependable_sample : Dependable sampleFiling where
  hash := by
    intro data data' h
    cases data with
    | utf8 text =>
      cases data' with
      | utf8 text' =>
        have htext := (List.cons.inj h).2
        rw [Sources.ofText_injective htext]
      | other bytes => exact absurd (List.cons.inj h).1 (by decide)
    | other bytes =>
      cases data' with
      | utf8 text => exact absurd (List.cons.inj h).1 (by decide)
      | other bytes' =>
        have hbytes := (List.cons.inj h).2
        rw [List.map_injective_iff.2 (fun a b hab => UInt8.toNat_inj.1 hab) hbytes]
  lines := checkedYaml_dumpsLines
  loads := loadsBack_sample
  keys := by constructor <;> decide

theorem wellKept_sample : WellKept sampleFiling sampleWorld where
  approved_le := by
    intro id source r hr
    cases hr
  planned_le := by
    intro id plan hplan
    cases hplan
  since_lt := by
    intro id x hx
    cases hx
  published := by
    intro p hp
    cases hp

/-- A turn that is no event beside a pass, and no review of a pass's own. -/
def isQuietTurn (scene : Scene Site World Raised Bool NoteId) : Turn NoteId Event → Bool
  | .event _ => scene.site?.isNone
  | .start id => id.all (· < 0x110000)
  | .resume => scene.site?.all (·.2 != .replaceReview)
  | _ => true

def isQuiet (env : Env) : Scene Site World Raised Bool NoteId → List (Turn NoteId Event) → Bool
  | _, [] => true
  | scene, t :: rest => isQuietTurn scene t && isQuiet env (storeTurn env scene t) rest

theorem undisturbed_of_isQuietTurn {env : Env} {scene : Scene Site World Raised Bool NoteId}
    {t : Turn NoteId Event} (h : isQuietTurn scene t = true) : Undisturbed env scene t := by
  cases t with
  | event e =>
    intro id site hsite
    rw [isQuietTurn, hsite] at h
    cases h
  | start id =>
    intro c hc
    simpa using List.all_eq_true.1 h c hc
  | resume =>
    intro id hsite
    rw [isQuietTurn, hsite] at h
    cases h
  | _ => trivial

theorem undisturbed_of_isQuiet {env : Env} {scene : Scene Site World Raised Bool NoteId}
    {turns : List (Turn NoteId Event)} (h : isQuiet env scene turns = true) :
    Along (storeTurn env) (Undisturbed env) scene turns := by
  induction turns generalizing scene with
  | nil => trivial
  | cons t rest ih =>
    rw [isQuiet, Bool.and_eq_true] at h
    exact ⟨undisturbed_of_isQuietTurn h.1, ih h.2⟩

/-- A review, and a pass that files the note. -/
def sampleRun : List (Turn NoteId Event) :=
  [.event (.review sampleNote sampleMark), .start sampleNote] ++ List.replicate 32 .resume

theorem published_approved_sample :
    (sampleRun.foldl (storeTurn sampleFiling) ⟨sampleWorld, none⟩).world.published.length = 1 ∧
      ∀ p ∈ (sampleRun.foldl (storeTurn sampleFiling) ⟨sampleWorld, none⟩).world.published,
        p.IsApproved sampleFiling :=
  ⟨by decide +kernel, published_approved dependable_sample wellKept_sample
    (undisturbed_of_isQuiet (by decide +kernel))⟩

/-- A second revision arrives and is approved while a pass that placed the first goes on. -/
def lateReview : List (Turn NoteId Event) :=
  [.event (.review sampleNote sampleMark), .start sampleNote] ++ List.replicate 21 .resume ++
    [.event (.ingest sampleSource sampleArrival), .event (.review sampleNote sampleMark)] ++
    List.replicate 11 .resume

/-- It is the second that the pass publishes, and the first that it placed. -/
theorem publishes_what_it_did_not_place :
    ¬ ∀ (env : Env) (w : World) (turns : List (Turn NoteId Event)), Dependable env → WellKept env w →
      ∀ p ∈ (turns.foldl (storeTurn env) ⟨w, none⟩).world.published, p.IsApproved env := by
  intro hall
  have hrun : ((lateReview.foldl (storeTurn sampleFiling) ⟨sampleWorld, none⟩).world.published.map
      fun p => (p.placed, World.approvedFor p.review (PyStr.ofText sampleSource))) =
        [([(sampleSource, 1)], some 2)] := by
    decide +kernel
  obtain ⟨p, hp, hpair⟩ := List.mem_map.1 (hrun ▸ List.mem_singleton_self _ :
    ([(sampleSource, 1)], some 2) ∈ (lateReview.foldl (storeTurn sampleFiling)
      ⟨sampleWorld, none⟩).world.published.map
        fun p => (p.placed, World.approvedFor p.review (PyStr.ofText sampleSource)))
  obtain ⟨hplaced, happroved⟩ := Prod.mk.inj hpair
  have h := (hall sampleFiling sampleWorld lateReview dependable_sample wellKept_sample p hp).placed
    (sampleSource, 1) (by rw [hplaced]; exact List.mem_singleton_self _)
  rw [happroved] at h
  exact absurd h (by decide)

end Samples

end Coppermind.Filing
