import Coppermind.Notes.Rename
import Coppermind.Sources.Citation
import Coppermind.Sources.Outcome

/-!
# A request for a source that is there

A request whose source was created answers with that source and changes nothing; where the mirror
lost its rows to a commit that failed, they are put back from the manifest and the note's file.
-/

namespace Coppermind.Sources

open Coppermind.Lib Coppermind.Lib.Text Coppermind.Frontmatter Coppermind.Schema
open Coppermind.Artifacts (Bytes NotePath RevisionDir isValidId)
open Coppermind.Notes (FileBytes Row Values Column jsonable jsonableEntries jsonableEntry entriesAdmit
  entryAdmits jsonAdmits textAdmits mirrorColumns idList textOf strValue setStr titleOf)

section Admitted

variable {py : Python}

/-- Two mappings of the same keys, the second admitted wherever the first is. -/
def AdmittedLike (entries entries' : Entries) : Prop :=
  List.Forall₂ (fun e e' => e.1 = e'.1 ∧ (jsonAdmits e.2 = true → jsonAdmits e'.2 = true)) entries
    entries'

theorem AdmittedLike.setStr {entries entries' : Entries} {v v' : Value}
    (h : AdmittedLike entries entries') (key : PyStr)
    (hv : jsonAdmits v = true → jsonAdmits v' = true) :
    AdmittedLike (setStr entries key v) (setStr entries' key v') := by
  have hany : ∀ {es es' : Entries}, AdmittedLike es es' →
      (es.any fun e => str? e.1 == some key) = es'.any fun e => str? e.1 == some key := by
    intro es es' hes
    induction hes with
    | nil => rfl
    | cons he _ ih => rw [List.any_cons, List.any_cons, he.1, ih]
  have hmap : ∀ {es es' : Entries}, AdmittedLike es es' →
      AdmittedLike (es.map fun e => if str? e.1 == some key then (e.1, v) else e)
        (es'.map fun e => if str? e.1 == some key then (e.1, v') else e) := by
    intro es es' hes
    induction hes with
    | nil => exact .nil
    | cons he _ ih =>
      refine .cons ?_ ih
      dsimp only
      rw [he.1]
      split
      · exact ⟨rfl, hv⟩
      · exact ⟨he.1, he.2⟩
  unfold Notes.setStr
  rw [hany h]
  split
  · exact hmap h
  · exact List.rel_append h (.cons ⟨rfl, hv⟩ .nil)

theorem AdmittedLike.admits {entries entries' : Entries} (h : AdmittedLike entries entries')
    (hadmits : entriesAdmit entries = true) : entriesAdmit entries' = true := by
  induction h with
  | nil => exact hadmits
  | cons he _ ih =>
    rename_i e e' es es' _
    obtain ⟨key, value⟩ := e
    obtain ⟨key', value'⟩ := e'
    obtain ⟨rfl, hvalue⟩ := he
    rw [entriesAdmit, Bool.and_eq_true, entryAdmits, Bool.and_eq_true] at hadmits ⊢
    exact ⟨⟨hadmits.1.1, hvalue hadmits.1.2⟩, ih hadmits.2⟩

/-- A value as it was, or the date and time it stands for. -/
def Rescaled (v v' : Value) : Prop := v' = v ∨ ∃ d, v' = .timestamp d

theorem rescaled_yamlScalar (k : Text) (v : Value) : Rescaled v (yamlScalar k v) := by
  unfold yamlScalar
  split
  · exact Or.inl rfl
  · split
    · split
      · exact Or.inr ⟨_, rfl⟩
      · exact Or.inl rfl
    · split
      · exact Or.inl rfl
      · split
        · exact Or.inl rfl
        · exact Or.inr ⟨_, rfl⟩
    · exact Or.inl rfl

theorem admittedLike_jsonableEntries (hiso : ∀ d, jsonAdmits (strValue (py.isoformat (.timestamp d))) = true)
    (entries : Entries) {done done' : Entries} (hdone : AdmittedLike done done') :
    AdmittedLike (jsonableEntries py entries done)
      (jsonableEntries py (entries.map fun e => (e.1, scalarUnder e.1 e.2)) done') := by
  induction entries generalizing done done' with
  | nil => rwa [List.map_nil, jsonableEntries, jsonableEntries]
  | cons e rest ih =>
    obtain ⟨key, value⟩ := e
    rw [List.map_cons, jsonableEntries, jsonableEntries]
    apply ih
    rw [jsonableEntry, jsonableEntry]
    apply hdone.setStr
    have hrescaled : Rescaled value (scalarUnder key value) := by
      cases key with
      | str k => exact rescaled_yamlScalar k value
      | _ => exact Or.inl rfl
    intro hadmits
    obtain h | ⟨d, h⟩ := hrescaled
    · rwa [h]
    · rw [h, jsonable]
      exact hiso d

/-- The columns of a note's frontmatter take its values as they are read back. -/
theorem admitted_mirrorColumns {schema : FrontmatterSchema} {entries entries' : Entries}
    (h : Notes.Values.admitted (mirrorColumns py schema entries) = true)
    (hget : ∀ k, entries'.get? k = (entries.get? k).map (yamlScalar k)) :
    Notes.Values.admitted (mirrorColumns py schema entries') = true := by
  have hrescaled : ∀ k, entries'.get? k = entries.get? k ∨ ∃ d, entries'.get? k = some (.timestamp d) := by
    intro k
    rw [hget]
    cases entries.get? k with
    | none => exact Or.inl rfl
    | some v =>
      obtain h | ⟨d, h⟩ := rescaled_yamlScalar k v
      · exact Or.inl (by rw [Option.map_some, h])
      · exact Or.inr ⟨d, by rw [Option.map_some, h]⟩
  simp only [Notes.Values.admitted, mirrorColumns, List.all_append, List.all_cons, List.all_nil,
    Bool.and_true, Bool.and_eq_true] at h ⊢
  obtain ⟨⟨⟨hsources, hartifacts, hversion, htype, hcontext, haccount, -, -⟩, -⟩, htags⟩ := h
  have hfiled : ∀ reviewed : Bool, (if reviewed = true then [] else [⟨.filed, false⟩] : Values).all
      (fun v => v.1.admits v.2) = true := by
    intro reviewed
    cases reviewed <;> rfl
  refine ⟨⟨⟨?_, ?_, ?_, ?_, ?_, ?_, rfl, rfl⟩, hfiled _⟩, ?_⟩
  · obtain hk | ⟨d, hk⟩ := hrescaled schema.roles.sourcesKey <;> rw [hk]
    · exact hsources
    · rfl
  · obtain hk | ⟨d, hk⟩ := hrescaled schema.artifactsKey <;> rw [hk]
    · exact hartifacts
    · rfl
  · obtain hk | ⟨d, hk⟩ := hrescaled schema.roles.schemaVersionKey <;> rw [hk]
    · exact hversion
    · rfl
  · obtain hk | ⟨d, hk⟩ := hrescaled schema.roles.typeKey <;> rw [hk]
    · exact htype
    · rfl
  · obtain hk | ⟨d, hk⟩ := hrescaled schema.roles.contextKey <;> rw [hk]
    · exact hcontext
    · rfl
  · obtain hk | ⟨d, hk⟩ := hrescaled schema.roles.accountKey <;> rw [hk]
    · exact haccount
    · rfl
  · obtain hk | ⟨d, hk⟩ := hrescaled schema.roles.tagsKey <;> rw [hk]
    · exact htags
    · rfl

theorem textAdmits_storable {points : PyStr} (h : points.encodable = true) :
    textAdmits (Notes.storable points) = true := by
  unfold textAdmits Notes.storable PyStr.dropNul PyStr.encodable at *
  rw [Bool.and_eq_true, List.all_eq_true, List.all_eq_true]
  rw [List.all_eq_true] at h
  exact ⟨fun c hc => h c (List.mem_of_mem_filter hc), fun c hc => by simpa using (List.mem_filter.1 hc).2⟩

theorem textAdmits_titleOf (body name : Text) :
    textAdmits (titleOf body (PyStr.ofText name)) = true := by
  unfold titleOf
  split
  · exact textAdmits_storable (encodable_ofText _)
  · apply textAdmits_storable
    unfold PyStr.stem
    split
    · have h := encodable_ofText name
      unfold PyStr.encodable at h ⊢
      rw [List.all_eq_true] at h ⊢
      intro c hc
      exact h c (List.mem_of_mem_take hc)
    · exact encodable_ofText name

/-- **The row of a note that is read back** is one the mirror takes, where it took the row the note
was created with. -/
theorem admitted_noteRow {env : Env} {id : Notes.NoteId} {path : NotePath} {title title' : PyStr}
    {text : Text} {entries : Entries} {moment moment' : Notes.Instant}
    (hiso : ∀ d, jsonAdmits (strValue (env.lib.py.isoformat (.timestamp d))) = true)
    (h : (noteRow env id path title text entries moment).1.admitted = true)
    (htitle : textAdmits title' = true) :
    (noteRow env id path title' text (yamlMapping ⟨none, entries⟩).entries moment').1.admitted =
      true := by
  simp only [noteRow, Values.admitted, List.all_append, List.all_cons, List.all_nil, Bool.and_true,
    Bool.and_eq_true] at h ⊢
  obtain ⟨⟨⟨hpath, -, hhash, hsize, -, hfrontmatter⟩, hmirror⟩, hstate⟩ := h
  refine ⟨⟨⟨hpath, ?_, hhash, hsize, rfl, ?_⟩, ?_⟩, hstate⟩
  · exact htitle
  · rw [yamlMapping_entries]
    exact (admittedLike_jsonableEntries hiso entries .nil).admits hfrontmatter
  · exact admitted_mirrorColumns hmirror fun k => get?_yamlMapping entries

end Admitted

section Quiet

variable {s : Store} {Q : Unit → Store → Prop} {E : Raised → Store → Prop}

/-- Where nothing fails, a step passes. -/
theorem quiet_wp {site : Site} {e : Raised} (h : Q () s) : wp (step noFault site e) Q E s :=
  step_wp (fun _ => h) fun hfails => Bool.noConfusion hfails

theorem pass_wp {failing : Bool} {e : Raised} (hpass : failing = false) (h : Q () s) :
    wp (raiseIf failing e) Q E s :=
  raiseIf_wp (fun _ => h) fun hfails => Bool.noConfusion (hpass.symm.trans hfails)

end Quiet

/-- The texts of a source, read back, are what was written: the YAML library loads what it
dumps, and no more than it. -/
structure ReadsBack (env : Env) (draw : Draw) (request : Request) (page : NotePath)
    (text pageData : Text) : Prop where
  note : Notes.parse env.lib.yaml text =
    .ok (writtenFrontmatter env draw request, bodyWithLink request page)
  page : ∃ body, Notes.parse env.lib.yaml pageData =
    .ok (pageFrontmatter env draw.sourceId 1 draw.now, body)

/-- The identifiers of a request name nothing yet. -/
structure Fresh (env : Env) (draw : Draw) (s : Store) : Prop where
  source_valid : isValidId draw.sourceId = true
  note_valid : isValidId draw.noteId = true
  bundle : s.bundles.lookup draw.sourceId = none
  links : ∀ id, s.db.links.lookup (id, draw.sourceId) = none
  revision : s.db.revisions.lookup (draw.sourceId, 1) = none
  artifacts : ∀ name, s.db.artifacts.lookup (draw.sourceId, 1, name) = none
  unread : ∀ path text mtime, s.notes.lookup path = some (.file (.utf8 text) mtime) →
    ∀ frontmatter body, Notes.parse env.lib.yaml text = .ok (frontmatter, body) →
      frontmatter.get? env.schema.roles.idKey ≠ some (.str draw.noteId)

/-- What a request that created its source has done. -/
structure Completed (env : Env) (draw : Draw) (request : Request) (s : Store) (path page : NotePath)
    (text pageData : Text) : Prop where
  fresh : Fresh env draw s
  path_eq : notePath env draw request s = some path
  texts : Texts env draw request s path page text pageData
  takes : TakesRows env draw request path page text s.db
  path_free : (s.notes.insert page (.file (.utf8 pageData) draw.mtime)).lookup path = none
  reads : ReadsBack env draw request page text pageData

/-- The files of a store are those of one in which the source was created. -/
structure Stands (env : Env) (draw : Draw) (request : Request) (s : Store) (path page : NotePath)
    (text pageData : Text) (t : Store) : Prop where
  claims : t.claims = (created env draw request path page text pageData s).claims
  bundles : t.bundles = (created env draw request path page text pageData s).bundles
  notes : t.notes = (created env draw request path page text pageData s).notes

section Files

variable {env : Env} {draw : Draw} {request : Request} {s t : Store} {path page : NotePath}
  {text pageData : Text}

theorem Stands.claim_eq (h : Stands env draw request s path page text pageData t) :
    t.claims.lookup (claimName env request.provider request.externalSourceId) =
      some (.whole (claimOf draw request)) := by
  rw [h.claims]
  exact AList.lookup_insert _

theorem Stands.bundle_eq (h : Stands env draw request s path page text pageData t) :
    t.bundles.lookup draw.sourceId = some { firstBundle request with
      manifest := some (.whole (newManifest env draw request page)) } := by
  rw [h.bundles]
  exact AList.lookup_insert _

theorem Stands.manifest_eq (h : Stands env draw request s path page text pageData t) :
    t.manifest? draw.sourceId = some (newManifest env draw request page) := by
  rw [Store.manifest?, h.bundle_eq]
  rfl

theorem Stands.page_eq (h : Stands env draw request s path page text pageData t)
    (hc : Completed env draw request s path page text pageData) :
    t.notes.lookup page = some (.file (.utf8 pageData) draw.mtime) := by
  have hne : page ≠ path := by
    rintro rfl
    have hfree := hc.path_free
    rw [AList.lookup_insert] at hfree
    cases hfree
  rw [h.notes]
  change ((s.notes.insert page _).insert path _).lookup page = _
  rw [AList.lookup_insert_ne hne, AList.lookup_insert]

/-- The bytes of every artifact stand in the directory of the first revision. -/
theorem Stands.artifactBytes_eq (h : Stands env draw request s path page text pageData t)
    {artifact : Artifact} (hartifact : artifact ∈ request.artifacts) :
    artifactBytes t draw.sourceId 1 artifact.name = some artifact.data := by
  rw [artifactBytes, Store.bundle_eq h.bundle_eq]
  change (((∅ : AList fun _ : Nat => RevisionDir).insert 1 _).lookup 1).bind _ = _
  rw [AList.lookup_insert, Option.bind_some]
  exact lookup_filledDir request.names_nodup ∅ hartifact

end Files

theorem suffix_of_notePath {env : Env} {draw : Draw} {request : Request} {s : Store}
    {path : NotePath} (h : notePath env draw request s = some path) :
    ".md".toList.isSuffixOf path.name = true := by
  unfold notePath at h
  obtain ⟨stem, -, rfl⟩ := Option.map_eq_some_iff.1 h
  exact List.isSuffixOf_iff_suffix.2 (List.suffix_append _ _)

/-- A page lists nothing in its frontmatter. -/
theorem pageFrontmatter_no_list {env : Env} {id : SourceId} {number : Nat}
    {moment : Notes.Instant} {key : Text} {flow : Bool} {items : List Value} :
    (pageFrontmatter env id number moment).get? key ≠ some (.seq flow items) := by
  have hmoment : ∀ points : PyStr, strValue points ≠ .seq flow items := by
    intro points
    unfold Notes.strValue
    split <;> simp
  unfold pageFrontmatter
  simp only [get?_cons, get?_nil]
  repeat' split
  all_goals simp [hmoment]

/-- The Review note as it is read back. -/
def noteSnapshot (env : Env) (draw : Draw) (request : Request) (page : NotePath) (text : Text) :
    Snapshot :=
  ⟨text, writtenFrontmatter env draw request, bodyWithLink request page, draw.mtime⟩

section Reading

variable {env : Env} {draw : Draw} {request : Request} {s t : Store} {path page : NotePath}
  {text pageData : Text} (hs : Stands env draw request s path page text pageData t)
  (hc : Completed env draw request s path page text pageData)

theorem claimedSource_claimOf (hvalid : isValidId draw.sourceId = true) :
    claimedSource request (.whole (claimOf draw request)) = pure draw.sourceId := by
  unfold claimedSource claimOf
  simp [hvalid]

theorem currentRevision_first {Q : Revision → Store → Prop} {E : Raised → Store → Prop}
    (h : Q (revisionDocument env draw request 1) t) :
    wp (currentRevision (newManifest env draw request page)) Q E t := by
  have hartifacts : (revisionDocument env draw request 1).artifacts.isEmpty = false := by
    have hne := request.artifacts_ne_nil
    simpa [revisionDocument, entriesOf] using hne
  unfold currentRevision
  rw [wp_bind]
  apply pass_wp
  · rfl
  · simp only [newManifest, List.filter_cons, revisionDocument, decide_true, if_true,
      List.filter_nil]
    rw [wp_bind]
    apply pass_wp
    · exact hartifacts
    · exact h

include hs

theorem readManifest_stands {Q : Manifest → Store → Prop} {E : Raised → Store → Prop}
    (h : Q (newManifest env draw request page) t) :
    wp (readManifest noFault request draw.sourceId) Q E t := by
  unfold readManifest
  rw [wp_bind]
  apply quiet_wp
  rw [wp_bind, wp_get, hs.manifest_eq]
  dsimp only
  rw [wp_bind]
  apply pass_wp
  · simp [newManifest]
  · exact h

theorem verifyArtifacts_stands {E : Raised → Store → Prop} {Q : Unit → Store → Prop}
    (h : Q () t) :
    wp (verifyArtifacts env noFault draw.sourceId 1 (entriesOf env request)) Q E t := by
  have hall : ∀ artifacts : List Artifact, (∀ a ∈ artifacts, a ∈ request.artifacts) →
      wp (verifyArtifacts env noFault draw.sourceId 1 (artifacts.map (artifactEntry env))) Q E t := by
    intro artifacts
    induction artifacts with
    | nil => intro _; exact h
    | cons artifact rest ih =>
      intro hmem
      rw [List.map_cons, verifyArtifacts, wp_bind]
      apply quiet_wp
      rw [wp_bind, wp_get]
      dsimp only [artifactEntry]
      rw [hs.artifactBytes_eq (hmem artifact List.mem_cons_self)]
      dsimp only
      rw [wp_bind]
      apply pass_wp
      · simp
      · exact ih fun a ha => hmem a (List.mem_cons_of_mem _ ha)
  exact hall request.artifacts fun _ ha => ha

include hc

/-- The page that stands projects the first revision. -/
theorem revision_of_page : (t.text? page).bind (revisionOfText env draw.sourceId) = some 1 := by
  obtain ⟨body, hparse⟩ := hc.reads.page
  have htext : t.text? page = some pageData := by
    unfold Store.text?
    rw [hs.page_eq hc]
  rw [htext, Option.bind_some]
  unfold revisionOfText
  rw [hparse]
  simp [pageFrontmatter, Entries.get?, Value.isText]

theorem projectionRevision_stands {site : Site} {Q : Option Int → Store → Prop}
    {E : Raised → Store → Prop} (h : Q (some 1) t) :
    wp (projectionRevision env noFault site page draw.sourceId) Q E t := by
  unfold projectionRevision
  rw [wp_bind]
  apply quiet_wp
  rw [wp_bind, wp_get, wp_pure, revision_of_page hs hc]
  exact h

/-- The tree holds one file that carries the note's identity and cites the source. -/
theorem linkedFile_stands (hroles : RolesApart env.schema) :
    (t.notes.entries.map fun e => (e.1, e.2)).filterMap
      (linkedFile env noFault draw.sourceId draw.noteId) =
        [(path, noteSnapshot env draw request page text)] := by
  obtain ⟨pageBody, hpageParse⟩ := hc.reads.page
  have hentries : t.notes.entries = ⟨path, .file (.utf8 text) draw.mtime⟩ ::
      ⟨page, .file (.utf8 pageData) draw.mtime⟩ :: s.notes.entries := by
    rw [hs.notes]
    change ((s.notes.insert page _).insert path _).entries = _
    rw [entries_insert_of_lookup_none _ hc.path_free,
      entries_insert_of_lookup_none _ hc.texts.page_free]
  have hnote : linkedFile env noFault draw.sourceId draw.noteId
      (path, .file (.utf8 text) draw.mtime) =
        some (path, noteSnapshot env draw request page text) := by
    unfold linkedFile
    dsimp only
    rw [suffix_of_notePath hc.path_eq, hc.reads.note]
    simp only [noFault, Bool.not_true, Bool.or_false, Bool.false_eq_true, if_false]
    rw [writtenFrontmatter_sources hroles, writtenFrontmatter_id hroles]
    simp [Value.isText, hc.fresh.note_valid, noteSnapshot]
  have hpage : linkedFile env noFault draw.sourceId draw.noteId
      (page, .file (.utf8 pageData) draw.mtime) = none := by
    unfold linkedFile
    dsimp only
    rw [hpageParse]
    dsimp only
    split
    · rfl
    · split
      · next cited carried hcited _ =>
        exact absurd hcited pageFrontmatter_no_list
      · rfl
  have hothers : ∀ e ∈ s.notes.entries, linkedFile env noFault draw.sourceId draw.noteId
      (e.1, e.2) = none := by
    rintro ⟨other, entry⟩ he
    have hlookup : s.notes.lookup other = some entry := AList.mem_lookup_iff.2 he
    obtain ⟨otherText | _, mtime⟩ | _ := entry
    · unfold linkedFile
      dsimp only
      split
      · rfl
      · split
        · rfl
        · next frontmatter otherBody hother =>
          split
          · next cited carried hcited hcarried =>
            have hne := hc.fresh.unread other otherText mtime hlookup frontmatter otherBody hother
            rw [hcarried] at hne
            have hdiffers : (carried == draw.noteId) = false := by
              simpa using fun h => hne (by rw [h])
            simp [hdiffers]
          · rfl
    · rfl
    · rfl
  rw [hentries, List.map_cons, List.map_cons, List.filterMap_cons, hnote, List.filterMap_cons, hpage]
  dsimp only
  rw [List.filterMap_map]
  exact congrArg _ (List.filterMap_eq_nil_iff.2 hothers)

end Reading

/-- The mirror has the rows of a source and its note. -/
structure Mirrored (env : Env) (draw : Draw) (request : Request) (path page : NotePath)
    (db : Database) : Prop where
  source : db.sources.lookup draw.sourceId = some (sourceRow (newManifest env draw request page)
    (revisionDocument env draw request 1) draw.now)
  revision : (db.revisions.lookup (draw.sourceId, 1)).isSome = true
  artifacts : ∀ entry ∈ entriesOf env request,
    (db.artifacts.lookup (draw.sourceId, 1, entry.name)).isSome = true
  note : ∃ row, db.notes.lookup (PyStr.ofText draw.noteId) = some row ∧
    row.path = PyStr.ofText (pathText path)
  link : (db.links.lookup (PyStr.ofText draw.noteId, draw.sourceId)).isSome = true

/-- The mirror with its rows put back: those of the creation, but for what the note's row takes
from its file. -/
def repairedDatabase (env : Env) (draw : Draw) (request : Request) (path page : NotePath)
    (text : Text) (db : Database) : Database :=
  let revision := revisionDocument env draw request 1
  let (_, row) := noteRow env (PyStr.ofText draw.noteId) path
    (titleOf (bodyWithLink request page) (PyStr.ofText path.name)) text
    (writtenFrontmatter env draw request) draw.mtime
  { db.withRevision draw.sourceId revision with
    sources := db.sources.insert draw.sourceId
      (sourceRow (newManifest env draw request page) revision draw.now)
    notes := db.notes.insert row.id row
    links := db.links.insert (row.id, draw.sourceId) draw.now }

section Mirror

variable {env : Env} {draw : Draw} {request : Request} {s t : Store} {path page : NotePath}
  {text pageData : Text}

theorem filter_eq_singleton {α : Type} [DecidableEq α] {l : List α} (hl : l.Nodup) {a : α}
    (ha : a ∈ l) {p : α → Bool} (hp : ∀ b, p b = true ↔ b = a) : l.filter p = [a] := by
  induction l with
  | nil => cases ha
  | cons b rest ih =>
    rw [List.nodup_cons] at hl
    rw [List.filter_cons]
    by_cases hb : b = a
    · subst hb
      rw [if_pos ((hp b).2 rfl), List.filter_eq_nil_iff.2]
      intro c hc hpc
      rw [(hp c).1 hpc] at hc
      exact hl.1 hc
    · rw [if_neg fun h => hb ((hp b).1 h)]
      obtain rfl | ha := List.mem_cons.1 ha
      · exact absurd rfl hb
      · exact ih hl.2 ha

theorem citing_mirrored (h : Mirrored env draw request path page t.db) :
    t.db.citing draw.sourceId (PyStr.ofText draw.noteId) =
      [(PyStr.ofText draw.noteId, PyStr.ofText (pathText path))] := by
  obtain ⟨row, hrow, hpath⟩ := h.note
  have hmem : (PyStr.ofText draw.noteId, draw.sourceId) ∈ t.db.links.keys := by
    rw [← AList.mem_keys, ← AList.lookup_isSome]
    exact h.link
  unfold Database.citing
  rw [filter_eq_singleton t.db.links.keys_nodup hmem]
  · rw [List.filterMap_cons, hrow, Option.map_some, hpath]
    rfl
  · intro link
    rw [Bool.and_eq_true, beq_iff_eq, beq_iff_eq, Prod.ext_iff, and_comm]

theorem citing_fresh (hfresh : Fresh env draw s) (hdb : t.db = s.db) (id : Notes.NoteId) :
    t.db.citing draw.sourceId id = [] := by
  have hfilter : t.db.links.keys.filter (fun link => link.2 == draw.sourceId && link.1 == id) = [] := by
    rw [List.filter_eq_nil_iff]
    intro link hlink hcites
    rw [Bool.and_eq_true, beq_iff_eq, beq_iff_eq] at hcites
    obtain ⟨hsource, -⟩ := hcites
    rw [← AList.mem_keys, ← AList.lookup_isSome, hdb, Option.isSome_iff_exists] at hlink
    obtain ⟨moment, hmoment⟩ := hlink
    have hnone := hfresh.links link.1
    rw [← hsource, Prod.mk.eta, hmoment] at hnone
    cases hnone
  unfold Database.citing
  rw [hfilter]
  rfl

theorem linkedNote_mirrored (h : Mirrored env draw request path page t.db)
    (hvalid : isValidId draw.noteId = true) {Q : NotePath × Option Snapshot → Store → Prop}
    {E : Raised → Store → Prop} (hQ : Q (splitPath (PyStr.ofText (pathText path)), none) t) :
    wp (linkedNote env noFault draw.sourceId draw.noteId) Q E t := by
  unfold linkedNote
  rw [wp_bind]
  apply pass_wp
  · simp [hvalid]
  rw [wp_bind]
  apply quiet_wp
  rw [wp_bind, wp_get, citing_mirrored h]
  exact hQ

theorem linkedNote_lost (hs : Stands env draw request s path page text pageData t)
    (hc : Completed env draw request s path page text pageData) (hroles : RolesApart env.schema)
    (hdb : t.db = s.db) :
    ∀ (Q : NotePath × Option Snapshot → Store → Prop) (E : Raised → Store → Prop),
      Q (path, some (noteSnapshot env draw request page text)) t →
        wp (linkedNote env noFault draw.sourceId draw.noteId) Q E t := by
  have hfiles := linkedFile_stands hs hc hroles
  intro Q E hQ
  unfold linkedNote
  rw [wp_bind]
  apply pass_wp
  · simp [hc.fresh.note_valid]
  rw [wp_bind]
  apply quiet_wp
  rw [wp_bind, wp_get, citing_fresh hc.fresh hdb]
  dsimp only
  rw [wp_bind]
  apply quiet_wp
  rw [wp_bind, wp_get, hfiles]
  exact hQ

theorem withRevision_mirrored (h : Mirrored env draw request path page t.db) :
    t.db.withRevision draw.sourceId (revisionDocument env draw request 1) = t.db := by
  have hartifacts : ∀ entries : List ArtifactEntry, (∀ e ∈ entries, e ∈ entriesOf env request) →
      entries.foldl (fun artifacts entry =>
        if (artifacts.lookup (draw.sourceId, 1, entry.name)).isSome then artifacts
        else artifacts.insert (draw.sourceId, 1, entry.name) (artifactRow entry)) t.db.artifacts =
      t.db.artifacts := by
    intro entries
    induction entries with
    | nil => intro _; rfl
    | cons entry rest ih =>
      intro hmem
      rw [List.foldl_cons, if_pos (h.artifacts entry (hmem entry List.mem_cons_self))]
      exact ih fun e he => hmem e (List.mem_cons_of_mem _ he)
  unfold Database.withRevision
  rw [show (revisionDocument env draw request 1).revision = 1 from rfl, if_pos h.revision,
    show (revisionDocument env draw request 1).artifacts = entriesOf env request from rfl,
    hartifacts _ fun _ he => he]

theorem ensureSourceMirror_mirrored (h : Mirrored env draw request path page t.db)
    (htakes : TakesRows env draw request path page text s.db) {Q : Unit → Store → Prop}
    {E : Raised → Store → Prop} (hQ : Q () t) :
    wp (ensureSourceMirror (newManifest env draw request page) (revisionDocument env draw request 1))
      Q E t := by
  have hsame : ∀ row, t.db.sources.lookup draw.sourceId = some row →
      t.setDb { t.db with sources := t.db.sources.replace draw.sourceId row } = t := by
    intro row hrow
    rw [replace_of_lookup hrow]
    rfl
  have hfold : t.setDb ((newManifest env draw request page).revisions.foldl
      (fun db revision => db.withRevision draw.sourceId revision) t.db) = t := by
    change t.setDb (t.db.withRevision draw.sourceId (revisionDocument env draw request 1)) = t
    rw [withRevision_mirrored h]
    rfl
  unfold ensureSourceMirror
  rw [wp_bind, wp_get]
  dsimp only
  rw [show (newManifest env draw request page).sourceId = draw.sourceId from rfl, h.source]
  dsimp only
  rw [wp_bind]
  apply pass_wp
  · exact congrArg not htakes.source
  rw [wp_bind, wp_modify]
  apply wp_of_eq (hsame _ h.source)
  rw [wp_bind]
  apply pass_wp
  · simpa [newManifest] using htakes.revision
  rw [wp_modify, hfold]
  exact hQ

/-- Where the mirror has the rows, it is left as it is. -/
theorem ensureMirror_mirrored (h : Mirrored env draw request path page t.db)
    (htakes : TakesRows env draw request path page text s.db) {found : NotePath}
    {snapshot : Option Snapshot} {Q : Unit → Store → Prop} {E : Raised → Store → Prop} (hQ : Q () t) :
    wp (ensureMirror env noFault (newManifest env draw request page)
      (revisionDocument env draw request 1) found snapshot) Q E t := by
  obtain ⟨row, hnote, -⟩ := h.note
  have hlink := h.link
  rw [Option.isSome_iff_exists] at hlink
  obtain ⟨moment, hlink⟩ := hlink
  unfold ensureMirror
  rw [wp_bind]
  apply quiet_wp
  rw [wp_bind]
  apply ensureSourceMirror_mirrored h htakes
  rw [wp_bind, wp_get]
  apply wp_if_neg
  · simp [newManifest, hnote]
  rw [wp_bind, wp_get]
  apply wp_if_neg
  · simp [newManifest, hlink]
  exact hQ

theorem ensureSourceMirror_lost (htakes : TakesRows env draw request path page text s.db)
    (hdb : t.db = s.db) {Q : Unit → Store → Prop} {E : Raised → Store → Prop}
    (hQ : Q () (t.setDb { s.db.withRevision draw.sourceId (revisionDocument env draw request 1) with
      sources := s.db.sources.insert draw.sourceId (sourceRow (newManifest env draw request page)
        (revisionDocument env draw request 1) draw.now) })) :
    wp (ensureSourceMirror (newManifest env draw request page) (revisionDocument env draw request 1))
      Q E t := by
  unfold ensureSourceMirror
  rw [wp_bind, wp_get]
  dsimp only
  rw [show (newManifest env draw request page).sourceId = draw.sourceId from rfl, hdb,
    htakes.source_free]
  dsimp only
  rw [wp_bind]
  apply pass_wp
  · exact htakes.unclaimed
  rw [wp_bind]
  apply pass_wp
  · exact congrArg not htakes.source
  rw [wp_bind, wp_modify, wp_bind]
  apply pass_wp
  · simpa [newManifest] using htakes.revision
  rw [wp_modify]
  have hstate : ∀ u : Store, u = t.setDb
      { s.db.withRevision draw.sourceId (revisionDocument env draw request 1) with
        sources := s.db.sources.insert draw.sourceId (sourceRow (newManifest env draw request page)
          (revisionDocument env draw request 1) draw.now) } → Q () u := by
    rintro u rfl
    exact hQ
  apply hstate
  rw [← hdb]
  rfl

/-- **Where the mirror lost the rows**, they are put back. -/
theorem ensureMirror_lost (hc : Completed env draw request s path page text pageData)
    (hiso : ∀ d, jsonAdmits (strValue (env.lib.py.isoformat (.timestamp d))) = true)
    (hdb : t.db = s.db) {Q : Unit → Store → Prop} {E : Raised → Store → Prop}
    (hQ : Q () (t.setDb (repairedDatabase env draw request path page text s.db))) :
    wp (ensureMirror env noFault (newManifest env draw request page)
      (revisionDocument env draw request 1) path
      (some (noteSnapshot env draw request page text))) Q E t := by
  have hlink : s.db.links.lookup (PyStr.ofText draw.noteId, draw.sourceId) = none :=
    hc.fresh.links _
  unfold ensureMirror
  rw [wp_bind]
  apply quiet_wp
  rw [wp_bind]
  apply ensureSourceMirror_lost hc.takes hdb
  rw [wp_bind, wp_get]
  apply wp_if_pos
  · exact Option.isNone_iff_eq_none.2 hc.takes.note_free
  rw [wp_bind]
  apply pass_wp
  · exact congrArg not (admitted_noteRow hiso hc.takes.note (textAdmits_titleOf _ _))
  rw [wp_bind, wp_modify, wp_bind, wp_get]
  apply wp_if_pos
  · exact Option.isNone_iff_eq_none.2 hlink
  rw [wp_modify]
  exact hQ

theorem withRevision_rows (db : Database) :
    let db' := db.withRevision draw.sourceId (revisionDocument env draw request 1)
    (db'.revisions.lookup (draw.sourceId, 1)).isSome = true ∧
      ∀ entry ∈ entriesOf env request,
        (db'.artifacts.lookup (draw.sourceId, 1, entry.name)).isSome = true := by
  refine ⟨?_, ?_⟩
  · change (AList.lookup (draw.sourceId, 1) (if (db.revisions.lookup (draw.sourceId, 1)).isSome then _
      else _)).isSome = true
    split
    · next h => exact h
    · rw [show (revisionDocument env draw request 1).revision = 1 from rfl, AList.lookup_insert]
      rfl
  · -- Once a name has its row, the turns after it leave it there.
    have hkept : ∀ (entries : List ArtifactEntry)
        (rows : AList fun _ : SourceId × Nat × Text => ArtifactRow) (name : Text),
        (rows.lookup (draw.sourceId, 1, name)).isSome = true ∨ name ∈ entries.map (·.name) →
        ((entries.foldl (fun artifacts entry =>
          if (artifacts.lookup (draw.sourceId, 1, entry.name)).isSome then artifacts
          else artifacts.insert (draw.sourceId, 1, entry.name) (artifactRow entry)) rows).lookup
            (draw.sourceId, 1, name)).isSome = true := by
      intro entries
      induction entries with
      | nil => intro rows name h; simpa using h
      | cons entry rest ih =>
        intro rows name h
        rw [List.foldl_cons]
        apply ih
        by_cases hname : name = entry.name
        · subst hname
          left
          split
          · next h => exact h
          · rw [AList.lookup_insert]
            rfl
        · have hne : (draw.sourceId, 1, name) ≠ (draw.sourceId, 1, entry.name) := by simpa using hname
          rw [List.map_cons, List.mem_cons, or_iff_right hname] at h
          refine h.imp (fun hrow => ?_) id
          split
          · exact hrow
          · rwa [AList.lookup_insert_ne hne]
    intro entry hentry
    exact hkept _ _ _ (Or.inr (List.mem_map_of_mem hentry))

/-- The row of a note has the values it is made of. -/
theorem noteRow_cells {id : Notes.NoteId} {title : PyStr} {entries : Entries}
    {moment : Notes.Instant} {c : Column} {v : c.Cell}
    (h : ⟨c, v⟩ ∈ (noteRow env id path title text entries moment).1) :
    (noteRow env id path title text entries moment).2.cells c = v := by
  have hnodup : ((noteRow env id path title text entries moment).1.map (·.1)).Nodup := by
    rw [noteRow, List.map_append, List.map_append]
    obtain hcolumns | hcolumns :=
      Notes.mirrorColumns_columns env.lib.py env.schema entries
    · rw [hcolumns]
      simp only [List.map_cons, List.map_nil]
      decide
    · rw [hcolumns]
      simp only [List.map_cons, List.map_nil]
      decide
  exact Notes.apply_cells_of_mem hnodup h moment ⟨id, Notes.emptyCells, moment, moment⟩

/-- Two rows of one note that agree in every column but the file's time. -/
structure SameRow (row row' : Row) : Prop where
  id : row'.id = row.id
  cells : ∀ c, c ≠ .mtime → row'.cells c = row.cells c

/-- Values assigned to cells that agree off a column leave them so. -/
theorem foldl_assign_off {c₀ : Column} (values : Values) {cells cells' : (c : Column) → c.Cell}
    (h : ∀ c, c ≠ c₀ → cells' c = cells c) :
    ∀ c, c ≠ c₀ → values.foldl Notes.Values.assign cells' c = values.foldl Notes.Values.assign cells c := by
  induction values generalizing cells cells' with
  | nil => exact h
  | cons v rest ih =>
    apply ih
    intro c hc
    by_cases hv : c = v.1
    · subst hv
      rw [Notes.Values.assign, Notes.Values.assign, Function.update_self, Function.update_self]
    · rw [Notes.Values.assign, Notes.Values.assign, Function.update_of_ne hv,
        Function.update_of_ne hv]
      exact h c hc

theorem noteRow_path {id : Notes.NoteId} {title : PyStr} {entries : Entries}
    {moment : Notes.Instant} :
    (noteRow env id path title text entries moment).2.path = PyStr.ofText (pathText path) :=
  noteRow_cells (by simp [noteRow])

/-- What a note mirrors to when it is written is what it mirrors to when it is read back: its
title is its heading, and the dates and times that are written unquoted are the same in the
columns. -/
structure Remirrors (env : Env) (draw : Draw) (request : Request) : Prop where
  title : Notes.IsTitle request.noteTitle
  frontmatter : jsonableEntries env.lib.py (writtenFrontmatter env draw request) [] =
    jsonableEntries env.lib.py (buildFrontmatter env draw request) []
  columns : mirrorColumns env.lib.py env.schema (writtenFrontmatter env draw request) =
    mirrorColumns env.lib.py env.schema (buildFrontmatter env draw request)

/-- The heading of the Review note is its title. -/
theorem titleOf_bodyWithLink (htitle : Notes.IsTitle request.noteTitle) (fileName : PyStr) :
    titleOf (bodyWithLink request page) fileName = PyStr.ofText request.noteTitle := by
  have hbody : bodyWithLink request page = [] ++ (Notes.headingOf request.noteTitle ++ [lf]) ++
      ("\n[[".toList ++ withoutSuffix (pathText page) ++ "]]\n".toList ++
        request.noteBody.dropWhile (· = lf)) := by
    simp [bodyWithLink, Notes.headingOf, lf]
  rw [hbody]
  exact Notes.titleOf_heading htitle (by simp [EndsLine]) (by simp) (by simp) (by simp) fileName

/-- The row that is put back is the one that was lost, but for the times. -/
theorem sameRow_noteRow (h : Remirrors env draw request) {id : Notes.NoteId}
    {moment moment' : Notes.Instant} {fileName : PyStr} :
    SameRow
      (noteRow env id path (PyStr.ofText request.noteTitle) text
        (buildFrontmatter env draw request) moment).2
      (noteRow env id path (titleOf (bodyWithLink request page) fileName) text
        (writtenFrontmatter env draw request) moment').2 := by
  refine ⟨rfl, ?_⟩
  simp only [noteRow, Notes.newRow, titleOf_bodyWithLink h.title, h.frontmatter, h.columns,
    List.cons_append, List.nil_append, List.foldl_cons]
  refine foldl_assign_off _ (foldl_assign_off [⟨.frontmatter, _⟩] fun c hc => ?_)
  exact (Function.update_of_ne hc _ _).trans (Function.update_of_ne hc _ _).symm

theorem mirrored_new (db : Database) :
    Mirrored env draw request path page (newDatabase env draw request path page text db) := by
  obtain ⟨hrevision, hartifacts⟩ := @withRevision_rows env draw request db
  exact ⟨AList.lookup_insert _, hrevision, hartifacts, ⟨_, AList.lookup_insert _, noteRow_path⟩,
    Option.isSome_iff_exists.2 ⟨_, AList.lookup_insert _⟩⟩

theorem mirrored_repaired (db : Database) :
    Mirrored env draw request path page (repairedDatabase env draw request path page text db) := by
  obtain ⟨hrevision, hartifacts⟩ := @withRevision_rows env draw request db
  exact ⟨AList.lookup_insert _, hrevision, hartifacts, ⟨_, AList.lookup_insert _, noteRow_path⟩,
    Option.isSome_iff_exists.2 ⟨_, AList.lookup_insert _⟩⟩

end Mirror

/-- What a request answers for a source that is there: it made nothing. -/
structure Replayed (draw : Draw) (page : NotePath) (r : IngestResult) : Prop where
  source : r.sourceId = draw.sourceId ∧ r.revision = 1
  note : r.noteId = PyStr.ofText draw.noteId
  page : r.projectionPath = page
  sourceCreated : r.sourceCreated = false
  noteCreated : r.noteCreated = false

section Requests

variable {env : Env} {draw again : Draw} {request : Request} {s t u : Store}
  {path page : NotePath} {text pageData : Text}

theorem replay_stands (hs : Stands env draw request s path page text pageData t)
    (hc : Completed env draw request s path page text pageData) (found : NotePath) :
    wp (replay env noFault again request (newManifest env draw request page)
      (revisionDocument env draw request 1) found)
      (fun r t' => t' = t ∧ Replayed draw page r) (fun _ _ => False) t := by
  unfold replay
  rw [wp_bind]
  unfold replayPage
  rw [wp_bind]
  apply projectionRevision_stands hs hc
  apply wp_if_pos
  · rfl
  rw [wp_pure, wp_bind]
  unfold recordPage
  rw [wp_mapRaised]
  apply wp_if_neg
  · exact fun hne => hne rfl
  rw [wp_pure, wp_pure]
  exact ⟨rfl, ⟨rfl, rfl⟩, rfl, rfl, rfl, rfl⟩

/-- A request that finds its source, once the note is found and the mirror is seen to. -/
theorem ingestExisting_stands {found : NotePath} {snapshot : Option Snapshot}
    (hs : Stands env draw request s path page text pageData t)
    (hu : Stands env draw request s path page text pageData u)
    (hc : Completed env draw request s path page text pageData)
    (hlinked : ∀ (Q : NotePath × Option Snapshot → Store → Prop) (E : Raised → Store → Prop),
      Q (found, snapshot) t → wp (linkedNote env noFault draw.sourceId draw.noteId) Q E t)
    (hmirror : ∀ (Q : Unit → Store → Prop) (E : Raised → Store → Prop), Q () u →
      wp (ensureMirror env noFault (newManifest env draw request page)
        (revisionDocument env draw request 1) found snapshot) Q E t) :
    wp (ingestExisting env noFault again request (.whole (claimOf draw request)))
      (fun r t' => t' = u ∧ Replayed draw page r) (fun _ _ => False) t := by
  unfold ingestExisting
  rw [claimedSource_claimOf hc.fresh.source_valid, pure_bind, wp_bind]
  apply readManifest_stands hs
  rw [wp_bind]
  apply currentRevision_first
  have hreplaying : (contentIdentity env (revisionDocument env draw request 1).artifacts ==
      identityOf env request) = true := beq_self_eq_true _
  simp only [hreplaying, if_true]
  rw [wp_bind]
  apply verifyArtifacts_stands hs
  rw [wp_bind]
  apply hlinked
  rw [wp_bind]
  apply hmirror
  exact replay_stands hu hc found

/-- The transaction of a request that finds its claim. -/
theorem ingest_of_claim {claim : Doc Claim} (hsize : request.payloadSize ≤ env.ingestMaxBytes)
    (hclaim : t.claims.lookup (claimName env request.provider request.externalSourceId) = some claim)
    (h : wp (ingestExisting env noFault again request claim)
      (fun r t' => t' = u ∧ Replayed draw page r) (fun _ _ => False) t) :
    ∃ r, ingest env noFault again request t = .ok r u ∧ Replayed draw page r := by
  have hwp : wp (ingest env noFault again request) (fun r t' => t' = u ∧ Replayed draw page r)
      (fun _ _ => False) t := by
    unfold ingest
    rw [wp_bind]
    apply pass_wp
    · simpa using hsize
    rw [wp_mapRaised, wp_transaction, wp_bind]
    apply quiet_wp
    rw [wp_bind]
    apply quiet_wp
    rw [wp_bind, wp_get, hclaim]
    refine wp_mono h (fun r t' hr => ?_) fun _ _ h => h
    exact quiet_wp hr
  obtain ⟨r, t', hr, rfl, hreplayed⟩ := wp_returns hwp
  exact ⟨r, hr, hreplayed⟩

/-- **A request for a source that is there changes nothing**. -/
theorem ingest_mirrored (hsize : request.payloadSize ≤ env.ingestMaxBytes)
    (hs : Stands env draw request s path page text pageData t)
    (hc : Completed env draw request s path page text pageData)
    (hm : Mirrored env draw request path page t.db) :
    ∃ r, ingest env noFault again request t = .ok r t ∧ Replayed draw page r :=
  ingest_of_claim hsize hs.claim_eq <| ingestExisting_stands hs hs hc
    (fun _ _ hQ => linkedNote_mirrored hm hc.fresh.note_valid hQ)
    fun _ _ hQ => ensureMirror_mirrored hm hc.takes hQ

/-- **A request whose rows were lost puts them back**, and changes nothing else. -/
theorem ingest_lost (hsize : request.payloadSize ≤ env.ingestMaxBytes)
    (hs : Stands env draw request s path page text pageData t)
    (hc : Completed env draw request s path page text pageData) (hroles : RolesApart env.schema)
    (hiso : ∀ d, jsonAdmits (strValue (env.lib.py.isoformat (.timestamp d))) = true)
    (hdb : t.db = s.db) :
    ∃ r, ingest env noFault again request t =
        .ok r (t.setDb (repairedDatabase env draw request path page text s.db)) ∧
      Replayed draw page r := by
  have hlinked := linkedNote_lost hs hc hroles hdb
  have hu : Stands env draw request s path page text pageData
      (t.setDb (repairedDatabase env draw request path page text s.db)) :=
    ⟨hs.claims, hs.bundles, hs.notes⟩
  have hexisting : wp (ingestExisting env noFault again request (.whole (claimOf draw request)))
      (fun r t' => t' = t.setDb (repairedDatabase env draw request path page text s.db) ∧
        Replayed draw page r) (fun _ _ => False) t :=
    ingestExisting_stands hs hu hc hlinked fun _ _ hQ => ensureMirror_lost hc hiso hdb hQ
  obtain ⟨r, hr, hreplayed⟩ := ingest_of_claim hsize hs.claim_eq hexisting
  exact ⟨r, hr, hreplayed⟩

end Requests

end Coppermind.Sources
