import Coppermind.Sources.Ingest

/-!
# What an ingest leaves

For each operation of an ingest, what it answers and the store it leaves, whatever sites fail:
`ingestNew_wp` for a source that is created and `ingestExisting_wp` for one that is there.
-/

namespace Coppermind.Sources

open Coppermind.Lib Coppermind.Lib.Text
open Coppermind.Artifacts (Bytes NotePath RevisionDir)
open Coppermind.Notes (FileBytes Row Values)
open Coppermind.Notes.Folders (uniqueStem uniqueStem_free FolderTree.stemOf)

/-- An exclusive creation fails: its path is taken, or a step of it fails. -/
def CreationFails (faults : Faults) (site : ExclusiveStep → Site) (taken : Bool) : Prop :=
  taken = true ∨ faults (site .opening) = true ∨ faults (site .writing) = true ∨
    faults (site .syncing) = true

/-- A failed exclusive creation could not remove its file again. -/
structure LeftBehind (faults : Faults) (site : ExclusiveStep → Site) : Prop where
  failed : faults (site .writing) = true ∨ faults (site .syncing) = true
  unlinking : faults (site .unlinking) = true

section Steps

variable {faults : Faults} {s : Store}

theorem step_wp {site : Site} {e : Raised} {Q : Unit → Store → Prop} {E : Raised → Store → Prop}
    (hQ : faults site = false → Q () s) (hE : faults site = true → E e s) :
    wp (step faults site e) Q E s := by
  rw [step, wp_raiseIf]
  cases h : faults site with
  | false => simpa using hQ h
  | true => simpa using hE h

theorem raiseIf_wp {failing : Bool} {e : Raised} {Q : Unit → Store → Prop}
    {E : Raised → Store → Prop} (hQ : failing = false → Q () s) (hE : failing = true → E e s) :
    wp (raiseIf failing e) Q E s := by
  rw [wp_raiseIf]
  cases h : failing with
  | false => simpa using hQ h
  | true => simpa using hE h

/-- An exclusive creation writes the file, or fails and leaves the store alone; what it could not
remove again is the exception. -/
theorem createExclusive_wp {site : ExclusiveStep → Site} {taken : Store → Bool}
    {put : Written → Store → Store} {Q : Unit → Store → Prop} {E : Raised → Store → Prop}
    (hdone : taken s = false → Q () (put .whole s))
    (hraise : CreationFails faults site (taken s) → ∀ e, E e s)
    (hleft : LeftBehind faults site → ∀ written, E .osError (put written s)) :
    wp (createExclusive faults site taken put) Q E s := by
  unfold createExclusive
  rw [wp_bind]
  refine step_wp (fun _ => ?_) fun h => hraise (Or.inr (Or.inl h)) _
  rw [wp_bind, wp_get, wp_bind]
  refine raiseIf_wp (fun htaken => ?_) fun h => hraise (Or.inl h) _
  -- A step after the file was opened removes the file again, where it can.
  have hfail : ∀ (failing : Bool) (written : Written), (failing = true →
        faults (site .writing) = true ∨ faults (site .syncing) = true) →
      ∀ {next : Op Unit}, (failing = false → wp next Q E s) →
      wp (do
        if failing then
          if faults (site .unlinking) then modify (put written)
          throw Raised.osError
        next) Q E s := by
    intro failing written hfailing next hnext
    cases failing with
    | false => simpa using hnext rfl
    | true =>
      cases hunlink : faults (site .unlinking) with
      | false => simpa [hunlink] using hraise (Or.inr (Or.inr (hfailing rfl))) _
      | true => simpa [hunlink] using hleft ⟨hfailing rfl, hunlink⟩ written
  apply hfail _ _ Or.inl
  intro _
  apply hfail _ _ Or.inr
  intro _
  simpa using hdone htaken

theorem found_wp {α : Type} {o : Option α} {Q : α → Store → Prop} {E : Raised → Store → Prop}
    (hQ : ∀ a, o = some a → Q a s) (hE : ∀ e, E e s) : wp (found o : Op α) Q E s := by
  cases o with
  | none => exact hE _
  | some a => exact hQ a rfl

theorem hashedTags_wp {α : Type} {r : Except Schema.TypeError α} {Q : α → Store → Prop}
    {E : Raised → Store → Prop} (hQ : ∀ a, r = .ok a → Q a s) (hE : ∀ e, E e s) :
    wp (hashedTags r : Op α) Q E s := by
  cases r with
  | error _ => exact hE _
  | ok a => exact hQ a rfl

theorem composed_wp {α : Type} {r : Except Frontmatter.Raised α} {Q : α → Store → Prop}
    {E : Raised → Store → Prop} (hQ : ∀ a, r = .ok a → Q a s) (hE : ∀ e, E e s) :
    wp (composed r : Op α) Q E s := by
  cases r with
  | error e => exact hE _
  | ok a => exact hQ a rfl

end Steps

/-- A revision's directory with the artifacts of a request. -/
def filledDir (artifacts : List Artifact) (dir : RevisionDir) : RevisionDir :=
  artifacts.foldl (fun dir artifact => dir.insert artifact.name artifact.data) dir

theorem mem_filledDir (artifacts : List Artifact) (dir : RevisionDir) (name : Text) :
    name ∈ filledDir artifacts dir ↔ name ∈ dir ∨ name ∈ artifacts.map (·.name) := by
  induction artifacts generalizing dir with
  | nil => simp [filledDir]
  | cons artifact rest ih =>
    change name ∈ filledDir rest (dir.insert artifact.name artifact.data) ↔ _
    rw [ih, AList.mem_insert, List.map_cons, List.mem_cons]
    tauto

theorem lookup_filledDir_of_notMem {artifacts : List Artifact} {dir : RevisionDir} {name : Text}
    (h : name ∉ artifacts.map (·.name)) : (filledDir artifacts dir).lookup name = dir.lookup name := by
  induction artifacts generalizing dir with
  | nil => rfl
  | cons artifact rest ih =>
    rw [List.map_cons, List.mem_cons, not_or] at h
    change (filledDir rest (dir.insert artifact.name artifact.data)).lookup name = _
    rw [ih h.2, AList.lookup_insert_ne h.1]

theorem lookup_filledDir {artifacts : List Artifact} (hnodup : (artifacts.map (·.name)).Nodup)
    (dir : RevisionDir) {artifact : Artifact} (h : artifact ∈ artifacts) :
    (filledDir artifacts dir).lookup artifact.name = some artifact.data := by
  induction artifacts generalizing dir with
  | nil => cases h
  | cons first rest ih =>
    rw [List.map_cons, List.nodup_cons] at hnodup
    change (filledDir rest (dir.insert first.name first.data)).lookup artifact.name = _
    rcases List.mem_cons.1 h with rfl | h
    · rw [lookup_filledDir_of_notMem hnodup.1, AList.lookup_insert]
    · exact ih hnodup.2 _ h

section Files

variable {env : Env} {faults : Faults} {s : Store} {id : SourceId} {number : Nat}

theorem makeRevisionDir_wp {Q : Unit → Store → Prop} {E : Raised → Store → Prop}
    (hQ : (s.bundle id).dirs.lookup number = none →
      Q () (s.setBundle id { s.bundle id with dirs := (s.bundle id).dirs.insert number ∅ }))
    (hE : ∀ e, E e s) : wp (makeRevisionDir faults id number) Q E s := by
  unfold makeRevisionDir
  rw [wp_bind]
  refine step_wp (fun _ => ?_) fun _ => hE _
  rw [wp_bind, wp_get, wp_bind]
  refine raiseIf_wp (fun h => ?_) fun _ => hE _
  rw [wp_modify]
  exact hQ (by simpa using h)

theorem putFile_setBundle {b : Bundle} {dir : RevisionDir} {name : Text} {data : Bytes} :
    putFile id number name data (s.setBundle id { b with dirs := b.dirs.insert number dir }) =
      s.setBundle id { b with dirs := b.dirs.insert number (dir.insert name data) } := by
  simp only [putFile, revisionDir, Store.bundle_setBundle, AList.lookup_insert, Option.getD_some,
    Store.setBundle_setBundle, AList.insert_insert]

/-- The artifacts of a request fill the directory made for them. -/
theorem createArtifacts_wp {b : Bundle} {artifacts : List Artifact}
    (hnodup : (artifacts.map (·.name)).Nodup) (dir : RevisionDir)
    (hfree : ∀ a ∈ artifacts, dir.lookup a.name = none) :
    wp (createArtifacts faults id number artifacts)
      (fun _ s' => s' = s.setBundle id
        { b with dirs := b.dirs.insert number (filledDir artifacts dir) })
      (fun _ s' => ∃ dir', s' = s.setBundle id { b with dirs := b.dirs.insert number dir' })
      (s.setBundle id { b with dirs := b.dirs.insert number dir }) := by
  induction artifacts generalizing dir with
  | nil => rfl
  | cons a rest ih =>
    rw [createArtifacts, wp_bind]
    apply createExclusive_wp
    · intro _
      rw [putFile_setBundle]
      rw [List.map_cons, List.nodup_cons] at hnodup
      apply ih hnodup.2
      intro a' ha'
      have hne : a'.name ≠ a.name := by
        intro h
        exact hnodup.1 (h ▸ List.mem_map_of_mem ha')
      rw [AList.lookup_insert_ne hne]
      exact hfree a' (List.mem_cons_of_mem _ ha')
    · intro _ e
      exact ⟨dir, rfl⟩
    · intro _ written
      exact ⟨_, putFile_setBundle⟩

/-- A page written where nothing stands is created. -/
theorem writePage_wp {path : NotePath} {mtime : Notes.Instant}
    {text : Except Frontmatter.Raised Text} (hfree : s.notes.lookup path = none)
    {Q : Bool → Store → Prop} {E : Raised → Store → Prop}
    (hQ : ∀ t, text = .ok t → Q true (s.setNote path (.file (.utf8 t) mtime)))
    (hE : ∀ e, E e s)
    (hleft : LeftBehind faults .page → ∀ e entry, E e (s.setNote path entry)) :
    wp (writePage env faults id path mtime text) Q E s := by
  unfold writePage
  rw [wp_mapRaised, wp_bind]
  refine composed_wp (fun t ht => ?_) fun _ => hE _
  rw [wp_bind, wp_get]
  simp only [hfree, Option.isSome_none, Bool.false_eq_true, if_false]
  rw [wp_bind]
  refine createExclusive_wp (fun _ => ?_) (fun _ _ => hE _) fun h written => hleft h _ _
  rw [wp_pure]
  exact hQ t ht

end Files

section New

variable {env : Env} {faults : Faults} {draw : Draw} {request : Request} {s : Store}

/-- The bundle of a source before its manifest: one revision's directory. -/
def firstBundle (request : Request) : Bundle :=
  ⟨none, (∅ : AList fun _ : Nat => RevisionDir).insert 1 (filledDir request.artifacts ∅)⟩

/-- The mirror with the rows of a new source and its note. -/
def newDatabase (env : Env) (draw : Draw) (request : Request) (path page : NotePath) (text : Text)
    (db : Database) : Database :=
  let revision := revisionDocument env draw request 1
  let (_, row) := noteRow env (PyStr.ofText draw.noteId) path (PyStr.ofText request.noteTitle) text
    (buildFrontmatter env draw request) draw.now
  { db.withRevision draw.sourceId revision with
    sources := db.sources.insert draw.sourceId
      (sourceRow (newManifest env draw request page) revision draw.now)
    notes := db.notes.insert row.id row
    links := db.links.insert (row.id, draw.sourceId) draw.now }

/-- The bundles while a source is being placed: untouched, or with its own bundle, which has no
manifest. -/
def Started (draw : Draw) (before after : AList fun _ : SourceId => Bundle) : Prop :=
  after = before ∨ ∃ dir, after =
    before.insert draw.sourceId ⟨none, (∅ : AList fun _ : Nat => RevisionDir).insert 1 dir⟩

/-- The mirror takes the rows of a new source and its note. -/
structure TakesRows (env : Env) (draw : Draw) (request : Request) (path page : NotePath) (text : Text)
    (db : Database) : Prop where
  unclaimed : db.conflicting request.provider request.externalSourceId = false
  source_free : db.sources.lookup draw.sourceId = none
  note_free : db.notes.lookup (PyStr.ofText draw.noteId) = none
  source : (sourceRow (newManifest env draw request page) (revisionDocument env draw request 1)
    draw.now).admitted = true
  revision : (revisionDocument env draw request 1).admitted = true
  note : (noteRow env (PyStr.ofText draw.noteId) path (PyStr.ofText request.noteTitle) text
    (buildFrontmatter env draw request) draw.now).1.admitted = true

theorem insertRows_wp {path page : NotePath} {text : Text} {Q : Unit → Store → Prop}
    {E : Raised → Store → Prop}
    (hQ : TakesRows env draw request path page text s.db →
      Q () (s.setDb (newDatabase env draw request path page text s.db)))
    (hE : ∀ e, E e s) :
    wp (insertRows env faults draw request (newManifest env draw request page)
      (noteRow env (PyStr.ofText draw.noteId) path (PyStr.ofText request.noteTitle) text
        (buildFrontmatter env draw request) draw.now).1
      (noteRow env (PyStr.ofText draw.noteId) path (PyStr.ofText request.noteTitle) text
        (buildFrontmatter env draw request) draw.now).2) Q E s := by
  unfold insertRows
  rw [wp_bind]
  refine step_wp (fun _ => ?_) fun _ => hE _
  rw [wp_bind, wp_get, wp_bind]
  refine raiseIf_wp (fun hunclaimed => ?_) fun _ => hE _
  rw [wp_bind]
  refine raiseIf_wp (fun hfree => ?_) fun _ => hE _
  rw [wp_bind]
  refine raiseIf_wp (fun hadmitted => ?_) fun _ => hE _
  rw [wp_bind]
  refine step_wp (fun _ => ?_) fun _ => hE _
  rw [wp_bind]
  refine raiseIf_wp (fun hrevision => ?_) fun _ => hE _
  rw [wp_modify]
  simp only [Bool.or_eq_false_iff, Bool.not_eq_false', Option.isSome_eq_false_iff,
    Option.isNone_iff_eq_none] at hfree hadmitted hrevision
  exact hQ ⟨hunclaimed, hfree.1, hfree.2, hadmitted.1.1, hrevision, hadmitted.2⟩

/-- The day a page is filed under while it is pending. -/
def pageDay (env : Env) (draw : Draw) (request : Request) : Frontmatter.Date :=
  (dateOfNote env draw request).getD (env.localTime draw.now).date

/-- The texts and the paths of a source that is placed. -/
structure Texts (env : Env) (draw : Draw) (request : Request) (s : Store) (path page : NotePath)
    (text pageData : Text) : Prop where
  page_eq : newProjectionPath env s request.noteTitle (pageDay env draw request) = some page
  text_eq : noteText env draw request page = .ok text
  pageData_eq : pageText env draw.sourceId 1 request.noteTitle draw.now
    (describedArtifacts env request) = .ok pageData
  page_free : s.notes.lookup page = none

/-- A store in which a source is placed up to its manifest and its note. -/
def placedSource (env : Env) (draw : Draw) (request : Request) (path page : NotePath)
    (text pageData : Text) (s : Store) : Store where
  claims := s.claims
  bundles := s.bundles.insert draw.sourceId (firstBundle request)
  notes := s.notes.insert page (.file (.utf8 pageData) draw.mtime)
  db := newDatabase env draw request path page text s.db

theorem stemOf_append {stem : Text} (h : stem ≠ []) :
    FolderTree.stemOf (stem ++ ".md".toList) = some stem := by
  have hlength : 0 < stem.length := List.length_pos_of_ne_nil h
  have hsuffix : ".md".toList.isSuffixOf (stem ++ ".md".toList) = true :=
    List.isSuffixOf_iff_suffix.2 (List.suffix_append _ _)
  unfold FolderTree.stemOf
  rw [if_pos ⟨hsuffix, by simpa using hlength⟩]
  simp

theorem noteStem_ne_nil {unicode : Naming.Unicode} {title : Text} {day : Frontmatter.Date} :
    noteStem unicode title (some day) true ≠ [] := by
  simp [noteStem]

theorem uniqueStem_ne_nil {unicode : Naming.Unicode} {stem found : Text} {taken : List Text}
    (hstem : stem ≠ []) (h : uniqueStem unicode stem taken = some found) : found ≠ [] := by
  unfold uniqueStem at h
  dsimp only at h
  split at h
  · exact Option.some.inj h ▸ hstem
  · obtain ⟨n, -, rfl⟩ := List.mem_map.1 (List.mem_of_find?_eq_some h)
    simp

/-- A new page's path has nothing at it. -/
theorem newProjectionPath_free {title : Text} {day : Frontmatter.Date} {page : NotePath}
    (h : newProjectionPath env s title day = some page) : s.notes.lookup page = none := by
  unfold newProjectionPath at h
  obtain ⟨stem, hstem, rfl⟩ := Option.map_eq_some_iff.1 h
  rw [AList.lookup_eq_none]
  intro hmem
  apply uniqueStem_free hstem
  apply List.mem_map_of_mem
  rw [takenStems, List.mem_filterMap]
  exact ⟨_, List.mem_filter.2 ⟨hmem, by simp⟩,
    stemOf_append (uniqueStem_ne_nil noteStem_ne_nil hstem)⟩

theorem placeSource_wp {path : NotePath} (hid : s.bundles.lookup draw.sourceId = none) :
    wp (placeSource env faults draw request path)
      (fun r s' => ∃ pageData, r.2.2 = true ∧ Texts env draw request s path r.2.1 r.1 pageData ∧
        TakesRows env draw request path r.2.1 r.1 s.db ∧
        s' = placedSource env draw request path r.2.1 r.1 pageData s)
      (fun _ s' => s'.claims = s.claims ∧ Started draw s.bundles s'.bundles ∧
        (s'.notes = s.notes ∨ LeftBehind faults .page)) s := by
  unfold placeSource
  rw [wp_bind]
  refine step_wp (fun _ => ?_) fun _ => ⟨rfl, Or.inl rfl, Or.inl rfl⟩
  rw [wp_bind, wp_get, wp_bind]
  refine found_wp (fun page hpage => ?_) fun _ => ⟨rfl, Or.inl rfl, Or.inl rfl⟩
  rw [wp_bind]
  refine composed_wp (fun text htext => ?_) fun _ => ⟨rfl, Or.inl rfl, Or.inl rfl⟩
  rw [wp_bind]
  refine insertRows_wp (fun htakes => ?_) fun _ => ⟨rfl, Or.inl rfl, Or.inl rfl⟩
  rw [wp_bind]
  refine makeRevisionDir_wp (fun _ => ?_) fun _ => ⟨rfl, Or.inl rfl, Or.inl rfl⟩
  rw [wp_bind]
  have hempty : (s.setDb (newDatabase env draw request path page text s.db)).bundle draw.sourceId =
      .empty := Store.bundle_eq_empty hid
  rw [hempty]
  refine wp_mono (createArtifacts_wp request.names_nodup ∅ fun a _ => AList.lookup_empty _) ?_ ?_
  · rintro - s₁ rfl
    have hfree : s.notes.lookup page = none := newProjectionPath_free hpage
    rw [wp_bind, wp_mapRaised]
    apply writePage_wp
    · exact hfree
    · intro pageData hdata
      exact ⟨pageData, rfl, ⟨hpage, htext, hdata, hfree⟩, htakes, rfl⟩
    · intro _
      exact ⟨rfl, Or.inr ⟨_, rfl⟩, Or.inl rfl⟩
    · intro h e entry
      exact ⟨rfl, Or.inr ⟨_, rfl⟩, Or.inr h⟩
  · rintro - s₁ ⟨dir, rfl⟩
    exact ⟨rfl, Or.inr ⟨dir, rfl⟩, Or.inl rfl⟩

/-- The manifest and the note a source that is placed gets beside its page. -/
def completed (env : Env) (draw : Draw) (request : Request) (path page : NotePath) (text : Text)
    (s : Store) : Store :=
  { s with
    bundles := s.bundles.insert draw.sourceId
      { firstBundle request with manifest := some (.whole (newManifest env draw request page)) }
    notes := s.notes.insert path (.file (.utf8 text) draw.mtime) }

/-- Where an ingest fails with a manifest there: the note cannot be created, or the failed
creation of the manifest leaves a file. -/
def FailsPastManifest (faults : Faults) (s : Store) (path : NotePath) (page : Option NotePath) :
    Prop :=
  LeftBehind faults .newManifest ∨
    CreationFails faults .note ((s.notes.lookup path).isSome || page == some path)

/-- The notes tree with the page alone put into it. -/
def PageOnly (before after : AList fun _ : NotePath => Entry) : Option NotePath → Prop
  | none => after = before
  | some page => before.lookup page = none ∧ ∃ entry, after = before.insert page entry

/-- A store in which a source is placed in part: nothing, or its own bundle, and its page. -/
structure Partly (faults : Faults) (draw : Draw) (path : NotePath) (page : Option NotePath)
    (s s' : Store) : Prop where
  claims : s'.claims = s.claims
  bundles : s'.bundles = s.bundles ∨ ∃ manifest dirs,
    s'.bundles = s.bundles.insert draw.sourceId ⟨manifest, dirs⟩ ∧
      (manifest = none ∨ FailsPastManifest faults s path page)
  notes : PageOnly s.notes s'.notes page ∨ LeftBehind faults .page ∨ LeftBehind faults .note

theorem placeNote_wp {path page : NotePath} {text pageData : Text}
    (htexts : Texts env draw request s path page text pageData) :
    wp (placeNote env faults draw request path page text)
      (fun _ s' => (placedSource env draw request path page text pageData s).notes.lookup path = none ∧
        s' = completed env draw request path page text
          (placedSource env draw request path page text pageData s))
      (fun _ s' => Partly faults draw path (some page) s s')
      (placedSource env draw request path page text pageData s) := by
  have hpage : PageOnly s.notes
      (placedSource env draw request path page text pageData s).notes (some page) :=
    ⟨htexts.page_free, _, rfl⟩
  have hbundle : (placedSource env draw request path page text pageData s).bundle draw.sourceId =
      firstBundle request := Store.bundle_eq (AList.lookup_insert _)
  have hbundles : ∀ manifest, (placedSource env draw request path page text pageData s).bundles.insert
      draw.sourceId { firstBundle request with manifest } =
      s.bundles.insert draw.sourceId ⟨manifest, (firstBundle request).dirs⟩ :=
    fun _ => AList.insert_insert ..
  unfold placeNote
  rw [wp_bind]
  apply createExclusive_wp
  · intro _
    rw [wp_mapRaised, hbundle]
    apply createExclusive_wp
    · intro hfree
      exact ⟨by simpa using hfree, rfl⟩
    · intro hfails e
      refine ⟨rfl, Or.inr ⟨_, _, hbundles _, Or.inr (Or.inr ?_)⟩, Or.inl hpage⟩
      refine hfails.imp (fun htaken => ?_) id
      by_cases hpath : path = page
      · simp [hpath]
      · simpa [placedSource, AList.lookup_insert_ne hpath, Ne.symm hpath] using htaken
    · intro hleft written
      exact ⟨rfl, Or.inr ⟨_, _, hbundles _, Or.inr (Or.inr (Or.inr (Or.inr hleft.failed)))⟩,
        Or.inr (Or.inr hleft)⟩
  · intro _ e
    exact ⟨rfl, Or.inr ⟨none, _, rfl, Or.inl rfl⟩, Or.inl hpage⟩
  · intro hleft written
    rw [hbundle]
    exact ⟨rfl, Or.inr ⟨_, _, hbundles _, Or.inr (Or.inl hleft)⟩, Or.inl hpage⟩

/-- The `finally` clause of `_ingest_new`, as it changes the store. -/
def cleaned (env : Env) (faults : Faults) (draw : Draw) (request : Request)
    (page : Option NotePath) (s : Store) : Store where
  claims :=
    if faults .unlinkClaim then s.claims
    else s.claims.erase (claimName env request.provider request.externalSourceId)
  bundles := (removeBundle faults draw.sourceId s).bundles
  notes :=
    match page with
    | some page => if faults .unlinkPage then s.notes else s.notes.erase page
    | none => s.notes
  db := s.db

theorem removeBundle_eq {id : SourceId} :
    removeBundle faults id s = { s with bundles := (removeBundle faults id s).bundles } := by
  unfold removeBundle
  cases s.bundles.lookup id with
  | none => rfl
  | some b =>
    dsimp only
    cases leftOfBundle faults b <;> rfl

/-- Whatever the clean-up raises itself, this is the store it leaves. -/
theorem cleanUp_wp {page : Option NotePath} {P : Store → Prop}
    (hP : P (cleaned env faults draw request page s)) :
    wp (cleanUp env faults draw request page) (fun _ s' => P s') (fun _ s' => P s') s := by
  unfold cleaned at hP
  unfold cleanUp
  rw [wp_bind, wp_modify, removeBundle_eq]
  cases hclaim : faults .unlinkClaim <;> cases page with
  | none => simpa [hclaim, Store.dropClaim] using hP
  | some page =>
    cases hpage : faults .unlinkPage <;>
      simpa [hclaim, hpage, step, Store.dropClaim, Store.dropNote] using hP

/-- The store with the claim of a source. -/
def claimed (env : Env) (draw : Draw) (request : Request) (s : Store) : Store :=
  s.setClaim (claimName env request.provider request.externalSourceId)
    (.whole (claimOf draw request))

/-- A store in which a source has been created. -/
def created (env : Env) (draw : Draw) (request : Request) (path page : NotePath)
    (text pageData : Text) (s : Store) : Store :=
  completed env draw request path page text
    (placedSource env draw request path page text pageData (claimed env draw request s))

/-- What a request that created its source answers. -/
def newResult (draw : Draw) (path page : NotePath) : IngestResult where
  sourceId := draw.sourceId
  revision := 1
  sourceCreated := true
  unstoredFields := []
  noteId := PyStr.ofText draw.noteId
  notePath := path
  noteCreated := true
  projectionPath := page

/-- An ingest created its source. -/
structure Created (env : Env) (draw : Draw) (request : Request) (s : Store) (r : IngestResult)
    (s' : Store) : Prop where
  fresh : noteProblems env draw request = .ok []
  created : ∃ path page text pageData, notePath env draw request s = some path ∧
    Texts env draw request s path page text pageData ∧
    TakesRows env draw request path page text s.db ∧
    (s.notes.insert page (.file (.utf8 pageData) draw.mtime)).lookup path = none ∧
    s' = Sources.created env draw request path page text pageData s ∧ r = newResult draw path page

/-- What an ingest that does not create its source leaves. -/
inductive LeftNew (env : Env) (faults : Faults) (draw : Draw) (request : Request) (s : Store) :
    Store → Prop
  | unchanged : LeftNew env faults draw request s s
  | claim (hleft : LeftBehind faults .claim) (written : Written) :
      LeftNew env faults draw request s
        (s.setClaim (claimName env request.provider request.externalSourceId)
          (written.doc (claimOf draw request)))
  | cleaned (path : NotePath) (page : Option NotePath) (s' : Store)
      (hpath : notePath env draw request s = some path)
      (hpage : page.all fun page =>
        newProjectionPath env s request.noteTitle (pageDay env draw request) == some page)
      (hpartly : Partly faults draw path page (claimed env draw request s) s') :
      LeftNew env faults draw request s (cleaned env faults draw request page s')

/-- **The creation of a source**: it is there with its page and its note, or what was made of it
is removed again as far as that could be done. -/
theorem ingestNew_wp (hid : s.bundles.lookup draw.sourceId = none) :
    wp (ingestNew env faults draw request) (fun r s' => Created env draw request s r s')
      (fun _ s' => LeftNew env faults draw request s s') s := by
  unfold ingestNew
  rw [wp_bind]
  refine hashedTags_wp (fun problems hnote => ?_) fun _ => .unchanged
  rw [wp_bind]
  refine raiseIf_wp (fun hproblems => ?_) fun _ => .unchanged
  rw [wp_bind]
  refine step_wp (fun _ => ?_) fun _ => .unchanged
  rw [wp_bind, wp_get, wp_bind]
  refine found_wp (fun path hpath => ?_) fun _ => .unchanged
  rw [wp_bind]
  refine step_wp (fun _ => ?_) fun _ => .unchanged
  rw [wp_bind, wp_get, wp_bind]
  refine raiseIf_wp (fun _ => ?_) fun _ => .unchanged
  rw [wp_bind, wp_mapRaised, wp_bind]
  unfold createClaim
  apply createExclusive_wp
  · intro _
    rw [wp_bind, wp_onRaiseRun]
    refine wp_mono (placeSource_wp (s := claimed env draw request s) hid) ?_ ?_
    · rintro ⟨text, page, wasCreated⟩ s₁ ⟨pageData, rfl, htexts, htakes, rfl⟩
      rw [wp_bind, wp_onRaiseRun]
      refine wp_mono (placeNote_wp htexts) ?_ ?_
      · rintro - s₂ ⟨hfree, rfl⟩
        rw [wp_pure, wp_pure]
        exact ⟨by simpa [hnote] using hproblems, path, page, text, pageData, hpath,
          ⟨htexts.page_eq, htexts.text_eq, htexts.pageData_eq, htexts.page_free⟩, htakes, hfree, rfl,
          rfl⟩
      · intro e s₂ hpartly
        have hpage : newProjectionPath env s request.noteTitle (pageDay env draw request) =
            some page := htexts.page_eq
        apply cleanUp_wp
        exact .cleaned path (some page) s₂ hpath (by simpa using hpage) hpartly
    · rintro e s₁ ⟨hclaims, hbundles, hnotes⟩
      apply cleanUp_wp
      refine .cleaned path none s₁ hpath rfl ⟨hclaims, ?_, hnotes.imp id Or.inl⟩
      refine hbundles.imp id ?_
      rintro ⟨dir, hdir⟩
      exact ⟨none, _, hdir, Or.inl rfl⟩
  · intro _ e
    exact .unchanged
  · intro hleft written
    exact .claim hleft written

end New

/-- The claims and the bundles. -/
def archive (s : Store) :
    (AList fun _ : Text => Doc Claim) × (AList fun _ : SourceId => Bundle) :=
  (s.claims, s.bundles)

section Frames

variable {env : Env} {faults : Faults} {draw : Draw} {request : Request}

theorem frame_step (site : Site) (e : Raised) : Frame archive (step faults site e) :=
  frame_raiseIf _ _

theorem frame_found {α : Type} (o : Option α) : Frame archive (found o) := by
  cases o with
  | none => exact frame_throw _
  | some a => exact frame_pure a

theorem frame_composed {α : Type} (r : Except Frontmatter.Raised α) : Frame archive (composed r) := by
  cases r with
  | error e => exact frame_throw _
  | ok a => exact frame_pure a

theorem frame_createExclusive {site : ExclusiveStep → Site} {taken : Store → Bool}
    {put : Written → Store → Store} (h : ∀ written s, archive (put written s) = archive s) :
    Frame archive (createExclusive faults site taken put) :=
  ⟨fun _ => createExclusive_wp (fun _ => h _ _) (fun _ _ => rfl) fun _ _ => h _ _⟩

theorem frame_projectionRevision (site : Site) (path : NotePath) (id : SourceId) :
    Frame archive (projectionRevision env faults site path id) :=
  frame_bind (frame_step _ _) fun _ => frame_bind frame_get fun _ => frame_pure _

theorem frame_writePage (id : SourceId) (path : NotePath) (mtime : Notes.Instant)
    (text : Except Frontmatter.Raised Text) :
    Frame archive (writePage env faults id path mtime text) := by
  apply frame_mapRaised
  refine frame_bind (frame_composed _) fun t => frame_bind frame_get fun s => ?_
  cases h : (s.notes.lookup path).isSome with
  | false =>
    simp only [Bool.false_eq_true, if_false]
    exact frame_bind (frame_createExclusive fun _ _ => rfl) fun _ => frame_pure _
  | true =>
    simp only [if_true]
    refine frame_bind (frame_step _ _) fun _ => frame_bind (frame_projectionRevision _ _ _)
      fun _ => frame_bind (frame_raiseIf _ _) fun _ => frame_bind (frame_step _ _) fun _ => ?_
    exact frame_bind (frame_modify fun _ => rfl) fun _ => frame_bind (frame_step _ _) fun _ =>
      frame_pure _

theorem frame_verifyArtifacts (id : SourceId) (number : Nat) (entries : List ArtifactEntry) :
    Frame archive (verifyArtifacts env faults id number entries) := by
  induction entries with
  | nil => exact frame_pure _
  | cons entry rest ih =>
    refine frame_bind (frame_step _ _) fun _ => frame_bind frame_get fun s => ?_
    cases artifactBytes s id number entry.name with
    | none => exact frame_bind (frame_throw _) fun _ => ih
    | some data => exact frame_bind (frame_raiseIf _ _) fun _ => ih

theorem frame_readArtifacts (id : SourceId) (number : Nat) (entries : List ArtifactEntry) :
    Frame archive (readArtifacts faults id number entries) := by
  induction entries with
  | nil => exact frame_pure _
  | cons entry rest ih =>
    refine frame_bind (frame_step _ _) fun _ => frame_bind frame_get fun s => ?_
    cases artifactBytes s id number entry.name with
    | none => exact frame_throw _
    | some data => exact frame_bind ih fun _ => frame_pure _

theorem frame_linkedNote (id : SourceId) (noteId : Text) :
    Frame archive (linkedNote env faults id noteId) := by
  refine frame_bind (frame_raiseIf _ _) fun _ => frame_bind (frame_step _ _) fun _ =>
    frame_bind frame_get fun s => ?_
  split
  · exact frame_pure _
  · refine frame_bind (frame_step _ _) fun _ => frame_bind frame_get fun s => ?_
    dsimp only
    split
    · exact frame_pure _
    · exact frame_throw _

theorem frame_ensureSourceMirror (manifest : Manifest) (current : Revision) :
    Frame archive (ensureSourceMirror manifest current) := by
  refine frame_bind frame_get fun s => ?_
  have hrest : Frame archive (do
      raiseIf (manifest.revisions.any (!·.admitted)) Raised.dataRefused
      modify fun s : Store => s.setDb (manifest.revisions.foldl
        (fun db revision => db.withRevision manifest.sourceId revision) s.db)) :=
    frame_bind (frame_raiseIf _ _) fun _ => frame_modify fun _ => rfl
  dsimp only
  cases s.db.sources.lookup manifest.sourceId with
  | none =>
    exact frame_bind (frame_raiseIf _ _) fun _ => frame_bind (frame_raiseIf _ _) fun _ =>
      frame_bind (frame_modify fun _ => rfl) fun _ => hrest
  | some old =>
    exact frame_bind (frame_raiseIf _ _) fun _ => frame_bind (frame_modify fun _ => rfl)
      fun _ => hrest

theorem frame_ensureMirror (manifest : Manifest) (current : Revision) (path : NotePath)
    (snapshot : Option Snapshot) : Frame archive (ensureMirror env faults manifest current path snapshot) := by
  refine frame_bind (frame_step _ _) fun _ => frame_bind (frame_ensureSourceMirror _ _) fun _ =>
    frame_bind frame_get fun s => ?_
  have hlink : ∀ u : Unit, Frame archive (do
      if ((← get : Store).db.links.lookup
          (PyStr.ofText manifest.noteId, manifest.sourceId)).isNone then
        let createdAt := (manifest.revisions.head?.map (·.ingestedAt)).getD current.ingestedAt
        modify fun s : Store => s.setDb { s.db with
          links := s.db.links.insert (PyStr.ofText manifest.noteId, manifest.sourceId) createdAt }
      : Op PUnit) := fun _ => frame_bind frame_get fun _ =>
    frame_ite (frame_modify fun _ => rfl) (frame_pure _)
  dsimp only
  split
  · cases snapshot with
    | none => exact frame_bind (frame_throw _) hlink
    | some file =>
      exact frame_bind (frame_raiseIf _ _) fun _ => frame_bind (frame_modify fun _ => rfl) hlink
  · exact hlink ()

theorem frame_noteTitleDay (noteId : Notes.NoteId) :
    Frame archive (noteTitleDay env faults draw noteId) := by
  refine frame_bind (frame_step _ _) fun _ => frame_bind frame_get fun s => ?_
  cases s.db.notes.lookup noteId with
  | none => exact frame_throw _
  | some row => exact frame_pure _

theorem frame_freshPage (title : Text) (day : Frontmatter.Date) :
    Frame archive (freshPage env faults title day) :=
  frame_bind (frame_step _ _) fun _ => frame_bind frame_get fun _ => frame_found _

theorem frame_pageFor (manifest : Manifest) (held : Option Int) (title : Text)
    (day : Frontmatter.Date) : Frame archive (pageFor env faults manifest held title day) :=
  frame_ite (frame_pure _) (frame_freshPage _ _)

theorem frame_replayPage (manifest : Manifest) (current : Revision) :
    Frame archive (replayPage env faults draw manifest current) := by
  refine frame_bind (frame_projectionRevision _ _ _) fun held => ?_
  refine frame_ite (frame_pure _) ?_
  exact frame_bind (frame_noteTitleDay _) fun _ => frame_bind (frame_pageFor _ _ _ _) fun _ =>
    frame_bind (frame_readArtifacts _ _ _) fun _ => frame_bind (frame_writePage _ _ _ _) fun _ =>
      frame_pure _

theorem frame_insertRevisionRows (manifest : Manifest) (number : Nat) :
    Frame archive (insertRevisionRows env faults draw request manifest number) := by
  refine frame_bind (frame_step _ _) fun _ => frame_bind frame_get fun s => ?_
  dsimp only
  cases s.db.sources.lookup manifest.sourceId with
  | none => exact frame_throw _
  | some old =>
    exact frame_bind frame_get fun _ => frame_bind (frame_raiseIf _ _) fun _ =>
      frame_bind (frame_raiseIf _ _) fun _ => frame_modify fun _ => rfl

end Frames

section Existing

variable {env : Env} {faults : Faults} {draw : Draw} {request : Request} {s : Store}

/-- A source that is there: its bundle has a manifest that can be read. -/
structure Holds (s : Store) (manifest : Manifest) (bundle : Bundle) : Prop where
  lookup_eq : s.bundles.lookup manifest.sourceId = some bundle
  manifest_eq : bundle.manifest = some (.whole manifest)

/-- What an ingest for a source that is there leaves of the claims and the bundles. -/
inductive LeftExisting (env : Env) (draw : Draw) (request : Request) (s s' : Store) : Prop
  | unchanged (h : archive s' = archive s)
  | moved (manifest : Manifest) (bundle : Bundle) (page : NotePath)
      (holds : Holds s manifest bundle)
      (h : archive s' = archive (s.setBundle manifest.sourceId
        { bundle with manifest := some (.whole { manifest with projectionPath := page }) }))
  | revised (manifest : Manifest) (bundle : Bundle) (page : NotePath)
      (holds : Holds s manifest bundle)
      (hfree : bundle.dirs.lookup (manifest.currentRevision + 1) = none)
      (h : archive s' = archive (s.setBundle manifest.sourceId
        ⟨some (.whole (revisedManifest env draw request manifest page)),
          bundle.dirs.insert (manifest.currentRevision + 1) (filledDir request.artifacts ∅)⟩))
  | discarded (manifest : Manifest) (bundle : Bundle) (dirs : AList fun _ : Nat => RevisionDir)
      (holds : Holds s manifest bundle)
      (hdirs : ∀ k, k ≠ manifest.currentRevision + 1 → dirs.lookup k = bundle.dirs.lookup k)
      (h : archive s' = archive (s.setBundle manifest.sourceId { bundle with dirs }))

theorem readManifest_wp {id : SourceId} {Q : Manifest → Store → Prop} {E : Raised → Store → Prop}
    (hQ : ∀ manifest bundle, manifest.sourceId = id → Holds s manifest bundle → Q manifest s)
    (hE : ∀ e, E e s) : wp (readManifest faults request id) Q E s := by
  unfold readManifest
  rw [wp_bind]
  refine step_wp (fun _ => ?_) fun _ => hE _
  rw [wp_bind, wp_get]
  cases hmanifest : s.manifest? id with
  | none => exact hE _
  | some manifest =>
    dsimp only
    rw [wp_bind]
    refine raiseIf_wp (fun h => ?_) fun _ => hE _
    simp only [Bool.or_eq_false_iff, decide_eq_false_iff_not, not_not] at h
    obtain ⟨⟨rfl, -⟩, -⟩ := h
    unfold Store.manifest? at hmanifest
    obtain ⟨doc, hdoc, hread⟩ := Option.bind_eq_some_iff.1 hmanifest
    obtain ⟨bundle, hbundle, hwhole⟩ := Option.bind_eq_some_iff.1 hdoc
    cases doc with
    | torn => cases hread
    | whole m =>
      obtain rfl := Option.some.inj hread
      exact hQ m bundle rfl ⟨hbundle, hwhole⟩

/-- What `rmtree` does to the revision's own directory, it does to no other. -/
theorem removeRevision_setBundle {id : SourceId} {number : Nat} {bundle : Bundle}
    {dir : RevisionDir} :
    ∃ dirs, (∀ k, k ≠ number → dirs.lookup k = bundle.dirs.lookup k) ∧
      removeRevision faults id number
        (s.setBundle id { bundle with dirs := bundle.dirs.insert number dir }) =
          s.setBundle id { bundle with dirs } := by
  unfold removeRevision
  simp only [Store.bundle_setBundle, AList.lookup_insert, Store.setBundle_setBundle]
  cases leftOfDir faults number dir with
  | none =>
    refine ⟨_, fun k hk => ?_, rfl⟩
    rw [AList.lookup_erase_ne hk, AList.lookup_insert_ne hk]
  | some kept =>
    refine ⟨_, fun k hk => ?_, rfl⟩
    rw [AList.lookup_insert_ne hk, AList.lookup_insert_ne hk]

theorem replaceManifest_wp {id : SourceId} {manifest : Manifest} {Q : Unit → Store → Prop}
    {E : Raised → Store → Prop}
    (hQ : Q () (s.setBundle id { s.bundle id with manifest := some (.whole manifest) }))
    (hE : ∀ e, E e s) : wp (replaceManifest faults id manifest) Q E s := by
  unfold replaceManifest
  rw [wp_bind]
  refine step_wp (fun _ => ?_) fun _ => hE _
  rw [wp_bind]
  refine step_wp (fun _ => ?_) fun _ => hE _
  rw [wp_modify]
  exact hQ

/-- A store that holds what another does, as far as the archive goes. -/
theorem Holds.of_archive {s s' : Store} {manifest : Manifest} {bundle : Bundle}
    (h : Holds s manifest bundle) (harchive : archive s' = archive s) : Holds s' manifest bundle := by
  refine ⟨?_, h.manifest_eq⟩
  rw [show s'.bundles = s.bundles from congrArg Prod.snd harchive]
  exact h.lookup_eq

theorem archive_setBundle {s s' : Store} (h : archive s' = archive s) (id : SourceId) (b : Bundle) :
    archive (s'.setBundle id b) = archive (s.setBundle id b) := by
  rw [archive, archive, Prod.mk.injEq] at h ⊢
  simp only [Store.setBundle_claims, Store.setBundle_bundles]
  exact ⟨h.1, by rw [h.2]⟩

theorem archive_removeRevision {s s' : Store} (h : archive s' = archive s) (id : SourceId)
    (number : Nat) :
    archive (removeRevision faults id number s') = archive (removeRevision faults id number s) := by
  have hbundle : s'.bundle id = s.bundle id := by
    rw [Store.bundle, Store.bundle, show s'.bundles = s.bundles from congrArg Prod.snd h]
  unfold removeRevision
  rw [hbundle]
  dsimp only
  cases (s.bundle id).dirs.lookup number with
  | none => exact h
  | some dir =>
    dsimp only
    cases leftOfDir faults number dir <;> exact archive_setBundle h _ _

theorem recordPage_wp {manifest : Manifest} {bundle : Bundle} {page : NotePath} {wasCreated : Bool}
    (holds : Holds s manifest bundle) :
    wp (recordPage faults manifest page wasCreated)
      (fun _ s' => LeftExisting env draw request s s')
      (fun _ s' => LeftExisting env draw request s s') s := by
  unfold recordPage
  rw [wp_mapRaised]
  by_cases hpage : manifest.projectionPath = page
  · simp only [hpage, ne_eq, not_true_eq_false, if_false]
    exact .unchanged rfl
  · simp only [ne_eq, hpage, not_false_eq_true, if_true]
    rw [wp_bind, wp_onRaiseRun]
    apply replaceManifest_wp
    · rw [Store.bundle_eq holds.lookup_eq]
      have hmoved : ∀ s', s' = s.setBundle manifest.sourceId
            { bundle with manifest := some (.whole { manifest with projectionPath := page }) } →
          LeftExisting env draw request s s' :=
        fun s' h => .moved manifest bundle page holds (by rw [h])
      exact step_wp (fun _ => hmoved _ rfl) fun _ => hmoved _ rfl
    · intro e
      cases wasCreated with
      | false => exact .unchanged rfl
      | true =>
        simp only [if_true]
        rw [wp_bind]
        refine step_wp (fun _ => ?_) fun _ => .unchanged rfl
        rw [wp_modify]
        exact .unchanged rfl

theorem placeRevision_wp {manifest : Manifest} {bundle : Bundle} {number : Nat} :
    wp (onRaise (placeRevision env faults draw request manifest number)
        (removeRevision faults manifest.sourceId number))
      (fun r s' => archive s' = archive (s.setBundle manifest.sourceId
        ⟨some (.whole (revisedManifest env draw request manifest r.2)),
          bundle.dirs.insert number (filledDir request.artifacts ∅)⟩))
      (fun _ s' => ∃ dirs, (∀ k, k ≠ number → dirs.lookup k = bundle.dirs.lookup k) ∧
        archive s' = archive (s.setBundle manifest.sourceId { bundle with dirs }))
      (s.setBundle manifest.sourceId { bundle with dirs := bundle.dirs.insert number ∅ }) := by
  have hremoved : ∀ dir s', archive s' = archive (s.setBundle manifest.sourceId
        { bundle with dirs := bundle.dirs.insert number dir }) →
      ∃ dirs, (∀ k, k ≠ number → dirs.lookup k = bundle.dirs.lookup k) ∧
        archive (removeRevision faults manifest.sourceId number s') =
          archive (s.setBundle manifest.sourceId { bundle with dirs }) := by
    intro dir s' h
    obtain ⟨dirs, hdirs, hremove⟩ :=
      @removeRevision_setBundle faults s manifest.sourceId number bundle dir
    exact ⟨dirs, hdirs, (archive_removeRevision h _ _).trans (congrArg archive hremove)⟩
  rw [wp_onRaise]
  unfold placeRevision
  rw [wp_bind]
  refine wp_mono (createArtifacts_wp request.names_nodup ∅ fun a _ => AList.lookup_empty _) ?_ ?_
  · rintro - s₁ rfl
    rw [wp_bind]
    refine (frame_noteTitleDay _).wp (fun (title, day) s₂ h₂ => ?_) fun _ s₂ h₂ => hremoved _ _ h₂
    rw [wp_bind]
    refine (frame_projectionRevision _ _ _).wp (fun held s₃ h₃ => ?_)
      fun _ s₃ h₃ => hremoved _ _ (h₃.trans h₂)
    rw [wp_bind]
    refine (frame_pageFor _ _ _ _).wp (fun page s₄ h₄ => ?_)
      fun _ s₄ h₄ => hremoved _ _ (h₄.trans (h₃.trans h₂))
    have h := h₄.trans (h₃.trans h₂)
    have hlookup : s₄.bundles.lookup manifest.sourceId = some
        { bundle with dirs := bundle.dirs.insert number (filledDir request.artifacts ∅) } := by
      rw [show s₄.bundles = _ from congrArg Prod.snd h]
      exact AList.lookup_insert _
    rw [wp_bind]
    apply replaceManifest_wp
    · rw [wp_pure, Store.bundle_eq hlookup, archive_setBundle h, Store.setBundle_setBundle]
    · intro e
      exact hremoved _ _ h
  · rintro e s₁ ⟨dir, rfl⟩
    exact hremoved _ _ rfl

/-- The manifest names a new revision with its bytes, or the revision is discarded. -/
theorem addRevision_wp {manifest : Manifest} {bundle : Bundle} {path : NotePath}
    (holds : Holds s manifest bundle) :
    wp (addRevision env faults draw request manifest path)
      (fun _ s' => LeftExisting env draw request s s')
      (fun _ s' => LeftExisting env draw request s s') s := by
  unfold addRevision
  rw [wp_bind, wp_mapRaised]
  apply makeRevisionDir_wp
  · intro hfree
    rw [Store.bundle_eq holds.lookup_eq] at hfree ⊢
    rw [wp_bind, wp_mapRaised, wp_bind]
    refine wp_mono placeRevision_wp ?_ ?_
    · rintro ⟨title, page⟩ s₁ h₁
      have hrevised : ∀ s', archive s' = archive s₁ → LeftExisting env draw request s s' :=
        fun s' h => .revised manifest bundle page holds hfree (h.trans h₁)
      rw [wp_bind]
      refine step_wp (fun _ => ?_) fun _ => hrevised _ rfl
      rw [wp_bind]
      refine (frame_writePage _ _ _ _).wp (fun _ s₂ h₂ => ?_) fun _ s₂ h₂ => hrevised _ h₂
      rw [wp_pure, wp_bind]
      exact (frame_insertRevisionRows _ _).wp (fun _ s₃ h₃ => hrevised _ (h₃.trans h₂))
        fun _ s₃ h₃ => hrevised _ (h₃.trans h₂)
    · rintro e s₁ ⟨dirs, hdirs, h⟩
      exact .discarded manifest bundle dirs holds hdirs h
  · intro e
    exact .unchanged rfl

theorem LeftExisting.of_archive {s₁ s' : Store} (hs : archive s₁ = archive s)
    (h : LeftExisting env draw request s₁ s') : LeftExisting env draw request s s' := by
  cases h with
  | unchanged h => exact .unchanged (h.trans hs)
  | moved manifest bundle page holds h =>
    exact .moved manifest bundle page (holds.of_archive hs.symm) (h.trans (archive_setBundle hs _ _))
  | revised manifest bundle page holds hfree h =>
    exact .revised manifest bundle page (holds.of_archive hs.symm) hfree
      (h.trans (archive_setBundle hs _ _))
  | discarded manifest bundle dirs holds hdirs h =>
    exact .discarded manifest bundle dirs (holds.of_archive hs.symm) hdirs
      (h.trans (archive_setBundle hs _ _))

theorem frame_claimedSource (claim : Doc Claim) : Frame archive (claimedSource request claim) := by
  cases claim with
  | torn => exact frame_throw _
  | whole claim => exact frame_ite (frame_throw _) (frame_pure _)

theorem frame_currentRevision (manifest : Manifest) : Frame archive (currentRevision manifest) := by
  refine frame_bind (frame_raiseIf _ _) fun _ => ?_
  split
  · exact frame_bind (frame_raiseIf _ _) fun _ => frame_pure _
  · exact frame_throw _

/-- **An ingest for a source that is there** replays it, or adds a revision with its bytes. -/
theorem ingestExisting_wp {claim : Doc Claim} :
    wp (ingestExisting env faults draw request claim)
      (fun _ s' => LeftExisting env draw request s s')
      (fun _ s' => LeftExisting env draw request s s') s := by
  unfold ingestExisting
  rw [wp_bind]
  refine (frame_claimedSource claim).wp (fun id s₁ h₁ => ?_) fun _ _ h => .unchanged h
  rw [wp_bind]
  refine readManifest_wp (fun manifest bundle _ holds => ?_) fun _ => .unchanged h₁
  rw [wp_bind]
  refine (frame_currentRevision _).wp (fun current s₂ h₂ => ?_) fun _ _ h => .unchanged (h.trans h₁)
  rw [wp_bind]
  have hverify : Frame archive (if contentIdentity env current.artifacts == identityOf env request
      then verifyArtifacts env faults id current.revision current.artifacts else pure ()) :=
    frame_ite (frame_verifyArtifacts _ _ _) (frame_pure _)
  refine hverify.wp (fun _ s₃ h₃ => ?_) fun _ _ h => .unchanged (h.trans (h₂.trans h₁))
  rw [wp_bind]
  refine (frame_linkedNote _ _).wp (fun (path, snapshot) s₄ h₄ => ?_)
    fun _ _ h => .unchanged (h.trans (h₃.trans (h₂.trans h₁)))
  rw [wp_bind]
  refine (frame_ensureMirror _ _ _ _).wp (fun _ s₅ h₅ => ?_)
    fun _ _ h => .unchanged (h.trans (h₄.trans (h₃.trans (h₂.trans h₁))))
  have hs := h₅.trans (h₄.trans (h₃.trans (h₂.trans h₁)))
  have holds₅ : Holds s₅ manifest bundle := holds.of_archive (h₅.trans (h₄.trans (h₃.trans h₂)))
  cases contentIdentity env current.artifacts == identityOf env request with
  | false =>
    exact wp_mono (addRevision_wp holds₅) (fun _ _ h => h.of_archive hs) fun _ _ h => h.of_archive hs
  | true =>
    simp only [if_true]
    unfold replay
    rw [wp_bind]
    refine (frame_replayPage _ _).wp (fun (page, wasCreated) s₆ h₆ => ?_)
      fun _ _ h => .unchanged (h.trans hs)
    rw [wp_bind]
    refine wp_mono (recordPage_wp (holds₅.of_archive h₆)) (fun _ _ h => ?_)
      fun _ _ h => h.of_archive (h₆.trans hs)
    exact h.of_archive (h₆.trans hs)

end Existing

end Coppermind.Sources
