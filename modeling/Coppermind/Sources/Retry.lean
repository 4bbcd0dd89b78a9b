import Coppermind.Sources.Repair

/-!
# Retrying an ingest

A request is repeated until an attempt of it returns, and one step of one attempt fails.  An
attempt that raises leaves the store as it was, or, where its commit failed, with all its files
and none of its rows, which the next attempt puts back.  Either way the request ends as it would
have without the failure.
-/

namespace Coppermind.Sources

open Coppermind.Lib Coppermind.Lib.Text
open Coppermind.Artifacts (Bytes NotePath RevisionDir)
open Coppermind.Notes (FileBytes Row Values jsonAdmits strValue)

section Calm

variable {env : Env} {faults : Faults} {draw : Draw} {request : Request}

theorem calms_step (site : Site) (e : Raised) : Calms (step faults site e) (step noFault site e) := by
  unfold step
  cases faults site with
  | false => exact calms_refl _
  | true => exact calms_of_raises fun _ => trivial

theorem calms_createExclusive (site : ExclusiveStep → Site) (taken : Store → Bool)
    (put : Written → Store → Store) :
    Calms (createExclusive faults site taken put) (createExclusive noFault site taken put) := by
  constructor
  intro s _ s' h
  have hwp : wp (createExclusive faults site taken put)
      (fun _ s' => taken s = false ∧ s' = put .whole s) (fun _ _ => True) s :=
    createExclusive_wp (fun htaken => ⟨htaken, rfl⟩) (fun _ _ => trivial) fun _ _ => trivial
  obtain ⟨hfree, rfl⟩ := wp_ok hwp h
  have hquiet : wp (createExclusive noFault site taken put) (fun _ s' => s' = put .whole s)
      (fun _ _ => False) s := by
    refine createExclusive_wp (fun _ => rfl) (fun hfails _ => ?_) fun hleft _ => ?_
    · obtain htaken | h | h | h := hfails
      · rw [hfree] at htaken
        cases htaken
      all_goals cases h
    · cases hleft.unlinking
  obtain ⟨_, s'', hrun, rfl⟩ := wp_returns hquiet
  exact hrun

theorem calms_projectionRevision (site : Site) (path : NotePath) (id : SourceId) :
    Calms (projectionRevision env faults site path id) (projectionRevision env noFault site path id) :=
  calms_bind (calms_step _ _) fun _ => calms_refl _

theorem calms_writePage (id : SourceId) (path : NotePath) (mtime : Notes.Instant)
    (text : Except Frontmatter.Raised Text) :
    Calms (writePage env faults id path mtime text) (writePage env noFault id path mtime text) := by
  apply calms_mapRaised
  refine calms_bind (calms_refl _) fun t => calms_bind (calms_refl _) fun s => ?_
  cases (s.notes.lookup path).isSome with
  | true =>
    simp only [if_true]
    refine calms_bind (calms_step _ _) fun _ => calms_bind (calms_projectionRevision _ _ _) fun _ => ?_
    refine calms_bind (calms_refl _) fun _ => calms_bind (calms_step _ _) fun _ => ?_
    exact calms_bind (calms_refl _) fun _ => calms_bind (calms_step _ _) fun _ => calms_refl _
  | false =>
    simp only [Bool.false_eq_true, if_false]
    exact calms_bind (calms_createExclusive _ _ _) fun _ => calms_refl _

theorem calms_makeRevisionDir (id : SourceId) (number : Nat) :
    Calms (makeRevisionDir faults id number) (makeRevisionDir noFault id number) :=
  calms_bind (calms_step _ _) fun _ => calms_refl _

theorem calms_createArtifacts (id : SourceId) (number : Nat) (artifacts : List Artifact) :
    Calms (createArtifacts faults id number artifacts) (createArtifacts noFault id number artifacts) := by
  induction artifacts with
  | nil => exact calms_refl _
  | cons artifact rest ih => exact calms_bind (calms_createExclusive _ _ _) fun _ => ih

theorem calms_insertRows (manifest : Manifest) (values : Values) (row : Row) :
    Calms (insertRows env faults draw request manifest values row)
      (insertRows env noFault draw request manifest values row) := by
  refine calms_bind (calms_step _ _) fun _ => calms_bind (calms_refl _) fun _ => ?_
  refine calms_bind (calms_refl _) fun _ => calms_bind (calms_refl _) fun _ => ?_
  refine calms_bind (calms_refl _) fun _ => calms_bind (calms_step _ _) fun _ => ?_
  exact calms_bind (calms_refl _) fun _ => calms_refl _

theorem calms_createClaim :
    Calms (createClaim env faults draw request) (createClaim env noFault draw request) := by
  unfold createClaim
  exact calms_createExclusive _ _ _

theorem calms_placeSource (path : NotePath) :
    Calms (placeSource env faults draw request path) (placeSource env noFault draw request path) := by
  refine calms_bind (calms_step _ _) fun _ => calms_bind (calms_refl _) fun _ => ?_
  refine calms_bind (calms_refl _) fun page => calms_bind (calms_refl _) fun text => ?_
  refine calms_bind (calms_insertRows _ _ _) fun _ => calms_bind (calms_makeRevisionDir _ _) fun _ => ?_
  refine calms_bind (calms_createArtifacts _ _ _) fun _ => ?_
  exact calms_bind (calms_mapRaised (calms_writePage _ _ _ _)) fun _ => calms_refl _

theorem calms_placeNote (path page : NotePath) (text : Text) :
    Calms (placeNote env faults draw request path page text)
      (placeNote env noFault draw request path page text) :=
  calms_bind (calms_createExclusive _ _ _) fun _ => calms_mapRaised (calms_createExclusive _ _ _)

/-- A source that is created under faults is created without them in the same way. -/
theorem calms_ingestNew :
    Calms (ingestNew env faults draw request) (ingestNew env noFault draw request) := by
  refine calms_bind (calms_refl _) fun _ => calms_bind (calms_refl _) fun _ => calms_bind (calms_step _ _) fun _ => ?_
  refine calms_bind (calms_refl _) fun _ => calms_bind (calms_refl _) fun path => ?_
  refine calms_bind (calms_step _ _) fun _ => calms_bind (calms_refl _) fun _ => ?_
  refine calms_bind (calms_refl _) fun _ => calms_bind (calms_mapRaised ?_) fun page => calms_refl _
  refine calms_bind calms_createClaim fun _ => ?_
  refine calms_bind (calms_onRaiseRun (calms_placeSource _)) fun _ => ?_
  exact calms_bind (calms_onRaiseRun (calms_placeNote _ _ _)) fun _ => calms_refl _

end Calm

/-- A removal in the clean-up of a creation that failed. -/
def InCleanUp : Site → Bool
  | .remove _ => true
  | .unlinkClaim => true
  | .unlinkPage => true
  | _ => false

/-- Faults under which a creation that fails can be cleaned up: no removal fails, and no exclusive
creation leaves what it could not write. -/
structure Tame (faults : Faults) : Prop where
  removals : ∀ site, InCleanUp site = true → faults site = false
  claim : ¬ LeftBehind faults .claim
  page : ¬ LeftBehind faults .page
  manifest : ¬ LeftBehind faults .newManifest
  note : ¬ LeftBehind faults .note

theorem tame_noFault : Tame noFault :=
  ⟨fun _ _ => rfl, fun h => Bool.noConfusion h.unlinking, fun h => Bool.noConfusion h.unlinking,
    fun h => Bool.noConfusion h.unlinking, fun h => Bool.noConfusion h.unlinking⟩

theorem single_eq_true {site other : Site} : single site other = true ↔ other = site := by
  simp [single]

/-- One step cannot both fail and keep its undoing from working. -/
theorem tame_single {site : Site} (h : InCleanUp site = false) : Tame (single site) := by
  have hleft : ∀ step : ExclusiveStep → Site, step .writing ≠ step .unlinking →
      step .syncing ≠ step .unlinking → ¬ LeftBehind (single site) step := by
    intro step hwriting hsyncing hleft
    obtain ⟨hfailed, hunlinking⟩ := hleft
    rw [single_eq_true] at hunlinking
    rw [single_eq_true, single_eq_true] at hfailed
    obtain hfailed | hfailed := hfailed
    · exact hwriting (hfailed.trans hunlinking.symm)
    · exact hsyncing (hfailed.trans hunlinking.symm)
  refine ⟨?_, ?_, ?_, ?_, ?_⟩
  · intro other hother
    rw [← Bool.not_eq_true, single_eq_true]
    rintro rfl
    rw [h] at hother
    cases hother
  all_goals exact hleft _ (by decide) (by decide)

section Restored

variable {env : Env} {faults : Faults} {draw : Draw} {request : Request} {s s' : Store}

theorem removeBundle_tame (htame : Tame faults) {id : SourceId} :
    removeBundle faults id s = { s with bundles := s.bundles.erase id } := by
  have hdir : ∀ number dir, leftOfDir faults number dir = none := by
    intro number dir
    unfold leftOfDir
    have hkept : dir.entries.filter (fun e => faults (.remove (.artifact number e.1))) = [] := by
      rw [List.filter_eq_nil_iff]
      intro e _
      rw [htame.removals _ rfl]
      exact Bool.noConfusion
    rw [hkept, htame.removals _ rfl]
    rfl
  have hbundle : ∀ b, leftOfBundle faults b = none := by
    intro b
    unfold leftOfBundle
    have hdirs : b.dirs.entries.filterMap (fun e => (leftOfDir faults e.1 e.2).map fun dir =>
        (⟨e.1, dir⟩ : Sigma fun _ : Nat => RevisionDir)) = [] := by
      rw [List.filterMap_eq_nil_iff]
      intro e _
      rw [hdir]
      rfl
    rw [hdirs, htame.removals _ rfl, htame.removals _ rfl]
    rfl
  unfold removeBundle
  cases hlookup : s.bundles.lookup id with
  | none =>
    dsimp only
    rw [show s.bundles.erase id = s.bundles from
      AList.ext (List.kerase_of_notMem_keys (AList.lookup_eq_none.1 hlookup))]
  | some b =>
    dsimp only
    rw [hbundle]

/-- **A creation that fails is undone**. -/
theorem restored_of_leftNew (htame : Tame faults)
    (hclaim : s.claims.lookup (claimName env request.provider request.externalSourceId) = none)
    (hid : s.bundles.lookup draw.sourceId = none) (h : LeftNew env faults draw request s s') :
    Store.rollback s s' = s := by
  cases h with
  | unchanged => rfl
  | claim hleft written => exact absurd hleft htame.claim
  | cleaned path page s₁ hpath hpage hpartly =>
    have hclaims : (cleaned env faults draw request page s₁).claims = s.claims := by
      dsimp only [cleaned]
      rw [if_neg (by rw [htame.removals _ rfl]; exact Bool.noConfusion), hpartly.claims]
      exact erase_insert_of_lookup_none _ hclaim
    have hbundles : (cleaned env faults draw request page s₁).bundles = s.bundles := by
      have herase : s.bundles.erase draw.sourceId = s.bundles :=
        AList.ext (List.kerase_of_notMem_keys (AList.lookup_eq_none.1 hid))
      dsimp only [cleaned]
      rw [removeBundle_tame htame]
      dsimp only
      obtain hsame | ⟨manifest, dirs, hinsert, -⟩ := hpartly.bundles
      · rw [hsame]
        exact herase
      · rw [hinsert]
        exact erase_insert_of_lookup_none _ hid
    have hnotes : (cleaned env faults draw request page s₁).notes = s.notes := by
      have honly : PageOnly s.notes s₁.notes page := by
        obtain h | h | h := hpartly.notes
        · exact h
        · exact absurd h htame.page
        · exact absurd h htame.note
      cases page with
      | none => exact honly
      | some page =>
        obtain ⟨hfree, entry, hinsert⟩ := honly
        dsimp only [cleaned]
        rw [if_neg (by rw [htame.removals _ rfl]; exact Bool.noConfusion), hinsert]
        exact erase_insert_of_lookup_none _ hfree
    unfold Store.rollback
    rw [hclaims, hbundles, hnotes]

/-- An ingest whose commit alone fails: everything is down but the rows. -/
structure CommitFailed (env : Env) (faults : Faults) (draw : Draw) (request : Request) (s s' : Store) :
    Prop where
  fails : faults .commit = true
  size : request.payloadSize ≤ env.ingestMaxBytes
  created : ∃ r s₁, Created env draw request s r s₁ ∧
    ingest env noFault draw request s = .ok r s₁ ∧ s' = Store.rollback s s₁

theorem ingest_of_ingestNew {r : IngestResult} (hsize : request.payloadSize ≤ env.ingestMaxBytes)
    (hclaim : s.claims.lookup (claimName env request.provider request.externalSourceId) = none)
    (h : ingestNew env noFault draw request s = .ok r s') :
    ingest env noFault draw request s = .ok r s' := by
  have hwp : wp (ingest env noFault draw request) (fun r' t => r' = r ∧ t = s') (fun _ _ => False)
      s := by
    unfold ingest
    rw [wp_bind]
    apply pass_wp
    · simpa using hsize
    rw [wp_mapRaised, wp_transaction, wp_bind]
    apply quiet_wp
    rw [wp_bind]
    apply quiet_wp
    rw [wp_bind, wp_get, hclaim]
    dsimp only
    have hrun : wp (ingestNew env noFault draw request) (fun r' t => r' = r ∧ t = s')
        (fun _ _ => False) s := by
      unfold wp
      rw [h]
      exact ⟨rfl, rfl⟩
    refine wp_mono hrun (fun r' t hr => ?_) fun _ _ h => h
    exact quiet_wp hr
  obtain ⟨r', t, hrun, rfl, rfl⟩ := wp_returns hwp
  exact hrun

/-- **One attempt at a source that is not there**: it creates the source as it would have without
the faults, or it leaves the store as it was but for a commit that failed. -/
theorem attempt_wp (htame : Tame faults)
    (hclaim : s.claims.lookup (claimName env request.provider request.externalSourceId) = none)
    (hid : s.bundles.lookup draw.sourceId = none) :
    wp (ingest env faults draw request)
      (fun r s' => request.payloadSize ≤ env.ingestMaxBytes ∧ Created env draw request s r s' ∧
        ingest env noFault draw request s = .ok r s')
      (fun _ s' => s' = s ∨ CommitFailed env faults draw request s s') s := by
  unfold ingest
  rw [wp_bind]
  refine raiseIf_wp (fun hsize => ?_) fun _ => Or.inl rfl
  replace hsize : request.payloadSize ≤ env.ingestMaxBytes := by simpa using hsize
  rw [wp_mapRaised, wp_transaction, wp_bind]
  refine step_wp (fun _ => ?_) fun _ => Or.inl rfl
  rw [wp_bind]
  refine step_wp (fun _ => ?_) fun _ => Or.inl rfl
  rw [wp_bind, wp_get, hclaim]
  refine wp_mono (wp_and (ingestNew_wp hid) wp_run) ?_ ?_
  · rintro r s₁ ⟨hcreated, hrun⟩
    have hquiet := ingest_of_ingestNew hsize hclaim (calms_ingestNew.run _ _ _ hrun)
    exact step_wp (fun _ => ⟨hsize, hcreated, hquiet⟩) fun hfails =>
      Or.inr ⟨hfails, hsize, r, s₁, hcreated, hquiet, rfl⟩
  · rintro e s₁ ⟨hleft, -⟩
    exact Or.inl (restored_of_leftNew htame hclaim hid hleft)

end Restored

section Attempts

variable (env : Env) (request : Request)

/-- The attempts of a request, each under its own faults, up to the first that returns. -/
def attempts : List (Faults × Draw) → Store → Option (IngestResult × Store)
  | [], _ => none
  | (faults, draw) :: rest, s =>
    match ingest env faults draw request s with
    | .ok r s' => some (r, s')
    | .error _ s' => attempts rest s'

/-- Attempts under which nothing fails. -/
def quietly (draws : List Draw) : List (Faults × Draw) := draws.map fun draw => (noFault, draw)

/-- The YAML library loads what it dumps, where a request writes it. -/
def LoadsBack (draw : Draw) (s : Store) : Prop :=
  ∀ path page text pageData, Texts env draw request s path page text pageData →
    ReadsBack env draw request page text pageData

/-- Two stores that differ in the file's time in a note's row alone. -/
structure SameStore (s s' : Store) : Prop where
  claims : s'.claims = s.claims
  bundles : s'.bundles = s.bundles
  notes : s'.notes = s.notes
  sources : s'.db.sources = s.db.sources
  revisions : s'.db.revisions = s.db.revisions
  artifacts : s'.db.artifacts = s.db.artifacts
  links : s'.db.links = s.db.links
  rows : ∀ id, Option.Rel SameRow (s.db.notes.lookup id) (s'.db.notes.lookup id)

/-- Two answers that name the same things. -/
structure SameAnswer (r r' : IngestResult) : Prop where
  source : r'.sourceId = r.sourceId ∧ r'.revision = r.revision
  note : r'.noteId = r.noteId
  page : r'.projectionPath = r.projectionPath

/-- What a request adds to a store: one source with one revision, one note that cites it, and one
page that names the revision. -/
structure OneOfEach (s : Store) (r : IngestResult) (s' : Store) : Prop where
  source : ∃ manifest dirs revision, s.bundles.lookup r.sourceId = none ∧
    s'.bundles = s.bundles.insert r.sourceId ⟨some (.whole manifest), dirs⟩ ∧
    manifest.revisions = [revision] ∧ revision.revision = 1 ∧ r.revision = 1
  files : ∃ path note page, s.notes.lookup r.projectionPath = none ∧
    (s.notes.insert r.projectionPath page).lookup path = none ∧
    s'.notes = (s.notes.insert r.projectionPath page).insert path note
  note : ∃ noteId file, r.noteId = PyStr.ofText noteId ∧
    (s'.notes.entries.map fun e => (e.1, e.2)).filterMap (linkedFile env noFault r.sourceId noteId) =
      [file]
  page : (s'.text? r.projectionPath).bind (revisionOfText env r.sourceId) = some 1

/-- **Settled**: the store is the one a request without any failure would have left with one of
the draws, there is one of each, and the request once more changes nothing. -/
structure Settled (s : Store) (draws : List Draw) (r : IngestResult) (s' : Store) : Prop where
  like : ∃ draw ∈ draws, ∃ r₀ s₀, ingest env noFault draw request s = .ok r₀ s₀ ∧
    SameAnswer r₀ r ∧ SameStore s₀ s'
  one : OneOfEach env s r s'
  replays : ∀ again, ∃ r', ingest env noFault again request s' = .ok r' s' ∧ SameAnswer r r' ∧
    r'.sourceCreated = false ∧ r'.noteCreated = false

end Attempts

section Outcome

variable {env : Env} {request : Request} {draw : Draw} {s s' : Store} {r : IngestResult}

theorem completed_of_created (h : Created env draw request s r s') (hfresh : Fresh env draw s)
    (hreads : LoadsBack env request draw s) : ∃ path page text pageData,
      Completed env draw request s path page text pageData ∧
      s' = created env draw request path page text pageData s ∧ r = newResult draw path page := by
  obtain ⟨path, page, text, pageData, hpath, htexts, htakes, hfree, rfl, rfl⟩ := h.created
  exact ⟨path, page, text, pageData, ⟨hfresh, hpath, htexts, htakes, hfree, hreads _ _ _ _ htexts⟩,
    rfl, rfl⟩

section Stands

variable {path page : NotePath} {text pageData : Text}

theorem oneOfEach_stands (hs : Stands env draw request s path page text pageData s')
    (hc : Completed env draw request s path page text pageData) (hroles : RolesApart env.schema)
    (hr : SameAnswer (newResult draw path page) r) : OneOfEach env s r s' := by
  obtain ⟨⟨hsource, hrevision⟩, hnote, hpage⟩ := hr
  refine ⟨?_, ?_, ?_, ?_⟩
  · rw [hsource]
    refine ⟨newManifest env draw request page, (firstBundle request).dirs, _, hc.fresh.bundle, ?_, rfl,
      rfl, hrevision⟩
    rw [hs.bundles]
    exact AList.insert_insert ..
  · rw [hpage]
    refine ⟨path, .file (.utf8 text) draw.mtime, .file (.utf8 pageData) draw.mtime,
      hc.texts.page_free, hc.path_free, ?_⟩
    rw [hs.notes]
    rfl
  · rw [hsource]
    exact ⟨_, _, hnote, linkedFile_stands hs hc hroles⟩
  · rw [hsource, hpage]
    exact revision_of_page hs hc

theorem SameRow.refl (row : Row) : SameRow row row := ⟨rfl, fun _ _ => rfl⟩

theorem sameStore_repaired (hsame : Remirrors env draw request) :
    SameStore (created env draw request path page text pageData s)
      ((Store.rollback s (created env draw request path page text pageData s)).setDb
        (repairedDatabase env draw request path page text s.db)) := by
  refine ⟨rfl, rfl, rfl, rfl, rfl, rfl, rfl, ?_⟩
  intro id
  change Option.Rel SameRow ((s.db.notes.insert (PyStr.ofText draw.noteId) _).lookup id)
    ((s.db.notes.insert (PyStr.ofText draw.noteId) _).lookup id)
  by_cases hid : id = PyStr.ofText draw.noteId
  · subst hid
    rw [AList.lookup_insert, AList.lookup_insert]
    exact .some (sameRow_noteRow hsame)
  · rw [AList.lookup_insert_ne hid, AList.lookup_insert_ne hid]
    cases s.db.notes.lookup id with
    | none => exact .none
    | some row => exact .some (.refl row)

theorem SameStore.refl (s : Store) : SameStore s s := by
  refine ⟨rfl, rfl, rfl, rfl, rfl, rfl, rfl, ?_⟩
  intro id
  cases s.db.notes.lookup id with
  | none => exact .none
  | some row => exact .some (.refl row)

theorem SameAnswer.refl (r : IngestResult) : SameAnswer r r := ⟨⟨rfl, rfl⟩, rfl, rfl⟩

theorem Replayed.sameAnswer (h : Replayed draw page r) : SameAnswer (newResult draw path page) r :=
  ⟨h.source, h.note, h.page⟩

/-- What the requests after the source is settled answer. -/
theorem replays_stands (hsize : request.payloadSize ≤ env.ingestMaxBytes)
    (hs : Stands env draw request s path page text pageData s')
    (hc : Completed env draw request s path page text pageData)
    (hm : Mirrored env draw request path page s'.db)
    (hr : SameAnswer (newResult draw path page) r) (again : Draw) :
    ∃ r', ingest env noFault again request s' = .ok r' s' ∧ SameAnswer r r' ∧
      r'.sourceCreated = false ∧ r'.noteCreated = false := by
  obtain ⟨r', hrun, hreplayed⟩ := ingest_mirrored hsize hs hc hm
  refine ⟨r', hrun, ?_, hreplayed.sourceCreated, hreplayed.noteCreated⟩
  obtain ⟨⟨hsource, hrevision⟩, hnote, hpage⟩ := hr
  exact ⟨⟨hreplayed.source.1.trans hsource.symm, hreplayed.source.2.trans hrevision.symm⟩,
    hreplayed.note.trans hnote.symm, hreplayed.page.trans hpage.symm⟩

end Stands

/-- A request that creates its source settles it. -/
theorem settled_of_created {draws : List Draw} (hdraw : draw ∈ draws)
    (hsize : request.payloadSize ≤ env.ingestMaxBytes) (hcreated : Created env draw request s r s')
    (hrun : ingest env noFault draw request s = .ok r s') (hfresh : Fresh env draw s)
    (hreads : LoadsBack env request draw s) (hroles : RolesApart env.schema) :
    Settled env request s draws r s' := by
  obtain ⟨path, page, text, pageData, hc, rfl, rfl⟩ := completed_of_created hcreated hfresh hreads
  have hs : Stands env draw request s path page text pageData
      (created env draw request path page text pageData s) := ⟨rfl, rfl, rfl⟩
  have hm : Mirrored env draw request path page
      (created env draw request path page text pageData s).db := mirrored_new s.db
  exact ⟨⟨draw, hdraw, _, _, hrun, .refl _, .refl _⟩, oneOfEach_stands hs hc hroles (.refl _),
    replays_stands hsize hs hc hm (.refl _)⟩

/-- A request after one whose commit failed settles its source. -/
theorem settled_of_commitFailed {faults : Faults} {draws : List Draw} (hdraw : draw ∈ draws)
    (h : CommitFailed env faults draw request s s') (hfresh : Fresh env draw s)
    (hreads : LoadsBack env request draw s) (hroles : RolesApart env.schema)
    (hiso : ∀ d, jsonAdmits (strValue (env.lib.py.isoformat (.timestamp d))) = true)
    (hsame : Remirrors env draw request) (again : Draw) :
    ∃ r u, ingest env noFault again request s' = .ok r u ∧ Settled env request s draws r u := by
  obtain ⟨r₀, s₁, hcreated, hrun, rfl⟩ := h.created
  obtain ⟨path, page, text, pageData, hc, rfl, rfl⟩ := completed_of_created hcreated hfresh hreads
  have hs : Stands env draw request s path page text pageData
      (Store.rollback s (created env draw request path page text pageData s)) := ⟨rfl, rfl, rfl⟩
  have hdb : (Store.rollback s (created env draw request path page text pageData s)).db = s.db := rfl
  obtain ⟨r, hrepaired, hreplayed⟩ :=
    @ingest_lost env draw again request s _ path page text pageData h.size hs hc hroles hiso hdb
  have hanswer : SameAnswer (newResult draw path page) r := hreplayed.sameAnswer
  have hu : Stands env draw request s path page text pageData
      ((Store.rollback s (created env draw request path page text pageData s)).setDb
        (repairedDatabase env draw request path page text s.db)) := ⟨rfl, rfl, rfl⟩
  have hm : Mirrored env draw request path page
      (repairedDatabase env draw request path page text s.db) := mirrored_repaired s.db
  refine ⟨r, _, hrepaired, ?_⟩
  constructor
  · exact ⟨draw, hdraw, _, _, hrun, hanswer, sameStore_repaired hsame⟩
  · exact oneOfEach_stands hu hc hroles hanswer
  · exact replays_stands h.size hu hc hm hanswer

end Outcome

section Runs

variable {env : Env} {request : Request} {s : Store}

/-- Where every attempt of a list creates the source or leaves the store alone, the first that
creates it is the answer. -/
theorem attempts_quietly (hclaim : s.claims.lookup
      (claimName env request.provider request.externalSourceId) = none)
    (draws : List Draw) (hfresh : ∀ draw ∈ draws, Fresh env draw s) (rest : List (Faults × Draw)) :
    (∃ draw ∈ draws, ∃ r s', attempts env request (quietly draws ++ rest) s = some (r, s') ∧
        request.payloadSize ≤ env.ingestMaxBytes ∧ Created env draw request s r s' ∧
        ingest env noFault draw request s = .ok r s') ∨
      attempts env request (quietly draws ++ rest) s = attempts env request rest s ∧
        ∀ draw ∈ draws, ∀ r s', ingest env noFault draw request s ≠ .ok r s' := by
  induction draws with
  | nil => exact Or.inr ⟨rfl, fun _ h => by cases h⟩
  | cons draw draws ih =>
    have hattempt := attempt_wp tame_noFault hclaim (hfresh draw List.mem_cons_self).bundle
    change (∃ d ∈ draw :: draws, ∃ r s', attempts env request
      ((noFault, draw) :: (quietly draws ++ rest)) s = _ ∧ _) ∨
        attempts env request ((noFault, draw) :: (quietly draws ++ rest)) s = _ ∧ _
    rw [attempts]
    cases hrun : ingest env noFault draw request s with
    | ok r s' =>
      obtain ⟨hsize, hcreated, hsame⟩ := wp_ok hattempt hrun
      exact Or.inl ⟨draw, List.mem_cons_self, r, s', rfl, hsize, hcreated, hsame⟩
    | error e s' =>
      dsimp only
      obtain rfl | hcommit := wp_error hattempt hrun
      · obtain ⟨d, hd, hcreated⟩ | ⟨hrest, hraise⟩ :=
          ih fun d hd => hfresh d (List.mem_cons_of_mem _ hd)
        · exact Or.inl ⟨d, List.mem_cons_of_mem _ hd, hcreated⟩
        · refine Or.inr ⟨hrest, fun d hd r t => ?_⟩
          obtain rfl | hd := List.mem_cons.1 hd
          · rw [hrun]
            exact fun h => by cases h
          · exact hraise d hd r t
      · exact Bool.noConfusion hcommit.fails

/-- **Retrying an ingest**: a request is repeated for an external identifier that has no source,
and one step of one attempt fails that is no removal in a clean-up and, where it is the commit,
the note mirrors the same when it is read back.  Whenever an attempt returns the request is
settled, and one returns if one of those after the failure would have returned by itself. -/
theorem ingest_retried (env : Env) (request : Request) (s : Store)
    (hclaim : s.claims.lookup (claimName env request.provider request.externalSourceId) = none)
    (hroles : RolesApart env.schema)
    (hiso : ∀ d, jsonAdmits (strValue (env.lib.py.isoformat (.timestamp d))) = true)
    (before : List Draw) (site : Site) (hsite : InCleanUp site = false) (draw : Draw)
    (hsame : site = .commit → Remirrors env draw request) (later : List Draw)
    (hfresh : ∀ d ∈ before ++ draw :: later, Fresh env d s)
    (hreads : ∀ d ∈ before ++ draw :: later, LoadsBack env request d s) :
    (∀ r s', attempts env request (quietly before ++ (single site, draw) :: quietly later) s =
        some (r, s') → Settled env request s (before ++ draw :: later) r s') ∧
      ((∃ d ∈ later, ∃ r s', ingest env noFault d request s = .ok r s') →
        (attempts env request (quietly before ++ (single site, draw) :: quietly later) s).isSome) := by
  have hsettle : ∀ d ∈ before ++ draw :: later, ∀ r s', request.payloadSize ≤ env.ingestMaxBytes →
      Created env d request s r s' → ingest env noFault d request s = .ok r s' →
      Settled env request s (before ++ draw :: later) r s' := by
    intro d hd r s' hsize hcreated hrun
    exact settled_of_created hd hsize hcreated hrun (hfresh d hd) (hreads d hd) hroles
  have hdraw : draw ∈ before ++ draw :: later := List.mem_append_right _ List.mem_cons_self
  have hmem : ∀ d ∈ before, d ∈ before ++ draw :: later := fun d hd => List.mem_append_left _ hd
  have hmem' : ∀ d ∈ later, d ∈ before ++ draw :: later :=
    fun d hd => List.mem_append_right _ (List.mem_cons_of_mem _ hd)
  have hdone : ∀ {o : Option (IngestResult × Store)} {r : IngestResult} {s' : Store},
      o = some (r, s') → Settled env request s (before ++ draw :: later) r s' →
      (∀ r s', o = some (r, s') → Settled env request s (before ++ draw :: later) r s') ∧
        ((∃ d ∈ later, ∃ r s', ingest env noFault d request s = .ok r s') → o.isSome) := by
    rintro o r s' rfl hsettled
    refine ⟨fun r' u h => ?_, fun _ => rfl⟩
    obtain ⟨rfl, rfl⟩ := Prod.mk.inj (Option.some.inj h)
    exact hsettled
  obtain ⟨d, hd, r, s', hattempts, hsize, hcreated, hrun⟩ | ⟨hattempts, -⟩ :=
    attempts_quietly hclaim before (fun d hd => hfresh d (hmem d hd))
      ((single site, draw) :: quietly later)
  · exact hdone hattempts (hsettle d (hmem d hd) r s' hsize hcreated hrun)
  rw [hattempts, attempts]
  have hattempt := attempt_wp (tame_single hsite) hclaim (hfresh draw hdraw).bundle
  cases hfaulty : ingest env (single site) draw request s with
  | ok r s' =>
    obtain ⟨hsize, hcreated, hrun⟩ := wp_ok hattempt hfaulty
    exact hdone rfl (hsettle draw hdraw r s' hsize hcreated hrun)
  | error e s' =>
    dsimp only
    obtain rfl | hcommit := wp_error hattempt hfaulty
    · -- The store is as it was: the attempts after it start afresh.
      have hquiet := attempts_quietly hclaim later (fun d hd => hfresh d (hmem' d hd)) []
      rw [List.append_nil] at hquiet
      obtain ⟨d, hd, r, s', hlater, hsize, hcreated, hrun⟩ | ⟨hlater, hraise⟩ := hquiet
      · exact hdone hlater (hsettle d (hmem' d hd) r s' hsize hcreated hrun)
      · rw [hlater]
        refine ⟨fun r s' h => (by cases h), ?_⟩
        rintro ⟨d, hd, r, s', hrun⟩
        exact absurd hrun (hraise d hd r s')
    · -- The next attempt finds the source and puts its rows back.
      cases later with
      | nil =>
        refine ⟨fun r s' h => (by cases h), ?_⟩
        rintro ⟨d, hd, -⟩
        cases hd
      | cons again later =>
        obtain ⟨r, u, hrun, hsettled⟩ := settled_of_commitFailed hdraw hcommit (hfresh draw hdraw)
          (hreads draw hdraw) hroles hiso (hsame (single_eq_true.1 hcommit.fails).symm) again
        change (∀ r s', attempts env request ((noFault, again) :: quietly later) _ = _ → _) ∧
          (_ → (attempts env request ((noFault, again) :: quietly later) _).isSome)
        rw [attempts, hrun]
        exact hdone rfl hsettled

end Runs

section Samples

/-- The archive with notes of one type named by their day. -/
def datedSources : Env := { sampleSources with datedTypes := [PyStr.lit "meeting"] }

def datedRequest : Request :=
  { sampleRequest "T" with
    noteFrontmatter := [(.str "type".toList, .str "meeting".toList)]
    keys_str := by simp }

/-- A notes tree in which a directory stands where a note of the first day goes. -/
def directoryAtFirstDay : Store :=
  Store.empty.setNote ⟨"Review".toList, "2026-01-02 T.md".toList⟩ .directory

/-- The body behind the frontmatter of what was composed, where the entries read back. -/
def bodyBehind (yaml : Frontmatter.RoundTrip) (composed : Except Frontmatter.Raised Text)
    (entries : Frontmatter.Entries) : Option Text :=
  match composed with
  | .error _ => none
  | .ok text =>
    match Notes.parse yaml text with
    | .ok (loaded, body) => if Frontmatter.sameEntries loaded entries then some body else none
    | .error _ => none

theorem parse_of_bodyBehind {yaml : Frontmatter.RoundTrip}
    {composed : Except Frontmatter.Raised Text} {entries : Frontmatter.Entries} {text body : Text}
    (h : bodyBehind yaml composed entries = some body) (htext : composed = .ok text) :
    Notes.parse yaml text = .ok (entries, body) := by
  subst htext
  unfold bodyBehind at h
  dsimp only at h
  split at h
  · next loaded body' hparse =>
    split at h
    · next hsame =>
      cases h
      rw [hparse, Frontmatter.eq_of_sameEntries _ _ hsame]
    · cases h
  · cases h

theorem loadsBack_of_bodyBehind {env : Env} {request : Request} {draw : Draw} {s : Store}
    {page : NotePath}
    (hpage : newProjectionPath env s request.noteTitle (pageDay env draw request) = some page)
    (hnote : bodyBehind env.lib.yaml (noteText env draw request page)
      (writtenFrontmatter env draw request) = some (bodyWithLink request page))
    (hdata : (bodyBehind env.lib.yaml (pageText env draw.sourceId 1 request.noteTitle draw.now
      (describedArtifacts env request)) (pageFrontmatter env draw.sourceId 1 draw.now)).isSome = true) :
    LoadsBack env request draw s := by
  intro path page' text pageData htexts
  obtain rfl := Option.some.inj (htexts.page_eq.symm.trans hpage)
  obtain ⟨body, hbody⟩ := Option.isSome_iff_exists.1 hdata
  exact ⟨parse_of_bodyBehind hnote htexts.text_eq,
    body, parse_of_bodyBehind hbody htexts.pageData_eq⟩

theorem rolesApart_sample : RolesApart sampleSources.schema := by
  constructor <;> decide

theorem formatNoteTime_chars (d : Frontmatter.DateTime) :
    ∀ c ∈ Notes.formatNoteTime false d, c ≠ Char.ofNat 0 := by
  have hdigits : ∀ n : Nat, ∀ c ∈ (toString n).toList, c ≠ Char.ofNat 0 := by
    rintro n c hc rfl
    rw [Nat.toString_eq_repr, Nat.repr, String.toList_ofList] at hc
    exact absurd (Nat.isDigit_of_mem_toDigits (by decide) (by decide) hc) (by decide)
  have htwo : ∀ n : Nat, ∀ c ∈ (Notes.twoDigits n).toList, c ≠ Char.ofNat 0 := by
    intro n c hc
    unfold Notes.twoDigits at hc
    split at hc
    · rw [String.toList_append, List.mem_append] at hc
      obtain hc | hc := hc
      · obtain rfl : c = '0' := by simpa using hc
        decide
      · exact hdigits n c hc
    · exact hdigits n c hc
  intro c hc
  unfold Notes.formatNoteTime at hc
  simp only [String.toList_append, List.mem_append] at hc
  obtain (((((((((hc | hc) | hc) | hc) | hc) | hc) | hc) | hc) | hc) | hc) | hc := hc
  · exact hdigits _ _ hc
  all_goals first
    | exact htwo _ _ hc
    | (rintro rfl; simp at hc)

theorem jsonAdmits_ofText (t : Text) (h : ∀ c ∈ t, c ≠ Char.ofNat 0) :
    jsonAdmits (strValue (PyStr.ofText t)) = true := by
  rw [strValue_ofText, jsonAdmits, Notes.textAdmits, encodable_ofText, Bool.true_and,
    List.all_eq_true]
  intro point hpoint
  obtain ⟨c, hc, rfl⟩ := List.mem_map.1 hpoint
  apply decide_eq_true
  intro hzero
  apply h c hc
  rw [← hzero, Char.ofNat_toNat]

theorem isoformat_sample (d : Frontmatter.DateTime) :
    jsonAdmits (strValue (sampleSources.lib.py.isoformat (.timestamp d))) = true := by
  dsimp only [sampleSources]
  apply jsonAdmits_ofText
  intro c hc
  exact formatNoteTime_chars d c hc

theorem fresh_empty {env : Env} {draw : Draw} (hsource : Artifacts.isValidId draw.sourceId = true)
    (hnote : Artifacts.isValidId draw.noteId = true) {path : NotePath} :
    Fresh env draw (Store.empty.setNote path .directory) := by
  refine ⟨hsource, hnote, rfl, fun _ => rfl, rfl, fun _ => rfl, ?_⟩
  intro other text mtime h
  by_cases hother : other = path
  · subst hother
    rw [Store.setNote, AList.lookup_insert] at h
    cases h
  · rw [Store.setNote, AList.lookup_insert_ne hother] at h
    cases h

theorem fresh_samples {d : Draw} (hd : d = sampleDraw ∨ d = otherDraw) :
    Fresh datedSources d directoryAtFirstDay := by
  obtain rfl | rfl := hd
  · exact fresh_empty (by decide) (by decide)
  · exact fresh_empty (by decide) (by decide)

theorem loadsBack_samples {d : Draw} (hd : d = sampleDraw ∨ d = otherDraw) :
    LoadsBack datedSources datedRequest d directoryAtFirstDay := by
  obtain rfl | rfl := hd
  · have hpage : newProjectionPath datedSources directoryAtFirstDay datedRequest.noteTitle
        (pageDay datedSources sampleDraw datedRequest) =
          some ⟨"Sources/_Pending/2026/2026-01".toList, "2026-01-02 T.md".toList⟩ := by decide +kernel
    exact loadsBack_of_bodyBehind hpage (by decide +kernel) (by decide +kernel)
  · have hpage : newProjectionPath datedSources directoryAtFirstDay datedRequest.noteTitle
        (pageDay datedSources otherDraw datedRequest) =
          some ⟨"Sources/_Pending/2026/2026-01".toList, "2026-01-04 T.md".toList⟩ := by decide +kernel
    exact loadsBack_of_bodyBehind hpage (by decide +kernel) (by decide +kernel)

theorem remirrors_sample : Remirrors datedSources otherDraw datedRequest := by
  have htitle : Notes.normalizeTitle datedRequest.noteTitle = some datedRequest.noteTitle := by
    decide +kernel
  refine ⟨Notes.isTitle_of_normalizeTitle htitle, ?_, ?_⟩
  · exact Frontmatter.eq_of_sameEntries _ _ (by decide +kernel)
  · rfl

/-- A page that the clean-up of a failed attempt leaves stays beside the one of the source. -/
theorem leftover_page :
    ¬ ∀ (env : Env) (request : Request) (s : Store),
      s.claims.lookup (claimName env request.provider request.externalSourceId) = none →
      RolesApart env.schema →
      (∀ d, jsonAdmits (strValue (env.lib.py.isoformat (.timestamp d))) = true) →
      ∀ (before : List Draw) (site : Site) (draw : Draw) (later : List Draw),
      (∀ d ∈ before ++ draw :: later, Fresh env d s) →
      (∀ d ∈ before ++ draw :: later, LoadsBack env request d s) →
      ∀ r s', attempts env request (quietly before ++ (single site, draw) :: quietly later) s =
        some (r, s') → Settled env request s (before ++ draw :: later) r s' := by
  intro h
  have hsettled := h datedSources datedRequest directoryAtFirstDay rfl rolesApart_sample
    isoformat_sample [] .unlinkPage sampleDraw [otherDraw]
    (fun d hd => fresh_samples (List.mem_pair.1 hd)) fun d hd => loadsBack_samples (List.mem_pair.1 hd)
  have hrun : ((attempts datedSources datedRequest
      (quietly [] ++ (single .unlinkPage, sampleDraw) :: quietly [otherDraw]) directoryAtFirstDay).map
        fun x => x.2.notes.entries.length) = some 4 := by decide +kernel
  obtain ⟨⟨r, s'⟩, hattempts, hlength⟩ := Option.map_eq_some_iff.1 hrun
  obtain ⟨path, note, page, hfree, hfree', hnotes⟩ := (hsettled r s' hattempts).one.files
  dsimp only at hlength
  rw [hnotes, entries_insert_of_lookup_none _ hfree', entries_insert_of_lookup_none _ hfree,
    List.length_cons, List.length_cons] at hlength
  have hbefore : directoryAtFirstDay.notes.entries.length = 1 := by decide
  omega

/-- The commit of the first attempt fails, and the second puts the rows back. -/
theorem ingest_retried_commit :
    ∃ r s', attempts datedSources datedRequest
        (quietly [] ++ (single .commit, otherDraw) :: quietly [sampleDraw]) directoryAtFirstDay =
          some (r, s') ∧
      Settled datedSources datedRequest directoryAtFirstDay ([] ++ otherDraw :: [sampleDraw]) r s' := by
  have hsome : (attempts datedSources datedRequest
      (quietly [] ++ (single .commit, otherDraw) :: quietly [sampleDraw]) directoryAtFirstDay).isSome =
        true := by decide +kernel
  obtain ⟨⟨r, s'⟩, hattempts⟩ := Option.isSome_iff_exists.1 hsome
  refine ⟨r, s', hattempts, ?_⟩
  exact (ingest_retried datedSources datedRequest directoryAtFirstDay rfl rolesApart_sample
    isoformat_sample [] .commit rfl otherDraw (fun _ => remirrors_sample) [sampleDraw]
    (fun d hd => fresh_samples (List.mem_pair.1 hd).symm)
    (fun d hd => loadsBack_samples (List.mem_pair.1 hd).symm)).1 r s' hattempts

end Samples

end Coppermind.Sources
