import Coppermind.Lib.Run
import Coppermind.Sources.Outcome

/-!
# Sources are append-only and singular

Runs of ingests, each under its own faults and settings, over a notes tree and a mirror that may
change in between.  The archive keeps one claim and one source for an external identifier, and
every revision a manifest names keeps its bytes.  The one failure that breaks this is a clean-up
that takes the claim away while the manifest stays.
-/

namespace Coppermind.Sources

open Coppermind.Lib Coppermind.Lib.Text
open Coppermind.Artifacts (Bytes NotePath RevisionDir)

section Invariant

variable (env : Env)

/-- A claim file of an external identifier: it stands at its name, or it names it. -/
def ClaimOf (s : Store) (provider externalSourceId name : Text) : Prop :=
  (name = claimName env provider externalSourceId ∧ (s.claims.lookup name).isSome) ∨
    ∃ claim, s.claims.lookup name = some (.whole claim) ∧ claim.provider = provider ∧
      claim.externalSourceId = externalSourceId

/-- A revision's directory holds exactly the recorded names, with the recorded bytes. -/
structure HeldRevision (bundle : Bundle) (revision : Revision) : Prop where
  held : ∃ dir, bundle.dirs.lookup revision.revision = some dir ∧
    (∀ name, name ∈ dir ↔ name ∈ revision.artifacts.map (·.name)) ∧
    ∀ entry ∈ revision.artifacts, ∃ data, dir.lookup entry.name = some data ∧
      env.sha256 data = entry.sha256

/-- **Singular**: one claim and one source for each external identifier, revisions numbered
without a gap, and the bytes of each of them. -/
structure Singular (s : Store) : Prop where
  one_claim : ∀ provider externalSourceId name name',
    ClaimOf env s provider externalSourceId name → ClaimOf env s provider externalSourceId name' →
    name = name'
  one_source : ∀ id id' m m', s.manifest? id = some m → s.manifest? id' = some m' →
    m.provider = m'.provider → m.externalSourceId = m'.externalSourceId → id = id'
  numbered : ∀ id m, s.manifest? id = some m →
    m.revisions.map (·.revision) = List.range' 1 m.currentRevision
  held : ∀ id m, s.manifest? id = some m → ∀ revision ∈ m.revisions,
    HeldRevision env (s.bundle id) revision

/-- **Append-only**: every manifest keeps the revisions it records, in front of new ones. -/
def Extends (s s' : Store) : Prop :=
  ∀ id m, s.manifest? id = some m →
    ∃ m', s'.manifest? id = some m' ∧ m.revisions <+: m'.revisions

/-- What a manifest relies on: its claim names it, and its revisions are held. -/
structure Archived (s : Store) (id : SourceId) (manifest : Manifest) : Prop where
  id_eq : manifest.sourceId = id
  claimed : s.claims.lookup (claimName env manifest.provider manifest.externalSourceId) =
    some (.whole ⟨manifest.provider, manifest.externalSourceId, id⟩)
  numbered : manifest.revisions.map (·.revision) = List.range' 1 manifest.currentRevision
  held : ∀ revision ∈ manifest.revisions, HeldRevision env (s.bundle id) revision

/-- The invariant of a run: claims stand at their names, and every manifest is archived. -/
structure Sound (s : Store) : Prop where
  claims_placed : ∀ name claim, s.claims.lookup name = some (.whole claim) →
    name = claimName env claim.provider claim.externalSourceId
  archived : ∀ id m, s.manifest? id = some m → Archived env s id m

end Invariant

section Derived

variable {env : Env} {s s' s'' : Store}

theorem Sound.singular (hs : Sound env s) : Singular env s := by
  have hname : ∀ provider externalSourceId name, ClaimOf env s provider externalSourceId name →
      name = claimName env provider externalSourceId := by
    intro provider externalSourceId name h
    obtain ⟨rfl, -⟩ | ⟨claim, hclaim, rfl, rfl⟩ := h
    · rfl
    · exact hs.claims_placed name claim hclaim
  refine ⟨?_, ?_, fun id m h => (hs.archived id m h).numbered, fun id m h => (hs.archived id m h).held⟩
  · intro provider externalSourceId name name' h h'
    exact (hname _ _ _ h).trans (hname _ _ _ h').symm
  · intro id id' m m' h h' hprovider hexternal
    have hclaim := (hs.archived id m h).claimed
    have hclaim' := (hs.archived id' m' h').claimed
    rw [hprovider, hexternal, hclaim', Option.some.injEq, Doc.whole.injEq, Claim.mk.injEq] at hclaim
    exact hclaim.2.2.symm

theorem Extends.refl (s : Store) : Extends s s := fun _ m h => ⟨m, h, List.prefix_rfl⟩

theorem Extends.trans (h : Extends s s') (h' : Extends s' s'') : Extends s s'' := by
  intro id m hm
  obtain ⟨m', hm', hbegins⟩ := h id m hm
  obtain ⟨m'', hm'', hbegins'⟩ := h' id m' hm'
  exact ⟨m'', hm'', hbegins.trans hbegins'⟩

theorem archive_eq_iff : archive s = archive s' ↔ s.claims = s'.claims ∧ s.bundles = s'.bundles :=
  Prod.mk.injEq .. |>.to_iff

theorem manifest?_of_archive (h : archive s' = archive s) : s'.manifest? = s.manifest? := by
  funext id
  rw [Store.manifest?, Store.manifest?, (archive_eq_iff.1 h).2]

theorem bundle_of_archive (h : archive s' = archive s) : s'.bundle = s.bundle := by
  funext id
  rw [Store.bundle, Store.bundle, (archive_eq_iff.1 h).2]

/-- The invariant speaks of the claims and the bundles alone. -/
theorem Sound.of_archive (hs : Sound env s) (h : archive s' = archive s) : Sound env s' := by
  refine ⟨?_, ?_⟩
  · rw [(archive_eq_iff.1 h).1]
    exact hs.claims_placed
  · intro id m hm
    rw [manifest?_of_archive h] at hm
    obtain ⟨hid, hclaimed, hnumbered, hheld⟩ := hs.archived id m hm
    refine ⟨hid, ?_, hnumbered, ?_⟩
    · rwa [(archive_eq_iff.1 h).1]
    · rwa [bundle_of_archive h]

theorem Extends.of_archive (h : archive s' = archive s) : Extends s s' := by
  intro id m hm
  exact ⟨m, by rwa [manifest?_of_archive h], List.prefix_rfl⟩

/-- What is archived stays so while its claim and its bundle stay. -/
theorem Archived.frame {id : SourceId} {m : Manifest} (h : Archived env s id m)
    (hclaim : ∀ name claim, s.claims.lookup name = some (.whole claim) →
      s'.claims.lookup name = some (.whole claim))
    (hbundle : s'.bundles.lookup id = s.bundles.lookup id) : Archived env s' id m := by
  refine ⟨h.id_eq, hclaim _ _ h.claimed, h.numbered, ?_⟩
  rw [Store.bundle, hbundle]
  exact h.held

/-- **One source changes**: the claims that can be read stay, so do the other bundles, and the
source is archived with the revisions it had. -/
theorem Sound.change (hs : Sound env s) (id : SourceId)
    (hplaced : ∀ name claim, s'.claims.lookup name = some (.whole claim) →
      name = claimName env claim.provider claim.externalSourceId)
    (hkept : ∀ name claim, s.claims.lookup name = some (.whole claim) →
      s'.claims.lookup name = some (.whole claim))
    (hbundles : ∀ k, k ≠ id → s'.bundles.lookup k = s.bundles.lookup k)
    (hnew : ∀ m, s'.manifest? id = some m → Archived env s' id m)
    (hextends : ∀ m, s.manifest? id = some m →
      ∃ m', s'.manifest? id = some m' ∧ m.revisions <+: m'.revisions) :
    Sound env s' ∧ Extends s s' := by
  have hmanifest : ∀ k, k ≠ id → s'.manifest? k = s.manifest? k := by
    intro k hk
    rw [Store.manifest?, Store.manifest?, hbundles k hk]
  refine ⟨⟨hplaced, ?_⟩, ?_⟩
  · intro k m hm
    by_cases hk : k = id
    · subst hk
      exact hnew m hm
    · rw [hmanifest k hk] at hm
      exact (hs.archived k m hm).frame hkept (hbundles k hk)
  · intro k m hm
    by_cases hk : k = id
    · subst hk
      exact hextends m hm
    · exact ⟨m, by rwa [hmanifest k hk], List.prefix_rfl⟩

end Derived

section Held

variable {env : Env} {request : Request}

/-- A revision made from a request is held by the directory filled from it. -/
theorem heldRevision_of_request {bundle : Bundle} {draw : Draw} {number : Nat}
    (h : bundle.dirs.lookup number = some (filledDir request.artifacts ∅)) :
    HeldRevision env bundle (revisionDocument env draw request number) := by
  refine ⟨_, h, fun name => ?_, fun entry hentry => ?_⟩
  · rw [mem_filledDir]
    simp [revisionDocument, entriesOf, artifactEntry, AList.notMem_empty]
  · obtain ⟨artifact, hartifact, rfl⟩ := List.mem_map.1 hentry
    exact ⟨_, lookup_filledDir request.names_nodup ∅ hartifact, rfl⟩

/-- A held revision needs its own directory alone. -/
theorem HeldRevision.frame {bundle bundle' : Bundle} {revision : Revision}
    (h : HeldRevision env bundle revision)
    (hdir : bundle'.dirs.lookup revision.revision = bundle.dirs.lookup revision.revision) :
    HeldRevision env bundle' revision := by
  obtain ⟨dir, hlookup, hrest⟩ := h.held
  exact ⟨dir, by rwa [hdir], hrest⟩

end Held

section New

variable {env : Env} {faults : Faults} {draw : Draw} {request : Request} {s s' : Store}

/-- What is done to the claim's name and the source's bundle of a source that has neither. -/
theorem Sound.new (hs : Sound env s)
    (hclaim : s.claims.lookup (claimName env request.provider request.externalSourceId) = none)
    (hid : s.bundles.lookup draw.sourceId = none)
    (hclaims : ∀ name, name ≠ claimName env request.provider request.externalSourceId →
      s'.claims.lookup name = s.claims.lookup name)
    (hown : ∀ claim, s'.claims.lookup (claimName env request.provider request.externalSourceId) =
      some (.whole claim) → claim = claimOf draw request)
    (hbundles : ∀ k, k ≠ draw.sourceId → s'.bundles.lookup k = s.bundles.lookup k)
    (hnew : ∀ m, s'.manifest? draw.sourceId = some m → Archived env s' draw.sourceId m) :
    Sound env s' ∧ Extends s s' := by
  apply hs.change draw.sourceId _ _ hbundles hnew
  · intro m hm
    rw [Store.manifest?, hid] at hm
    cases hm
  · intro name claim hlookup
    by_cases hname : name = claimName env request.provider request.externalSourceId
    · subst hname
      obtain rfl := hown claim hlookup
      rfl
    · rw [hclaims name hname] at hlookup
      exact hs.claims_placed name claim hlookup
  · intro name claim hlookup
    rwa [hclaims name]
    rintro rfl
    rw [hclaim] at hlookup
    cases hlookup

theorem archived_created {path page : NotePath} {text pageData : Text} :
    Archived env (created env draw request path page text pageData s) draw.sourceId
      (newManifest env draw request page) := by
  refine ⟨rfl, AList.lookup_insert _, rfl, ?_⟩
  intro revision hrevision
  obtain rfl := List.mem_singleton.1 hrevision
  apply heldRevision_of_request
  rw [show (created env draw request path page text pageData s).bundle draw.sourceId = _ from
    Store.bundle_eq (AList.lookup_insert _)]
  exact AList.lookup_insert _

theorem manifest?_created {path page : NotePath} {text pageData : Text} :
    (created env draw request path page text pageData s).manifest? draw.sourceId =
      some (newManifest env draw request page) := by
  rw [Store.manifest?, show (created env draw request path page text pageData s).bundles.lookup
    draw.sourceId = _ from AList.lookup_insert _]
  rfl

theorem sound_created (hs : Sound env s)
    (hclaim : s.claims.lookup (claimName env request.provider request.externalSourceId) = none)
    (hid : s.bundles.lookup draw.sourceId = none) {r : IngestResult}
    (h : Created env draw request s r s') : Sound env s' ∧ Extends s s' := by
  obtain ⟨path, page, text, pageData, -, -, -, -, rfl, -⟩ := h.created
  apply hs.new hclaim hid
  · intro name hname
    exact AList.lookup_insert_ne hname
  · intro claim hlookup
    rw [show (created env draw request path page text pageData s).claims.lookup _ = _ from
      AList.lookup_insert _] at hlookup
    simpa using hlookup.symm
  · intro k hk
    change ((s.bundles.insert _ _).insert _ _).lookup k = _
    rw [AList.lookup_insert_ne hk, AList.lookup_insert_ne hk]
  · intro m hm
    rw [manifest?_created] at hm
    obtain rfl := Option.some.inj hm
    exact archived_created

/-- The clean-up takes the claim away while the manifest stays: the source is being created, the
note cannot be, and the manifest cannot be removed. -/
structure Strands (env : Env) (faults : Faults) (draw : Draw) (request : Request) (s : Store) :
    Prop where
  unclaimed : s.claims.lookup (claimName env request.provider request.externalSourceId) = none
  stays : faults (.remove .manifest) = true
  past : ∃ path, notePath env draw request s = some path ∧ (LeftBehind faults .newManifest ∨
    CreationFails faults .note ((s.notes.lookup path).isSome ||
      newProjectionPath env s request.noteTitle (pageDay env draw request) == some path))

theorem Strands.of_failsPast {path : NotePath} {page : Option NotePath}
    (hclaim : s.claims.lookup (claimName env request.provider request.externalSourceId) = none)
    (hpath : notePath env draw request s = some path)
    (hpage : page.all fun page =>
      newProjectionPath env s request.noteTitle (pageDay env draw request) == some page)
    (hstays : faults (.remove .manifest) = true)
    (hpast : FailsPastManifest faults (claimed env draw request s) path page) :
    Strands env faults draw request s := by
  refine ⟨hclaim, hstays, path, hpath, ?_⟩
  refine hpast.imp id fun hfails => hfails.imp (fun htaken => ?_) id
  rw [Bool.or_eq_true] at htaken ⊢
  refine htaken.imp id fun hsame => ?_
  obtain rfl := beq_iff_eq.1 hsame
  simpa using hpage

/-- What `rmtree` leaves of a bundle that has no manifest, or whose manifest it can remove, has
none. -/
theorem manifest_leftOfBundle {bundle kept : Bundle}
    (h : bundle.manifest = none ∨ faults (.remove .manifest) = false)
    (hkept : leftOfBundle faults bundle = some kept) : kept.manifest = none := by
  have hnone : (if faults (.remove .manifest) then bundle.manifest else none) = none := by
    obtain h | h := h <;> simp [h]
  unfold leftOfBundle at hkept
  rw [hnone] at hkept
  obtain ⟨-, hkept⟩ := Option.ite_none_left_eq_some.1 hkept
  obtain rfl := Option.some.inj hkept
  rfl

theorem removeBundle_bundles_ne {id k : SourceId} (hk : k ≠ id) :
    (removeBundle faults id s).bundles.lookup k = s.bundles.lookup k := by
  unfold removeBundle
  cases s.bundles.lookup id with
  | none => rfl
  | some bundle =>
    dsimp only
    cases leftOfBundle faults bundle with
    | none => exact AList.lookup_erase_ne hk
    | some kept => exact AList.lookup_insert_ne hk

/-- The bundle of a source that failed has no manifest after the clean-up. -/
theorem manifest?_removeBundle {id : SourceId}
    (h : ∀ bundle, s.bundles.lookup id = some bundle →
      bundle.manifest = none ∨ faults (.remove .manifest) = false) :
    (removeBundle faults id s).manifest? id = none := by
  unfold removeBundle
  cases hbundle : s.bundles.lookup id with
  | none => rw [Store.manifest?, hbundle]; rfl
  | some bundle =>
    dsimp only
    cases hleft : leftOfBundle faults bundle with
    | none =>
      dsimp only [Store.manifest?]
      rw [AList.lookup_erase]
      rfl
    | some kept =>
      dsimp only [Store.manifest?, Store.setBundle]
      rw [AList.lookup_insert, Option.bind_some, manifest_leftOfBundle (h bundle hbundle) hleft]
      rfl

theorem sound_leftNew (hs : Sound env s)
    (hclaim : s.claims.lookup (claimName env request.provider request.externalSourceId) = none)
    (hid : s.bundles.lookup draw.sourceId = none)
    (hstrands : ¬ Strands env faults draw request s) (h : LeftNew env faults draw request s s') :
    Sound env s' ∧ Extends s s' := by
  have hunnamed : s.manifest? draw.sourceId = none := by
    rw [Store.manifest?, hid]
    rfl
  cases h with
  | unchanged => exact ⟨hs, .refl s⟩
  | claim hleft written =>
    apply hs.new hclaim hid
    · intro name hname
      exact AList.lookup_insert_ne hname
    · intro claim hlookup
      rw [Store.setClaim_claims, AList.lookup_insert] at hlookup
      cases written with
      | whole => simpa [Written.doc] using hlookup.symm
      | torn => simp [Written.doc] at hlookup
    · intro k hk
      rfl
    · intro m hm
      rw [Store.manifest?, Store.setClaim_bundles, ← Store.manifest?, hunnamed] at hm
      cases hm
  | cleaned path page s₁ hpath hpage hpartly =>
    have hclaims : s₁.claims = s.claims.insert
        (claimName env request.provider request.externalSourceId) (.whole (claimOf draw request)) :=
      hpartly.claims
    have hmanifest : (removeBundle faults draw.sourceId s₁).manifest? draw.sourceId = none := by
      apply manifest?_removeBundle
      intro bundle hbundle
      obtain hsame | ⟨manifest, dirs, hinsert, hpast⟩ := hpartly.bundles
      · rw [hsame] at hbundle
        exact absurd (hbundle.symm.trans hid) (by simp)
      · rw [hinsert, AList.lookup_insert] at hbundle
        obtain rfl := Option.some.inj hbundle
        refine hpast.imp id fun hpast => ?_
        rw [← Bool.not_eq_true]
        intro hstays
        exact hstrands (.of_failsPast hclaim hpath hpage hstays hpast)
    apply hs.new hclaim hid
    · intro name hname
      dsimp only [cleaned]
      split
      · rw [hclaims, AList.lookup_insert_ne hname]
      · rw [AList.lookup_erase_ne hname, hclaims, AList.lookup_insert_ne hname]
    · intro claim hlookup
      dsimp only [cleaned] at hlookup
      split at hlookup
      · rw [hclaims, AList.lookup_insert] at hlookup
        simpa using hlookup.symm
      · rw [AList.lookup_erase] at hlookup
        cases hlookup
    · intro k hk
      dsimp only [cleaned]
      rw [removeBundle_bundles_ne hk]
      obtain hsame | ⟨manifest, dirs, hinsert, -⟩ := hpartly.bundles
      · rw [hsame]
        rfl
      · rw [hinsert, AList.lookup_insert_ne hk]
        rfl
    · intro m hm
      exact absurd (hm.symm.trans hmanifest) (by simp)

end New

section Existing

variable {env : Env} {faults : Faults} {draw : Draw} {request : Request} {s s' : Store}

theorem Holds.manifest?_eq {manifest : Manifest} {bundle : Bundle} (h : Holds s manifest bundle) :
    s.manifest? manifest.sourceId = some manifest := by
  rw [Store.manifest?, h.lookup_eq, Option.bind_some, h.manifest_eq]
  rfl

theorem manifest?_setBundle {id : SourceId} {manifest : Manifest}
    {dirs : AList fun _ : Nat => RevisionDir} :
    (s.setBundle id ⟨some (.whole manifest), dirs⟩).manifest? id = some manifest := by
  rw [Store.manifest?, Store.setBundle_bundles, AList.lookup_insert]
  rfl

theorem Archived.le_current {id : SourceId} {m : Manifest} (h : Archived env s id m)
    {revision : Revision} (hrevision : revision ∈ m.revisions) :
    revision.revision ≤ m.currentRevision := by
  have hmem : revision.revision ∈ List.range' 1 m.currentRevision := by
    rw [← h.numbered]
    exact List.mem_map_of_mem hrevision
  rw [List.mem_range'_1] at hmem
  omega

theorem Archived.heldBy {m : Manifest} {bundle : Bundle} (h : Archived env s m.sourceId m)
    (holds : Holds s m bundle) {revision : Revision} (hrevision : revision ∈ m.revisions) :
    HeldRevision env bundle revision := by
  rw [← Store.bundle_eq holds.lookup_eq]
  exact h.held revision hrevision

/-- A source whose manifest is replaced by one that keeps its claim and its revisions. -/
theorem Sound.setManifest (hs : Sound env s) {m m' : Manifest} {bundle : Bundle}
    {dirs : AList fun _ : Nat => RevisionDir} (holds : Holds s m bundle)
    (hsource : m'.sourceId = m.sourceId ∧ m'.provider = m.provider ∧
      m'.externalSourceId = m.externalSourceId) (hbegins : m.revisions <+: m'.revisions)
    (hnumbered : m'.revisions.map (·.revision) = List.range' 1 m'.currentRevision)
    (hheld : ∀ revision ∈ m'.revisions, HeldRevision env ⟨some (.whole m'), dirs⟩ revision) :
    Sound env (s.setBundle m.sourceId ⟨some (.whole m'), dirs⟩) ∧
      Extends s (s.setBundle m.sourceId ⟨some (.whole m'), dirs⟩) := by
  have harchived := hs.archived _ _ holds.manifest?_eq
  apply hs.change m.sourceId
  · exact hs.claims_placed
  · intro _ _ h
    exact h
  · intro k hk
    exact AList.lookup_insert_ne hk
  · intro m₁ hm
    rw [manifest?_setBundle] at hm
    obtain rfl := Option.some.inj hm
    refine ⟨hsource.1, ?_, hnumbered, ?_⟩
    · rw [hsource.2.1, hsource.2.2]
      exact harchived.claimed
    · rwa [Store.bundle_setBundle]
  · intro m₁ hm
    rw [holds.manifest?_eq] at hm
    obtain rfl := Option.some.inj hm
    exact ⟨m', manifest?_setBundle, hbegins⟩

theorem sound_leftExisting (hs : Sound env s) (h : LeftExisting env draw request s s') :
    Sound env s' ∧ Extends s s' := by
  have hdone : ∀ s₁, archive s' = archive s₁ → Sound env s₁ ∧ Extends s s₁ →
      Sound env s' ∧ Extends s s' := by
    intro s₁ hsame hs₁
    exact ⟨hs₁.1.of_archive hsame, hs₁.2.trans (.of_archive hsame)⟩
  cases h with
  | unchanged hsame => exact hdone s hsame ⟨hs, .refl s⟩
  | moved m bundle page holds hsame =>
    have harchived := hs.archived _ _ holds.manifest?_eq
    apply hdone _ hsame
    apply hs.setManifest holds
    · exact ⟨rfl, rfl, rfl⟩
    · exact List.prefix_rfl
    · exact harchived.numbered
    · intro revision hrevision
      exact (harchived.heldBy holds hrevision).frame rfl
  | revised m bundle page holds hfree hsame =>
    have harchived := hs.archived _ _ holds.manifest?_eq
    apply hdone _ hsame
    apply hs.setManifest holds
    · exact ⟨rfl, rfl, rfl⟩
    · exact List.prefix_append _ _
    · simp only [revisedManifest, List.map_append, harchived.numbered, List.map_cons, List.map_nil]
      rw [List.range'_concat]
      simp [revisionDocument, Nat.add_comm]
    · intro revision hrevision
      obtain hold | hnew := List.mem_append.1 hrevision
      · apply (harchived.heldBy holds hold).frame
        have hle := harchived.le_current hold
        exact AList.lookup_insert_ne (by omega)
      · obtain rfl := List.mem_singleton.1 hnew
        exact heldRevision_of_request (AList.lookup_insert _)
  | discarded m bundle dirs holds hdirs hsame =>
    have harchived := hs.archived _ _ holds.manifest?_eq
    apply hdone _ hsame
    rw [show ({ bundle with dirs } : Bundle) = ⟨some (.whole m), dirs⟩ by rw [holds.manifest_eq]]
    apply hs.setManifest holds
    · exact ⟨rfl, rfl, rfl⟩
    · exact List.prefix_rfl
    · exact harchived.numbered
    · intro revision hrevision
      apply (harchived.heldBy holds hrevision).frame
      have hle := harchived.le_current hrevision
      exact hdirs _ (by omega)

end Existing

section Step

variable {env : Env} {faults : Faults} {draw : Draw} {request : Request} {s : Store}

/-- What an ingest leaves of the archive. -/
inductive Left (env : Env) (faults : Faults) (draw : Draw) (request : Request) (s s' : Store) : Prop
  | unchanged (h : archive s' = archive s)
  | created (r : IngestResult) (s₁ : Store)
      (hclaim : s.claims.lookup (claimName env request.provider request.externalSourceId) = none)
      (hcreated : Created env draw request s r s₁) (h : archive s' = archive s₁)
  | new (s₁ : Store)
      (hclaim : s.claims.lookup (claimName env request.provider request.externalSourceId) = none)
      (hleft : LeftNew env faults draw request s s₁) (h : archive s' = archive s₁)
  | existing (s₁ : Store) (hleft : LeftExisting env draw request s s₁)
      (h : archive s' = archive s₁)

/-- The transaction around an ingest rolls the mirror back, and nothing else. -/
theorem ingest_left (hid : s.bundles.lookup draw.sourceId = none) :
    Left env faults draw request s (finalState (ingest env faults draw request s)) := by
  apply wp_final
  unfold ingest
  rw [wp_bind]
  refine raiseIf_wp (fun _ => ?_) fun _ => .unchanged rfl
  rw [wp_mapRaised, wp_transaction, wp_bind]
  refine step_wp (fun _ => ?_) fun _ => .unchanged rfl
  rw [wp_bind]
  refine step_wp (fun _ => ?_) fun _ => .unchanged rfl
  rw [wp_bind, wp_get]
  cases hclaim : s.claims.lookup (claimName env request.provider request.externalSourceId) with
  | none =>
    refine wp_mono (ingestNew_wp hid) (fun r s₁ h => ?_) fun e s₁ h => .new s₁ hclaim h rfl
    exact step_wp (fun _ => .created r s₁ hclaim h rfl) fun _ => .created r s₁ hclaim h rfl
  | some claim =>
    refine wp_mono ingestExisting_wp (fun r s₁ h => ?_) fun e s₁ h => .existing s₁ h rfl
    exact step_wp (fun _ => .existing s₁ h rfl) fun _ => .existing s₁ h rfl

/-- **One ingest** keeps the archive sound and its revisions. -/
theorem sound_ingest (hs : Sound env s) (hid : s.bundles.lookup draw.sourceId = none)
    (hstrands : ¬ Strands env faults draw request s) :
    Sound env (finalState (ingest env faults draw request s)) ∧
      Extends s (finalState (ingest env faults draw request s)) := by
  have hdone : ∀ s₁ s', archive s' = archive s₁ → Sound env s₁ ∧ Extends s s₁ →
      Sound env s' ∧ Extends s s' := by
    intro s₁ s' hsame hs₁
    exact ⟨hs₁.1.of_archive hsame, hs₁.2.trans (.of_archive hsame)⟩
  cases ingest_left hid with
  | unchanged h => exact hdone s _ h ⟨hs, .refl s⟩
  | created r s₁ hclaim hcreated h => exact hdone s₁ _ h (sound_created hs hclaim hid hcreated)
  | new s₁ hclaim hleft h => exact hdone s₁ _ h (sound_leftNew hs hclaim hid hstrands hleft)
  | existing s₁ hleft h => exact hdone s₁ _ h (sound_leftExisting hs hleft)

end Step

section Runs

variable (env : Env)

/-- What happens to the store: a request, or a change of the notes tree and the mirror made
elsewhere. -/
inductive Event where
  | ingest (settings : Settings) (faults : Faults) (draw : Draw) (request : Request)
  | elsewhere (notes : AList fun _ : NotePath => Entry) (db : Database)

/-- The store after an event, whether a request returns or raises. -/
def after (s : Store) : Event → Store
  | .ingest settings faults draw request =>
    finalState (ingest { env with toSettings := settings } faults draw request s)
  | .elsewhere notes db => { s with notes, db }

/-- The store after a sequence of events. -/
def afterAll (s : Store) (events : List Event) : Store := events.foldl (after env) s

/-- A request draws an identifier that names no source yet. -/
def DrawsAnew (s : Store) : Event → Prop
  | .ingest _ _ draw _ => s.bundles.lookup draw.sourceId = none
  | .elsewhere _ _ => True

/-- The clean-up of a request strands a manifest. -/
def StrandsManifest (s : Store) : Event → Prop
  | .ingest settings faults draw request =>
    Strands { env with toSettings := settings } faults draw request s
  | .elsewhere _ _ => False

variable {env} {s : Store}

theorem sound_after (hs : Sound env s) {event : Event} (hdraws : DrawsAnew s event)
    (hstrands : ¬ StrandsManifest env s event) :
    Sound env (after env s event) ∧ Extends s (after env s event) := by
  cases event with
  | ingest settings faults draw request =>
    -- The invariant does not read the settings.
    have hs' : Sound { env with toSettings := settings } s := ⟨hs.claims_placed, fun id m h =>
      have h := hs.archived id m h
      ⟨h.id_eq, h.claimed, h.numbered, fun r hr => ⟨(h.held r hr).held⟩⟩⟩
    obtain ⟨h, hextends⟩ := sound_ingest hs' hdraws hstrands
    exact ⟨⟨h.claims_placed, fun id m hm =>
      have h := h.archived id m hm
      ⟨h.id_eq, h.claimed, h.numbered, fun r hr => ⟨(h.held r hr).held⟩⟩⟩, hextends⟩
  | elsewhere notes db => exact ⟨hs.of_archive rfl, .of_archive rfl⟩

theorem sound_afterAll (hs : Sound env s) {events : List Event}
    (hdraws : Along (after env) DrawsAnew s events)
    (hstrands : Along (after env) (fun s event => ¬ StrandsManifest env s event) s events) :
    Sound env (afterAll env s events) ∧ Extends s (afterAll env s events) := by
  induction events generalizing s with
  | nil => exact ⟨hs, .refl s⟩
  | cons event rest ih =>
    obtain ⟨h, hextends⟩ := sound_after hs hdraws.1 hstrands.1
    obtain ⟨h', hextends'⟩ := ih h hdraws.2 hstrands.2
    exact ⟨h', hextends.trans hextends'⟩

theorem sound_of_empty (hclaims : s.claims = ∅) (hbundles : s.bundles = ∅) : Sound env s := by
  refine ⟨?_, ?_⟩
  · intro name claim h
    rw [hclaims, AList.lookup_empty] at h
    cases h
  · intro id m h
    rw [Store.manifest?, hbundles, AList.lookup_empty] at h
    cases h

theorem along_append {next : Store → Event → Store} {P : Store → Event → Prop}
    {before rest : List Event} :
    Along next P s (before ++ rest) ↔
      Along next P s before ∧ Along next P (before.foldl next s) rest := by
  induction before generalizing s with
  | nil => simp [Along]
  | cons event before ih => simp [Along, ih, and_assoc]

/-- **Sources are append-only and singular**: in a run none of whose clean-ups strands a manifest,
after every event each external identifier has one claim and one source, revisions are numbered
without a gap and held with their bytes, and the events that follow keep what is recorded. -/
theorem sources_singular (env : Env) (s : Store) (hclaims : s.claims = ∅) (hbundles : s.bundles = ∅)
    (events : List Event) (hdraws : Along (after env) DrawsAnew s events)
    (hstrands : Along (after env) (fun s event => ¬ StrandsManifest env s event) s events)
    (before rest : List Event) (hevents : events = before ++ rest) :
    Singular env (afterAll env s before) ∧
      Extends (afterAll env s before) (afterAll env s events) := by
  subst hevents
  rw [along_append] at hdraws hstrands
  have hbefore := sound_afterAll (sound_of_empty hclaims hbundles) hdraws.1 hstrands.1
  rw [afterAll, afterAll, List.foldl_append]
  exact ⟨hbefore.1.singular, (sound_afterAll hbefore.1 hdraws.2 hstrands.2).2⟩

end Runs

section Samples

/-- A notes tree in which a directory stands where the note of a request titled `T` goes. -/
def directoryAtNote : Store :=
  Store.empty.setNote ⟨"Review".toList, "T.md".toList⟩ .directory

/-- A request whose clean-up cannot remove the manifest, and the same source once more. -/
def strandedRun : List Event :=
  [.ingest sampleSources.toSettings (single (.remove .manifest)) sampleDraw (sampleRequest "T"),
    .ingest sampleSources.toSettings noFault otherDraw (sampleRequest "U")]

/-- The external identifier ends up with two sources. -/
theorem stranded_manifest :
    ¬ ∀ (env : Env) (s : Store), s.claims = ∅ → s.bundles = ∅ → ∀ events : List Event,
      Along (after env) DrawsAnew s events → Singular env (afterAll env s events) := by
  intro h
  have hsingular := h sampleSources directoryAtNote rfl rfl strandedRun
    ⟨rfl, Option.isNone_iff_eq_none.1 (by decide +kernel), trivial⟩
  have hnamed : ∀ id : SourceId, id = sampleDraw.sourceId ∨ id = otherDraw.sourceId →
      ((afterAll sampleSources directoryAtNote strandedRun).manifest? id).map
        (fun m => (m.provider, m.externalSourceId)) = some ("mail".toList, "1".toList) := by
    intro id hid
    obtain rfl | rfl := hid <;> decide +kernel
  obtain ⟨m, hm, hkey⟩ := Option.map_eq_some_iff.1 (hnamed _ (Or.inl rfl))
  obtain ⟨m', hm', hkey'⟩ := Option.map_eq_some_iff.1 (hnamed _ (Or.inr rfl))
  have hsame := hkey.trans hkey'.symm
  rw [Prod.mk.injEq] at hsame
  exact absurd (hsingular.one_source _ _ m m' hm hm' hsame.1 hsame.2) (by decide)

/-- A request whose commit fails, and the request again. -/
def retriedRun : List Event :=
  [.ingest sampleSources.toSettings (single .commit) sampleDraw (sampleRequest "T"),
    .ingest sampleSources.toSettings noFault otherDraw (sampleRequest "T")]

theorem sources_singular_retried :
    Singular sampleSources (afterAll sampleSources .empty retriedRun) :=
  (sources_singular sampleSources .empty rfl rfl retriedRun
    ⟨rfl, Option.isNone_iff_eq_none.1 (by decide +kernel), trivial⟩
    ⟨fun h => absurd h.stays (by decide), fun h => absurd h.stays (by decide), trivial⟩
    retriedRun [] (List.append_nil _).symm).1

end Samples

end Coppermind.Sources
