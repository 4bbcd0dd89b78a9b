import Coppermind.Artifacts.Outcome

/-!
# What an operation does to the records and the mirror

A call that returns has upserted the row of the artifact it answers with, and no other; a
call that raises leaves the mirror as it was, because its transaction rolls back.  Records
stay under their own identifiers, and the mirror keeps rows of artifacts that are not
removed only.
-/

namespace Coppermind.Artifacts

open Coppermind.Lib

/-- The records and the mirror. -/
def Store.derived (s : Store) :
    (AList fun _ : Id => Record) × (AList fun _ : Id => Row) :=
  (s.records, s.rows)

theorem derived_notesBlind : NotesBlind Store.derived := ⟨fun _ _ _ => rfl, fun _ _ => rfl⟩

section ArchiveFrames

variable {γ : Type} {f : Store → γ} (env : Env) (fault : Fault) (draw : Draw)
  (hn : NotesBlind f) (ha : ∀ s id a, f (Store.setArchive s id a) = f s)

include ha

theorem makeRevisionDir_frame (id : Id) (number : Nat) :
    Frame f (makeRevisionDir fault id number) :=
  frame_bind (frame_raiseIf ..) fun _ => frame_bind frame_get fun _ =>
    frame_bind (frame_raiseIf ..) fun _ => frame_modify fun s => ha s ..

theorem createRevisionFile_frame (id : Id) (number : Nat) (filename : Text) (data : Bytes) :
    Frame f (createRevisionFile fault id number filename data) :=
  frame_bind (frame_raiseIf ..) fun _ => frame_bind frame_get fun _ =>
    frame_bind (frame_raiseIf ..) fun _ => frame_bind (frame_raiseIf ..) fun _ =>
      frame_modify fun s => ha s ..

theorem makeArchive_frame (id : Id) : Frame f (makeArchive fault id) :=
  frame_bind (frame_raiseIf ..) fun _ => frame_bind frame_get fun _ =>
    frame_bind (frame_raiseIf ..) fun _ => frame_modify fun s => ha s ..

theorem createManifest_frame (manifest : Manifest) : Frame f (createManifest fault manifest) :=
  frame_bind (frame_raiseIf ..) fun _ => frame_bind frame_get fun _ =>
    frame_bind (frame_raiseIf ..) fun _ => frame_bind (frame_raiseIf ..) fun _ =>
      frame_modify fun s => ha s ..

theorem replaceManifest_frame (manifest : Manifest) : Frame f (replaceManifest fault manifest) :=
  frame_bind (frame_raiseIf ..) fun _ => frame_bind (frame_raiseIf ..) fun _ =>
    frame_bind (frame_modify fun s => ha s ..) fun _ => frame_raiseIf ..

theorem makeFreshRevisionDir_frame (id : Id) (number : Nat) :
    Frame f (makeFreshRevisionDir fault id number) := by
  constructor
  intro s
  have h := (makeRevisionDir_frame fault ha id number).run s
  unfold wp at h ⊢
  unfold makeFreshRevisionDir
  cases hx : makeRevisionDir fault id number s with
  | ok a s' => simpa [hx] using h
  | error e s' =>
    have hs : f s' = f s := by simpa [hx] using h
    cases e <;> exact hs

include hn

theorem placeNew_frame (payload : Payload) (chosen : Option NotePath) :
    Frame f (placeNew env fault draw payload chosen) := by
  unfold placeNew
  split
  · exact frame_bind (makeRevisionDir_frame _ ha ..) fun _ =>
      frame_bind (createRevisionFile_frame _ ha ..) fun _ =>
        frame_bind (placeBrowse_frame _ _ _ hn ..) fun _ => frame_pure _
  · exact frame_bind (makeArchive_frame _ ha _) fun _ => frame_pure _

theorem placeRevision_frame (manifest : Manifest) (previous : Revision) (payload : Payload) :
    Frame f (placeRevision env fault draw manifest previous payload) := by
  cases payload with
  | file filename mimeType data =>
    refine frame_bind (makeFreshRevisionDir_frame _ ha ..) fun _ =>
      frame_onRaise ?_ fun s => ha s ..
    exact frame_bind (createRevisionFile_frame _ ha ..) fun _ =>
      frame_bind (bringBrowseCurrent_frame _ _ _ hn ..) fun _ =>
        frame_bind (replaceManifest_frame _ ha _) fun _ => frame_pure _
  | link url => exact frame_bind (replaceManifest_frame _ ha _) fun _ => frame_pure _

end ArchiveFrames

section Records

/-- Every record lies under its own identifier. -/
def RecordsKeyed (s : Store) : Prop :=
  ∀ id record, view s.records id = some record → record.id = id

theorem recordsKeyed_congr {s s' : Store} (h : s'.records = s.records) (hs : RecordsKeyed s) :
    RecordsKeyed s' := by
  intro id record hr
  exact hs id record (by rwa [h] at hr)

theorem recordsKeyed_setRecord {s : Store} (hs : RecordsKeyed s) (record : Record) :
    RecordsKeyed (s.setRecord record.id record) := by
  intro id r hr
  rw [Store.setRecord, view_insert] at hr
  by_cases hid : id = record.id
  · subst hid
    rw [Function.update_self] at hr
    rw [Option.some.inj hr]
  · rw [Function.update_of_ne hid] at hr
    exact hs id r hr

theorem recordsKeyed_erase {s s' : Store} {id : Id} (h : s'.records = s.records.erase id)
    (hs : RecordsKeyed s) : RecordsKeyed s' := by
  intro id' r hr
  rw [h, view_erase] at hr
  by_cases hid : id' = id
  · subst hid
    rw [Function.update_self] at hr
    cases hr
  · rw [Function.update_of_ne hid] at hr
    exact hs id' r hr

variable (env : Env) (fault : Fault) (draw : Draw)

theorem extractRecord_wp (manifest : Manifest) (now : Instant) (state : ArtifactState)
    (s : Store) :
    wp (extractRecord env manifest now state)
      (fun record s' => s' = s ∧ record.id = manifest.artifactId) (fun _ s' => s' = s) s := by
  simp only [extractRecord, wp_bind, currentRevision]
  cases manifest.current? with
  | none => exact rfl
  | some current => exact ⟨rfl, rfl⟩

theorem writeRecord_wp (record : Record) (s : Store) (hs : RecordsKeyed s) :
    wp (writeRecord fault record) (fun _ s' => RecordsKeyed s' ∧ s'.rows = s.rows)
      (fun _ s' => RecordsKeyed s' ∧ s'.rows = s.rows) s := by
  have hset := recordsKeyed_setRecord hs record
  simp only [writeRecord, step, wp_mapRaised, wp_bind, wp_raiseIf, wp_modify]
  split
  · exact ⟨hs, trivial⟩
  · split
    · exact ⟨hs, trivial⟩
    · split <;> exact ⟨hset, rfl⟩

theorem mirrorRecord_wp (record : Record) (s : Store) :
    wp (mirrorRecord fault record)
      (fun _ s' => s'.records = s.records ∧
        view s'.rows = Function.update (view s.rows) record.id (some record.row))
      (fun _ s' => s' = s) s := by
  simp only [mirrorRecord, step, wp_bind, wp_raiseIf, wp_modify]
  split
  · trivial
  · exact ⟨rfl, view_insert ..⟩

/-- The row of `id` was upserted, and no other. -/
def Upserted (s : Store) (id : Id) (s' : Store) : Prop :=
  ∃ row, view s'.rows = Function.update (view s.rows) id (some row)

theorem upserted_congr {s₁ s s' : Store} {id : Id} (h : s₁.rows = s.rows)
    (hs : Upserted s₁ id s') : Upserted s id s' := by
  obtain ⟨row, hrow⟩ := hs
  exact ⟨row, by rw [hrow, h]⟩

theorem landRecord_wp (manifest : Manifest) (s : Store) (hs : RecordsKeyed s) :
    wp (landRecord env fault draw manifest)
      (fun _ s' => RecordsKeyed s' ∧ Upserted s manifest.artifactId s')
      (fun _ s' => RecordsKeyed s') s := by
  simp only [landRecord, wp_bind]
  refine wp_mono (extractRecord_wp env manifest draw.now .ok s) ?_ (fun _ _ h => h ▸ hs)
  rintro record s₁ ⟨rfl, hid⟩
  refine wp_mono (writeRecord_wp fault record s₁ hs) ?_ (fun _ _ h => h.1)
  rintro _ s₂ ⟨hs₂, hrows⟩
  refine wp_mono (mirrorRecord_wp fault record s₂) ?_ (fun _ _ h => h ▸ hs₂)
  rintro _ s₃ ⟨hrecords, hup⟩
  exact ⟨recordsKeyed_congr hrecords hs₂, _, by rw [hup, hid, hrows]⟩

theorem keyed_of_derived {s s' : Store} (h : s'.derived = s.derived) (hs : RecordsKeyed s) :
    RecordsKeyed s' :=
  recordsKeyed_congr (congrArg Prod.fst h) hs

theorem choosePath_derived (details : Details) (payload : Payload) :
    Frame Store.derived (choosePath env fault details payload) := by
  cases payload with
  | file => exact frame_bind (listFolder_frame ..) fun _ => frame_pure _
  | link => exact frame_pure _

theorem createNew_mirrors (details : Details) (payload : Payload) (s : Store)
    (hs : RecordsKeyed s) :
    wp (createNew env fault draw details payload)
      (fun r s' => RecordsKeyed s' ∧ Upserted s r.id s') (fun _ s' => RecordsKeyed s') s := by
  simp only [createNew, wp_bind, wp_onRaise, wp_mapRaised, wp_pure]
  refine (choosePath_derived env fault details payload).wp ?_ (fun _ _ h => keyed_of_derived h hs)
  intro chosen s₁ h₁
  refine (placeNew_frame env fault draw derived_notesBlind (fun _ _ _ => rfl) payload chosen).wp
    ?_ (fun _ _ h => recordsKeyed_erase rfl (keyed_of_derived (h.trans h₁) hs))
  intro path s₂ h₂
  replace h₂ := h₂.trans h₁
  refine (createManifest_frame fault (f := Store.derived) (fun _ _ _ => rfl) _).wp ?_ ?_
  swap
  · intro _ s' h
    have hkeyed := keyed_of_derived (h.trans h₂) hs
    cases path <;> exact recordsKeyed_erase rfl hkeyed
  intro _ s₃ h₃
  replace h₃ := h₃.trans h₂
  refine wp_mono (landRecord_wp env fault draw _ s₃ (keyed_of_derived h₃ hs)) ?_ ?_
  · exact fun _ s₄ h₄ => ⟨h₄.1, upserted_congr (congrArg Prod.snd h₃) h₄.2⟩
  · intro _ s' hkeyed
    cases path <;> exact recordsKeyed_erase rfl hkeyed

theorem addRevision_mirrors (manifest : Manifest) (payload : Payload) (s : Store)
    (hs : RecordsKeyed s) :
    wp (addRevision env fault draw manifest payload)
      (fun r s' => RecordsKeyed s' ∧ Upserted s r.id s') (fun _ s' => RecordsKeyed s') s := by
  simp only [addRevision, wp_bind, wp_mapRaised, wp_pure]
  refine (currentRevision_frame (f := Store.derived) manifest).wp ?_
    (fun _ _ h => keyed_of_derived h hs)
  intro previous s₁ h₁
  refine (placeRevision_frame env fault draw derived_notesBlind (fun _ _ _ => rfl) manifest
    previous payload).wp ?_ (fun _ _ h => keyed_of_derived (h.trans h₁) hs)
  intro manifest' s₂ h₂
  replace h₂ := h₂.trans h₁
  refine wp_mono (landRecord_wp env fault draw manifest' s₂ (keyed_of_derived h₂ hs)) ?_
    (fun _ _ h => h)
  exact fun _ s₃ h₃ => ⟨h₃.1, upserted_congr (congrArg Prod.snd h₂) h₃.2⟩

theorem currentRecord_wp (manifest : Manifest) (record : Option Record) (s : Store)
    (hs : RecordsKeyed s) (hrecord : ∀ r, record = some r → r.id = manifest.artifactId) :
    wp (currentRecord env fault draw manifest record)
      (fun r s' => RecordsKeyed s' ∧ s'.rows = s.rows ∧ r.id = manifest.artifactId)
      (fun _ s' => RecordsKeyed s') s := by
  have fresh : wp (freshRecord env fault draw manifest)
      (fun r s' => RecordsKeyed s' ∧ s'.rows = s.rows ∧ r.id = manifest.artifactId)
      (fun _ s' => RecordsKeyed s') s := by
    simp only [freshRecord, wp_bind, wp_pure]
    refine wp_mono (extractRecord_wp env manifest draw.now .ok s) ?_ (fun _ _ h => h ▸ hs)
    rintro r s₁ ⟨rfl, hid⟩
    exact wp_mono (writeRecord_wp fault r s₁ hs) (fun _ _ h => ⟨h.1, h.2, hid⟩)
      (fun _ _ h => h.1)
  cases record with
  | none => exact fresh
  | some record =>
    simp only [currentRecord]
    split
    · exact ⟨hs, rfl, hrecord record rfl⟩
    · exact fresh

theorem replay_mirrors (manifest : Manifest) (s : Store) (hs : RecordsKeyed s) :
    wp (replay env fault draw manifest)
      (fun r s' => RecordsKeyed s' ∧ Upserted s r.id s') (fun _ s' => RecordsKeyed s') s := by
  simp only [replay, readRecord, step, wp_bind, wp_raiseIf, wp_get, wp_pure]
  split
  · exact hs
  refine wp_mono (currentRecord_wp env fault draw manifest _ s hs
    (fun r hr => hs _ r hr)) ?_ (fun _ _ h => h)
  rintro record s₁ ⟨hs₁, hrows, hid⟩
  refine wp_mono (mirrorRecord_wp fault record s₁) ?_ (fun _ _ h => h ▸ hs₁)
  rintro _ s₂ ⟨hrecords, hup⟩
  exact ⟨recordsKeyed_congr hrecords hs₁, _, by rw [hup, hid, hrows]⟩

/-- A call upserts the row of the artifact it answers with; one that raises leaves the mirror. -/
theorem storeRevision_mirrors (artifactId : Option Id) (details : Details) (payload : Payload)
    (s : Store) (hs : RecordsKeyed s) :
    wp (storeRevision env fault draw artifactId details payload)
      (fun r s' => RecordsKeyed s' ∧ Upserted s r.id s')
      (fun _ s' => RecordsKeyed s' ∧ s'.rows = s.rows) s := by
  have back : ∀ {s' : Store}, RecordsKeyed s' →
      RecordsKeyed (Store.rollback s s') ∧ (Store.rollback s s').rows = s.rows :=
    fun h => ⟨recordsKeyed_congr rfl h, rfl⟩
  have committed : ∀ {id : Id} {s' : Store}, RecordsKeyed s' ∧ Upserted s id s' →
      if decide (fault = some Site.commit) = true then
        RecordsKeyed (Store.rollback s s') ∧ (Store.rollback s s').rows = s.rows
      else RecordsKeyed s' ∧ Upserted s id s' := by
    intro id s' h
    split
    · exact back h.1
    · exact h
  simp only [storeRevision, step, wp_mapRaised, wp_transaction, wp_bind, wp_raiseIf]
  split
  · exact back hs
  refine wp_mono (findManifest_wp env fault artifactId payload s) ?_ (fun _ _ h => h ▸ back hs)
  rintro found s₁ ⟨rfl, -⟩
  cases found with
  | none =>
    exact wp_mono (createNew_mirrors env fault draw details payload s₁ hs)
      (fun _ _ h => committed h) (fun _ _ h => back h)
  | some manifest =>
    simp only [wp_bind, currentRevision]
    cases manifest.current? with
    | none => exact back hs
    | some current =>
      simp only [wp_pure]
      split
      · exact wp_mono (replay_mirrors env fault draw manifest s₁ hs)
          (fun _ _ h => committed h) (fun _ _ h => back h)
      · exact wp_mono (addRevision_mirrors env fault draw manifest payload s₁ hs)
          (fun _ _ h => committed h) (fun _ _ h => back h)

theorem createArtifact_mirrors (request : CreateArtifact) (s : Store) (hs : RecordsKeyed s) :
    wp (createArtifact env fault draw request)
      (fun r s' => RecordsKeyed s' ∧ Upserted s r.id s')
      (fun _ s' => RecordsKeyed s' ∧ s'.rows = s.rows) s := by
  simp only [createArtifact, wp_bind, wp_raiseIf]
  split
  · exact ⟨hs, trivial⟩
  · exact storeRevision_mirrors env fault draw _ _ _ s hs

end Records

/-- Records lie under their own identifiers, and the mirror keeps rows of artifacts whose
archive is not marked removed. -/
structure Mirrored (s : Store) : Prop where
  keyed : RecordsKeyed s
  live : ∀ id row, view s.rows id = some row →
    ∃ a manifest, s.held id = some a ∧ a.manifest = some manifest ∧ manifest.removedAt = none

theorem mirrored_empty : Mirrored Store.empty :=
  ⟨fun _ _ h => (by cases h), fun _ _ h => (by cases h)⟩

section Create

variable (env : Env) (fault : Fault) (draw : Draw)

theorem firstCreated_mem {rows : List (Id × Row)} {x : Id × Row}
    (h : firstCreated rows = some x) : x ∈ rows := by
  induction rows with
  | nil => cases h
  | cons y ys ih =>
    unfold firstCreated at h
    split at h
    · obtain rfl := Option.some.inj h
      exact List.mem_cons_self
    · next z hz =>
      split at h
      · obtain rfl := Option.some.inj h
        exact List.mem_cons_of_mem _ (ih hz)
      · obtain rfl := Option.some.inj h
        exact List.mem_cons_self

/-- A replay is found through a row of the payload's bytes and name, or of its link. -/
theorem findReplay_row {s : Store} {payload : Payload} {id : Id}
    (h : findReplay env s payload = some id) :
    ∃ row, view s.rows id = some row ∧ row.matches env payload = true := by
  obtain ⟨x, hx, rfl⟩ := Option.map_eq_some_iff.1 h
  obtain ⟨hmem, hmatches⟩ := List.mem_filter.1 (firstCreated_mem hx)
  obtain ⟨e, he, rfl⟩ := List.mem_map.1 hmem
  exact ⟨e.2, mem_entries_iff_view.1 he, hmatches⟩

/-- The artifact a request settles on is not marked removed. -/
theorem Targets.removedAt {s : Store} {artifactId : Option Id} {payload : Payload}
    {manifest : Manifest} {old : Archive} (hs : Mirrored s)
    (h : Targets env s artifactId payload manifest old) : manifest.removedAt = none := by
  cases artifactId with
  | some id => exact h.live rfl
  | none =>
    obtain ⟨row, hrow, -⟩ := findReplay_row env h.target_eq
    obtain ⟨a, m, ha, hm, hlive⟩ := hs.live _ _ hrow
    rw [h.held_eq] at ha
    obtain rfl := Option.some.inj ha
    rw [h.manifest_eq] at hm
    obtain rfl := Option.some.inj hm
    exact hlive

/-- The archive holds an artifact under the identifier, not marked removed. -/
def LiveAt (held : Id → Option Archive) (id : Id) : Prop :=
  ∃ a manifest, held id = some a ∧ a.manifest = some manifest ∧ manifest.removedAt = none

theorem liveAt_set {held : Id → Option Archive} {id id' : Id} {a : Archive} {m : Manifest}
    (hm : a.manifest = some m) (hlive : m.removedAt = none) (h : id' = id ∨ LiveAt held id') :
    LiveAt (Function.update held id (some a)) id' := by
  by_cases hid : id' = id
  · exact ⟨a, m, by rw [hid, Function.update_self], hm, hlive⟩
  · obtain ⟨b, n, hb⟩ := h.resolve_left hid
    exact ⟨b, n, by rwa [Function.update_of_ne hid]⟩

variable {env draw} in
theorem stored_live {s : Store} {artifactId : Option Id} {details : Details} {payload : Payload}
    {id : Id} {held : Id → Option Archive} (hs : Mirrored s)
    (h : Stored env draw s artifactId details payload id held) :
    LiveAt held id ∧ ∀ id', LiveAt s.held id' → LiveAt held id' := by
  cases h with
  | replayed manifest old current ht =>
    exact ⟨⟨old, manifest, ht.held_eq, ht.manifest_eq, ht.removedAt env hs⟩, fun _ h => h⟩
  | revised manifest old path ht =>
    have hlive : manifest.removedAt = none := ht.removedAt env hs
    exact ⟨liveAt_set rfl hlive (Or.inl rfl), fun _ h => liveAt_set rfl hlive (Or.inr h)⟩
  | created =>
    exact ⟨liveAt_set rfl rfl (Or.inl rfl), fun _ h => liveAt_set rfl rfl (Or.inr h)⟩

/-- An upload keeps the mirror in line with the archive, unless its own revision is torn. -/
theorem createArtifact_mirrored (request : CreateArtifact) (s : Store) (hs : Mirrored s)
    (hfresh : s.held draw.newId = none) (hfault : fault ≠ some (.manifest .syncing)) :
    wp (createArtifact env fault draw request) (fun _ s' => Mirrored s')
      (fun _ s' => Mirrored s') s := by
  refine wp_mono (wp_and (createArtifact_wp env fault draw request s)
    (createArtifact_mirrors env fault draw request s hs.keyed)) ?_ ?_
  · rintro r s' ⟨hstored, hkeyed, row, hrows⟩
    obtain ⟨hid, hlive⟩ := stored_live hs hstored
    refine ⟨hkeyed, fun id row' hrow => ?_⟩
    rw [hrows] at hrow
    by_cases h : id = r.id
    · exact h ▸ hid
    · rw [Function.update_of_ne h] at hrow
      exact hlive id (hs.live id row' hrow)
  · rintro _ s' ⟨hleft, hkeyed, hrows⟩
    refine ⟨hkeyed, fun id row hrow => ?_⟩
    rw [hrows] at hrow
    have hlive : LiveAt s.held id := hs.live id row hrow
    generalize s'.held = held at hleft
    cases hleft with
    | unchanged => exact hlive
    | discarded =>
      have hid : id ≠ draw.newId := by
        rintro rfl
        obtain ⟨a, m, ha, -⟩ := hlive
        rw [hfresh] at ha
        cases ha
      obtain ⟨a, m, ha⟩ := hlive
      exact ⟨a, m, by rwa [Function.update_of_ne hid]⟩
    | complete hstored => exact (stored_live hs hstored).2 id hlive
    | torn _ _ _ _ _ htears => exact absurd htears.1 hfault

end Create

section Remove

variable (env : Env) (draw : Draw)

/-- A removal that meets no fault takes the row with it. -/
theorem removeArtifact_mirrored (id : Id) (reason : Text) (s : Store) (hs : Mirrored s) :
    wp (removeArtifact env none draw id reason) (fun _ s' => Mirrored s')
      (fun _ s' => Mirrored s') s := by
  simp only [removeArtifact, wp_bind, wp_raiseIf]
  refine wp_mono (readManifest_wp none id s) ?_ (fun _ _ h => h ▸ hs)
  rintro manifest s₁ ⟨rfl, rfl, hm⟩
  split
  · exact hs
  simp only [retire, step, wp_mapRaised, wp_transaction, wp_bind, wp_raiseIf, wp_modify,
    currentRevision, replaceManifest]
  cases manifest.current? with
  | none => exact hs
  | some current =>
    simp only [wp_pure, reduceCtorEq, decide_false, Bool.false_eq_true, if_false]
    have hblind : NotesBlind (fun s : Store => (s.held, s.derived)) :=
      ⟨fun _ _ _ => rfl, fun _ _ => rfl⟩
    have same : ∀ {s' : Store}, (s'.held, s'.derived) = (s₁.held, s₁.derived) →
        s'.held = s₁.held ∧ s'.records = s₁.records ∧ s'.rows = s₁.rows := by
      intro s' h
      obtain ⟨h₁, h₂⟩ := Prod.mk.inj h
      exact ⟨h₁, (Prod.mk.inj h₂).1, (Prod.mk.inj h₂).2⟩
    refine (unlinkBrowse_frame env none hblind manifest current).wp ?_ ?_
    · intro _ s₂ h₂
      obtain ⟨hheld, hrecords, hrows⟩ := same h₂
      refine ⟨@recordsKeyed_erase s₁ _ manifest.artifactId ?_ hs.keyed, ?_⟩
      · show s₂.records.erase _ = _
        rw [hrecords]
      · intro id row hrow
        have hrow' : view (s₂.rows.erase manifest.artifactId) id = some row := hrow
        rw [view_erase, hrows] at hrow'
        by_cases hid : id = manifest.artifactId
        · rw [hid, Function.update_self] at hrow'
          cases hrow'
        · rw [Function.update_of_ne hid] at hrow'
          obtain ⟨a, m, ha⟩ := hs.live id row hrow'
          refine ⟨a, m, ?_⟩
          simpa [Function.update_of_ne hid, hheld] using ha
    · intro _ s' h
      obtain ⟨hheld, hrecords, -⟩ := same h
      refine ⟨recordsKeyed_congr hrecords hs.keyed, fun id row hrow => ?_⟩
      rw [Store.held_rollback, hheld]
      exact hs.live id row hrow

end Remove

section Recover

variable (env : Env) (draw : Draw)

theorem verifyRevisions_wp (id : Id) (revisions : List Revision) (s : Store) :
    wp (verifyRevisions env id revisions) (fun _ s' => s' = s) (fun _ s' => s' = s) s := by
  induction revisions with
  | nil => exact rfl
  | cons revision revisions ih =>
    simp only [verifyRevisions]
    split
    · simp only [wp_bind, wp_get]
      cases revisionBytes s id revision with
      | none => exact rfl
      | some data =>
        simp only [wp_bind, wp_raiseIf]
        split
        · trivial
        · exact ih
    · exact ih

/-- Only archives whose manifest names their own identifier pass the verification. -/
theorem verifyArchives_wp (manifests : List (Id × Manifest)) (s : Store) :
    wp (verifyArchives env manifests)
      (fun _ s' => s' = s ∧ ∀ e ∈ manifests, e.2.artifactId = e.1) (fun _ s' => s' = s) s := by
  induction manifests with
  | nil => exact ⟨rfl, fun _ h => (by cases h)⟩
  | cons e rest ih =>
    obtain ⟨id, manifest⟩ := e
    simp only [verifyArchives, wp_bind, wp_raiseIf]
    split
    · trivial
    split
    · trivial
    next hid =>
      refine wp_mono (verifyRevisions_wp env id manifest.revisions s) ?_ (fun _ _ h => h)
      rintro _ _ rfl
      refine wp_mono ih ?_ (fun _ _ h => h)
      rintro _ _ ⟨rfl, hrest⟩
      refine ⟨rfl, fun e he => ?_⟩
      rcases List.mem_cons.1 he with rfl | he
      · simpa using hid
      · exact hrest e he

theorem recoveredRecord_wp (manifest : Manifest) (record : Option Record)
    (state : ArtifactState) (s : Store) (hs : RecordsKeyed s)
    (hrecord : ∀ r, record = some r → r.id = manifest.artifactId) :
    wp (recoveredRecord env draw manifest record state)
      (fun r s' => RecordsKeyed s' ∧ s'.rows = s.rows ∧ s'.held = s.held ∧
        r.id = manifest.artifactId)
      (fun _ s' => s' = s) s := by
  have extracted : wp (recoveredRecord.extracted env draw manifest state)
      (fun r s' => RecordsKeyed s' ∧ s'.rows = s.rows ∧ s'.held = s.held ∧
        r.id = manifest.artifactId)
      (fun _ s' => s' = s) s := by
    simp only [recoveredRecord.extracted, wp_bind, wp_modify, wp_pure]
    refine wp_mono (extractRecord_wp env manifest draw.now state s) ?_ (fun _ _ h => h)
    rintro r s₁ ⟨rfl, hid⟩
    exact ⟨recordsKeyed_setRecord hs r, rfl, rfl, hid⟩
  cases record with
  | none => exact extracted
  | some record =>
    simp only [recoveredRecord]
    split
    · exact ⟨recordsKeyed_setRecord hs { record with state := state }, rfl, rfl,
        hrecord record rfl⟩
    · exact extracted

theorem mirrored_dropRow {s s' : Store} {id : Id} (hs : Mirrored s)
    (hrows : s'.rows = s.rows.erase id) (hheld : s'.held = s.held) (hkeyed : RecordsKeyed s') :
    Mirrored s' := by
  refine ⟨hkeyed, fun id' row hrow => ?_⟩
  rw [hrows, view_erase] at hrow
  by_cases hid : id' = id
  · rw [hid, Function.update_self] at hrow
    cases hrow
  · rw [Function.update_of_ne hid] at hrow
    rw [hheld]
    exact hs.live id' row hrow

/-- One archive is recovered. -/
theorem recoverOne_wp (manifest : Manifest) (s : Store) (hs : Mirrored s) {a : Archive}
    (ha : s.held manifest.artifactId = some a) (hm : a.manifest = some manifest) :
    wp (recoverOne env draw manifest) (fun _ s' => Mirrored s' ∧ s'.held = s.held)
      (fun _ s' => Mirrored s' ∧ s'.held = s.held) s := by
  simp only [recoverOne]
  split
  · exact ⟨mirrored_dropRow hs rfl rfl (recordsKeyed_erase rfl hs.keyed), rfl⟩
  next hlive =>
    simp only [wp_bind, wp_get, wp_modify]
    refine wp_mono (recoveredRecord_wp env draw manifest _ _ s hs.keyed
      (fun r hr => hs.keyed _ r hr)) ?_
      (fun _ _ h => ⟨h.symm ▸ hs, congrArg Store.held h⟩)
    rintro record s₁ ⟨hkeyed, hrows, hheld, hid⟩
    refine ⟨⟨recordsKeyed_congr rfl hkeyed, fun id row hrow => ?_⟩, hheld⟩
    have hrow' : view (s₁.rows.insert record.id record.row) id = some row := hrow
    rw [view_insert, hrows, hid] at hrow'
    rw [Store.held_setRow, hheld]
    by_cases h : id = manifest.artifactId
    · exact ⟨a, manifest, h ▸ ha, hm, by simpa using hlive⟩
    · rw [Function.update_of_ne h] at hrow'
      exact hs.live id row hrow'

theorem recoverEach_wp (manifests : List (Id × Manifest)) (s : Store) (hs : Mirrored s)
    (hheld : ∀ e ∈ manifests, ∃ a, s.held e.2.artifactId = some a ∧ a.manifest = some e.2) :
    wp (recoverEach env draw manifests) (fun _ s' => Mirrored s' ∧ s'.held = s.held)
      (fun _ s' => Mirrored s' ∧ s'.held = s.held) s := by
  induction manifests generalizing s with
  | nil => exact ⟨hs, rfl⟩
  | cons e rest ih =>
    obtain ⟨id, manifest⟩ := e
    obtain ⟨a, ha, hm⟩ := hheld _ List.mem_cons_self
    simp only [recoverEach, wp_bind]
    refine wp_mono (recoverOne_wp env draw manifest s hs ha hm) ?_ (fun _ _ h => h)
    rintro _ s₁ ⟨hs₁, h₁⟩
    rw [← h₁]
    refine ih s₁ hs₁ fun e he => ?_
    rw [h₁]
    exact hheld e (List.mem_cons_of_mem _ he)

theorem dropUnknownRows_mirrored (known : List Id) (s : Store) (hs : Mirrored s) :
    Mirrored (dropUnknownRows known s) ∧ (dropUnknownRows known s).held = s.held := by
  unfold dropUnknownRows
  generalize s.rows.keys.filter (· ∉ known) = ids
  induction ids generalizing s with
  | nil => exact ⟨hs, rfl⟩
  | cons id ids ih =>
    have hdrop : Mirrored (s.dropRow id) :=
      mirrored_dropRow hs rfl rfl (recordsKeyed_congr rfl hs.keyed)
    exact ih (s.dropRow id) hdrop

/-- A rebuild changes nothing in the archive. -/
theorem recoverArtifacts_wp (s : Store) (hs : Mirrored s) :
    wp (recoverArtifacts env draw) (fun _ s' => Mirrored s' ∧ s'.held = s.held)
      (fun _ s' => Mirrored s' ∧ s'.held = s.held) s := by
  simp only [recoverArtifacts, wp_bind, wp_get, wp_modify]
  refine wp_mono (verifyArchives_wp env _ s) ?_
    (fun _ _ h => ⟨h.symm ▸ hs, congrArg Store.held h⟩)
  rintro _ _ ⟨rfl, hids⟩
  refine wp_mono (recoverEach_wp env draw _ _ hs ?_) ?_ (fun _ _ h => h)
  · intro e he
    obtain ⟨entry, hentry, hmap⟩ := List.mem_filterMap.1 he
    obtain ⟨manifest, hm, rfl⟩ := Option.map_eq_some_iff.1 hmap
    have hid : manifest.artifactId = entry.1 := hids _ he
    exact ⟨entry.2, by rw [hid]; exact mem_entries_iff_view.1 hentry, hm⟩
  · rintro _ s₁ ⟨hs₁, h₁⟩
    obtain ⟨hdrop, hheld⟩ := dropUnknownRows_mirrored _ s₁ hs₁
    exact ⟨hdrop, hheld.trans h₁⟩

end Recover

end Coppermind.Artifacts
