import Coppermind.Artifacts.Write

/-!
# What an operation can do to the archive

One specification for each operation, over what the archive holds at each identifier: the
browsable copies, the records and the mirror are framed away.  A call of `storeRevision`
that returns was a replay, made an artifact or revised one; a call that raises left the
archive alone, took back a new artifact, or raised after the archive was complete.  The one
other way to raise is a directory fsync that fails behind the manifest of a new revision:
the manifest stays published and the revision's directory goes.
-/

namespace Coppermind.Artifacts

open Coppermind.Lib

/-- What the archive holds at each identifier. -/
def Store.held (s : Store) : Id → Option Archive :=
  view s.archives

theorem Store.archive_eq (s : Store) (id : Id) :
    s.archive id = (s.held id).getD Archive.empty := rfl

theorem Store.manifest?_eq (s : Store) (id : Id) :
    s.manifest? id = (s.held id).bind (·.manifest) := rfl

@[simp] theorem Store.held_setArchive (s : Store) (id : Id) (a : Archive) :
    (s.setArchive id a).held = Function.update s.held id (some a) :=
  view_insert ..

@[simp] theorem Store.held_setNote (s : Store) (path : NotePath) (e : Entry) :
    (s.setNote path e).held = s.held := rfl

@[simp] theorem Store.held_dropNote (s : Store) (path : NotePath) :
    (s.dropNote path).held = s.held := rfl

@[simp] theorem Store.held_setRecord (s : Store) (id : Id) (r : Record) :
    (s.setRecord id r).held = s.held := rfl

@[simp] theorem Store.held_dropRecord (s : Store) (id : Id) :
    (s.dropRecord id).held = s.held := rfl

@[simp] theorem Store.held_setRow (s : Store) (id : Id) (r : Row) :
    (s.setRow id r).held = s.held := rfl

@[simp] theorem Store.held_dropRow (s : Store) (id : Id) :
    (s.dropRow id).held = s.held := rfl

@[simp] theorem Store.held_rollback (s s' : Store) :
    (Store.rollback s s').held = s'.held := rfl

@[simp] theorem Store.held_dropArtifact (s : Store) (id : Id) :
    (s.dropArtifact id).held = Function.update s.held id none :=
  view_erase ..

/-- A part of the store that is not the notes filesystem. -/
structure NotesBlind {γ : Type} (f : Store → γ) : Prop where
  setNote : ∀ s path e, f (s.setNote path e) = f s
  dropNote : ∀ s path, f (s.dropNote path) = f s

theorem held_notesBlind : NotesBlind Store.held := ⟨fun _ _ _ => rfl, fun _ _ => rfl⟩

section Frames

variable {γ : Type} {f : Store → γ} (env : Env) (fault : Fault) (draw : Draw)

theorem listFolder_frame (folder : Text) : Frame f (listFolder fault folder) :=
  frame_bind (frame_raiseIf ..) fun _ => frame_bind frame_get fun _ => frame_pure _

theorem readRecord_frame (id : Id) : Frame f (readRecord fault id) :=
  frame_bind (frame_raiseIf ..) fun _ => frame_bind frame_get fun _ => frame_pure _

theorem currentRevision_frame (manifest : Manifest) : Frame f (currentRevision manifest) := by
  unfold currentRevision
  cases manifest.current? with
  | some r => exact frame_pure _
  | none => exact frame_throw _

theorem extractRecord_frame (manifest : Manifest) (now : Instant) (state : ArtifactState) :
    Frame f (extractRecord env manifest now state) :=
  frame_bind (currentRevision_frame _) fun _ => frame_bind frame_get fun _ => frame_pure _

section Notes

variable (hf : NotesBlind f)

include hf

theorem createNote_frame (site : ExclusiveStep → Site) (path : NotePath) (data : Bytes)
    (mtimeNs : Nat) : Frame f (createNote fault site path data mtimeNs) :=
  frame_bind (frame_raiseIf ..) fun _ => frame_bind frame_get fun _ =>
    frame_bind (frame_raiseIf ..) fun _ => frame_bind (frame_raiseIf ..) fun _ =>
      frame_modify fun s => hf.setNote s ..

theorem replaceNote_frame (site : AtomicStep → Site) (path : NotePath) (data : Bytes)
    (mtimeNs : Nat) : Frame f (replaceNote fault site path data mtimeNs) :=
  frame_bind (frame_raiseIf ..) fun _ => frame_bind (frame_raiseIf ..) fun _ =>
    frame_bind (frame_modify fun s => hf.setNote s ..) fun _ => frame_raiseIf ..

theorem placeBrowse_frame (path : NotePath) (filename : Text) (data : Bytes) :
    Frame f (placeBrowse env fault draw path filename data) := by
  constructor
  intro s
  have h := (createNote_frame fault hf .browseCopy path data draw.mtimeNs).run s
  have again : Frame f (do
      let taken ← listFolder fault path.folder
      let path : NotePath := ⟨path.folder, uniqueFilename env filename taken⟩
      createNote fault .browseCopyAgain path data draw.mtimeNs
      return path : Op NotePath) :=
    frame_bind (listFolder_frame ..) fun _ => frame_bind (createNote_frame _ hf ..) fun _ =>
      frame_pure _
  unfold wp at h ⊢
  unfold placeBrowse
  cases hx : createNote fault .browseCopy path data draw.mtimeNs s with
  | ok a s' => simpa [hx] using h
  | error e s' =>
    have hs : f s' = f s := by simpa [hx] using h
    cases e with
    | fileExists => exact again.wp (fun _ _ h => h.trans hs) (fun _ _ h => h.trans hs)
    | _ => exact hs

theorem bringBrowseCurrent_beside_frame (filename : Text) (data : Bytes) (folder : Text) :
    Frame f (bringBrowseCurrent.beside env fault draw filename data folder) :=
  frame_bind (listFolder_frame ..) fun _ =>
    frame_bind (frame_mapRaised (createNote_frame _ hf ..)) fun _ => frame_pure _

theorem bringBrowseCurrent_frame (manifest : Manifest) (previous : Revision) (filename : Text)
    (data : Bytes) :
    Frame f (bringBrowseCurrent env fault draw manifest previous filename data) := by
  unfold bringBrowseCurrent
  have beside := bringBrowseCurrent_beside_frame env fault draw hf filename data
  refine frame_bind frame_get fun s => ?_
  split
  · refine frame_bind (frame_raiseIf ..) fun _ => frame_ite ?_ (beside _)
    exact frame_bind (replaceNote_frame _ hf ..) fun _ => frame_pure _
  · exact frame_bind (frame_mapRaised (createNote_frame _ hf ..)) fun _ => frame_pure _
  · exact beside _

theorem unlinkBrowse_frame (manifest : Manifest) (current : Revision) :
    Frame f (unlinkBrowse env fault manifest current) := by
  unfold unlinkBrowse
  refine frame_bind frame_get fun s => ?_
  split
  · refine frame_mapRaised <| frame_bind (frame_raiseIf ..) fun _ => frame_ite ?_ (frame_pure _)
    exact frame_bind (frame_raiseIf ..) fun _ =>
      frame_bind (frame_modify fun s => hf.dropNote s ..) fun _ => frame_raiseIf ..
  · exact frame_pure _

end Notes

section Records

variable (hr : ∀ s id r, f (Store.setRecord s id r) = f s)

include hr

theorem writeRecord_frame (record : Record) : Frame f (writeRecord fault record) :=
  frame_mapRaised <| frame_bind (frame_raiseIf ..) fun _ => frame_bind (frame_raiseIf ..) fun _ =>
    frame_bind (frame_modify fun s => hr s ..) fun _ => frame_raiseIf ..

theorem freshRecord_frame (manifest : Manifest) :
    Frame f (freshRecord env fault draw manifest) :=
  frame_bind (extractRecord_frame ..) fun _ => frame_bind (writeRecord_frame _ hr _) fun _ =>
    frame_pure _

theorem currentRecord_frame (manifest : Manifest) (record : Option Record) :
    Frame f (currentRecord env fault draw manifest record) := by
  cases record with
  | none => exact freshRecord_frame _ _ _ hr _
  | some record => exact frame_ite (frame_pure _) (freshRecord_frame _ _ _ hr _)

end Records

theorem mirrorRecord_frame (hm : ∀ s id r, f (Store.setRow s id r) = f s) (record : Record) :
    Frame f (mirrorRecord fault record) :=
  frame_bind (frame_raiseIf ..) fun _ => frame_modify fun s => hm s ..

end Frames

section HeldFrames

variable (env : Env) (fault : Fault) (draw : Draw)

theorem writeRecord_held (record : Record) : Frame Store.held (writeRecord fault record) :=
  writeRecord_frame fault (fun _ _ _ => rfl) record

theorem mirrorRecord_held (record : Record) : Frame Store.held (mirrorRecord fault record) :=
  mirrorRecord_frame fault (fun _ _ _ => rfl) record

theorem landRecord_held (manifest : Manifest) :
    Frame Store.held (landRecord env fault draw manifest) :=
  frame_bind (extractRecord_frame ..) fun _ => frame_bind (writeRecord_held ..) fun _ =>
    mirrorRecord_held ..

theorem replay_held (manifest : Manifest) : Frame Store.held (replay env fault draw manifest) :=
  frame_bind (readRecord_frame ..) fun _ =>
    frame_bind (currentRecord_frame _ _ _ (fun _ _ _ => rfl) ..) fun _ =>
      frame_bind (mirrorRecord_held ..) fun _ => frame_pure _

end HeldFrames

section Create

variable (env : Env) (fault : Fault) (draw : Draw)

/-- The revision directories with those of the payload's revision added. -/
def Payload.addDir (payload : Payload) (number : Nat) (dirs : AList fun _ : Nat => RevisionDir) :
    AList fun _ : Nat => RevisionDir :=
  match payload with
  | .file filename _ data => dirs.insert number ((∅ : RevisionDir).insert filename data)
  | .link _ => dirs

/-- The archive of a new artifact, in a directory that held no manifest. -/
def newArchive (old : Archive) (details : Details) (payload : Payload) (path : Option NotePath) :
    Archive where
  manifest := some (newManifest env draw details payload path)
  dirs := payload.addDir 1 old.dirs

theorem makeRevisionDir_wp (id : Id) (number : Nat) (s : Store) :
    wp (makeRevisionDir fault id number)
      (fun _ s' => (s.archive id).dirs.lookup number = none ∧ s'.held = Function.update s.held id
        (some { s.archive id with dirs := (s.archive id).dirs.insert number ∅ }))
      (fun _ s' => s'.held = s.held) s := by
  simp only [makeRevisionDir, step, wp_bind, wp_raiseIf, wp_get, wp_modify,
    Store.held_setArchive]
  split
  · trivial
  · split
    · trivial
    · next h => exact ⟨by simpa using h, trivial⟩

theorem createRevisionFile_wp (id : Id) (number : Nat) (filename : Text) (data : Bytes)
    (s : Store) (dirs : AList fun _ : Nat => RevisionDir)
    (hs : (s.archive id).dirs = dirs.insert number ∅) :
    wp (createRevisionFile fault id number filename data)
      (fun _ s' => s'.held = Function.update s.held id (some { s.archive id with
        dirs := dirs.insert number ((∅ : RevisionDir).insert filename data) }))
      (fun _ s' => s'.held = s.held) s := by
  simp only [createRevisionFile, step, wp_bind, wp_raiseIf, wp_get, wp_modify,
    Store.held_setArchive, hs, AList.lookup_insert, Option.getD_some, AList.insert_insert]
  split
  · trivial
  · split
    · trivial
    · split
      · trivial
      · trivial

theorem archive_of_held {s s' : Store} {id : Id} {a : Archive}
    (h : s'.held = Function.update s.held id (some a)) : s'.archive id = a := by
  rw [Store.archive_eq, h, Function.update_self, Option.getD_some]

/-- The bytes of a new artifact are placed, or nothing outside its own archive changed. -/
theorem placeNew_wp (payload : Payload) (chosen : Option NotePath)
    (hchosen : payload.filename?.isSome → chosen.isSome) (s : Store) :
    wp (placeNew env fault draw payload chosen)
      (fun _ s' => s'.held = Function.update s.held draw.newId (some { s.archive draw.newId with
        dirs := payload.addDir 1 (s.archive draw.newId).dirs }))
      (fun _ s' => Function.update s'.held draw.newId none =
        Function.update s.held draw.newId none) s := by
  cases payload with
  | file filename mimeType data =>
    cases chosen with
    | none => cases hchosen rfl
    | some path =>
      simp only [placeNew, wp_bind, wp_pure]
      refine wp_mono (makeRevisionDir_wp fault draw.newId 1 s) ?_ (fun _ s' h => by rw [h])
      rintro _ s₁ ⟨-, h₁⟩
      have ha := archive_of_held h₁
      refine wp_mono (createRevisionFile_wp fault draw.newId 1 filename data s₁ _
        (by rw [ha])) ?_ (fun _ s' h => by rw [h, h₁, Function.update_idem])
      intro _ s₂ h₂
      rw [h₁, ha, Function.update_idem] at h₂
      exact (placeBrowse_frame env fault draw held_notesBlind path filename data).wp (fun _ _ h => h.trans h₂)
        (fun _ _ h => by rw [h, h₂, Function.update_idem])
  | link url =>
    simp only [placeNew, makeArchive, step, wp_bind, wp_raiseIf, wp_get, wp_modify, wp_pure,
      Store.held_setArchive]
    split
    · trivial
    · split
      · trivial
      · next h =>
        have hnone : s.archives.lookup draw.newId = none := by simpa using h
        have ha : s.archive draw.newId = Archive.empty := by
          simp [Store.archive, hnone]
        rw [ha]
        rfl

theorem choosePath_wp (details : Details) (payload : Payload) (s : Store) :
    wp (choosePath env fault details payload)
      (fun chosen s' => s'.held = s.held ∧ (payload.filename?.isSome → chosen.isSome))
      (fun _ s' => s'.held = s.held) s := by
  cases payload with
  | file filename mimeType data =>
    simp only [choosePath, wp_bind, wp_pure]
    exact (listFolder_frame fault _).wp (fun _ _ h => ⟨h, fun _ => rfl⟩) (fun _ _ h => h)
  | link url => exact ⟨rfl, fun h => (by cases h)⟩

theorem createManifest_wp (manifest : Manifest) (s : Store) :
    wp (createManifest fault manifest)
      (fun _ s' => (s.archive manifest.artifactId).manifest = none ∧
        s'.held = Function.update s.held manifest.artifactId
          (some { s.archive manifest.artifactId with manifest := some manifest }))
      (fun _ s' => s'.held = s.held) s := by
  simp only [createManifest, step, wp_bind, wp_raiseIf, wp_get, wp_modify,
    Store.held_setArchive]
  split
  · trivial
  · split
    · trivial
    · next h =>
      split
      · trivial
      · refine ⟨?_, trivial⟩
        rw [Store.archive_eq]
        rw [Store.manifest?_eq] at h
        cases hh : s.held manifest.artifactId with
        | none => rfl
        | some a => simpa [hh] using h

/-- A new artifact is complete under an identifier no manifest held, or nothing of it is
left. -/
theorem createNew_wp (details : Details) (payload : Payload) (s : Store) :
    wp (createNew env fault draw details payload)
      (fun r s' => r.id = draw.newId ∧ (s.archive draw.newId).manifest = none ∧
        ∃ path, s'.held = Function.update s.held draw.newId
          (some (newArchive env draw (s.archive draw.newId) details payload path)))
      (fun _ s' => s'.held = s.held ∨ s'.held = Function.update s.held draw.newId none) s := by
  simp only [createNew, wp_bind, wp_onRaise, wp_mapRaised, wp_pure]
  refine wp_mono (choosePath_wp env fault details payload s) ?_ (fun _ _ h => Or.inl h)
  rintro chosen s₁ ⟨h₁, hchosen⟩
  have ha : s₁.archive draw.newId = s.archive draw.newId := by
    rw [Store.archive_eq, h₁, ← Store.archive_eq]
  refine wp_mono (placeNew_wp env fault draw payload chosen hchosen s₁) ?_ ?_
  · intro path s₂ h₂
    rw [h₁, ha] at h₂
    have ha₂ := archive_of_held h₂
    refine wp_mono (createManifest_wp fault _ s₂) ?_ ?_
    · rintro _ s₃ ⟨hnone, h₃⟩
      have hnone' : (s.archive draw.newId).manifest = none := by
        simpa [newManifest, ha₂] using hnone
      have h₃' : s₃.held = Function.update s.held draw.newId
          (some (newArchive env draw (s.archive draw.newId) details payload path)) := by
        rw [h₃, newManifest, h₂, ha₂, Function.update_idem]
        rfl
      refine (landRecord_held ..).wp ?_ ?_
      · exact fun _ s₄ h₄ => ⟨trivial, hnone', path, h₄.trans h₃'⟩
      · intro _ s' h
        right
        have hundone := h.trans h₃'
        cases path <;> simp [hundone]
    · intro _ s' h
      right
      have hundone := h.trans h₂
      cases path <;> simp [hundone]
  · intro _ s' h
    right
    rw [Store.held_dropArtifact, h, h₁]

end Create

section Revise

variable (env : Env) (fault : Fault) (draw : Draw)

/-- The archive with a revision added. -/
def revisedArchive (old : Archive) (manifest : Manifest) (payload : Payload)
    (path : Option NotePath) : Archive where
  manifest := some (revisedManifest env draw manifest payload path)
  dirs := payload.addDir (manifest.currentRevision + 1) old.dirs

/-- The archive whose manifest was published and whose new bytes were then removed. -/
def tornArchive (old : Archive) (manifest : Manifest) (payload : Payload)
    (path : Option NotePath) : Archive where
  manifest := some (revisedManifest env draw manifest payload path)
  dirs := old.dirs

/-- A revision with bytes gets a directory that was not there. -/
def FreshDir (old : Archive) (manifest : Manifest) (payload : Payload) : Prop :=
  payload.filename?.isSome → old.dirs.lookup (manifest.currentRevision + 1) = none

/-- The call publishes the manifest of a new revision with bytes, fails to sync the
directory behind it, and takes the bytes back. -/
def Tears (payload : Payload) : Prop :=
  fault = some (.manifest .syncing) ∧ payload.filename?.isSome

theorem replaceManifest_wp (manifest : Manifest) (s : Store) :
    wp (replaceManifest fault manifest)
      (fun _ s' => s'.held = Function.update s.held manifest.artifactId
          (some { s.archive manifest.artifactId with manifest := some manifest }))
      (fun _ s' => s'.held = s.held ∨
        (fault = some (.manifest .syncing) ∧
          s'.held = Function.update s.held manifest.artifactId
            (some { s.archive manifest.artifactId with manifest := some manifest }))) s := by
  simp only [replaceManifest, step, wp_bind, wp_raiseIf, wp_modify, Store.held_setArchive]
  split
  · exact Or.inl trivial
  · split
    · exact Or.inl trivial
    · split
      · next h => exact Or.inr ⟨by simpa using h, trivial⟩
      · trivial

theorem makeFreshRevisionDir_wp (id : Id) (number : Nat) (s : Store) :
    wp (makeFreshRevisionDir fault id number)
      (fun _ s' => (s.archive id).dirs.lookup number = none ∧ s'.held = Function.update s.held id
        (some { s.archive id with dirs := (s.archive id).dirs.insert number ∅ }))
      (fun _ s' => s'.held = s.held) s := by
  have h := makeRevisionDir_wp fault id number s
  unfold wp at h ⊢
  unfold makeFreshRevisionDir
  cases hx : makeRevisionDir fault id number s with
  | ok a s' => simpa [hx] using h
  | error e s' =>
    have hs : s'.held = s.held := by simpa [hx] using h
    cases e <;> exact hs

theorem held_dropRevisionDir (id : Id) (number : Nat) (s : Store) :
    (dropRevisionDir id number s).held = Function.update s.held id
      (some { s.archive id with dirs := (s.archive id).dirs.erase number }) :=
  s.held_setArchive ..

/-- The new revision is placed and published, or the archive is as it was, or the failing
fsync behind the published manifest took the revision's bytes back. -/
theorem placeRevision_wp (manifest : Manifest) (previous : Revision) (payload : Payload)
    (s : Store) (old : Archive) (hold : s.held manifest.artifactId = some old) :
    wp (placeRevision env fault draw manifest previous payload)
      (fun m s' => FreshDir old manifest payload ∧ ∃ path,
        m = revisedManifest env draw manifest payload path ∧
        s'.held = Function.update s.held manifest.artifactId
          (some (revisedArchive env draw old manifest payload path)))
      (fun _ s' => s'.held = s.held ∨ ∃ path,
        (FreshDir old manifest payload ∧ s'.held = Function.update s.held manifest.artifactId
          (some (revisedArchive env draw old manifest payload path))) ∨
        (Tears fault payload ∧ s'.held = Function.update s.held manifest.artifactId
          (some (tornArchive env draw old manifest payload path)))) s := by
  have ha : s.archive manifest.artifactId = old := by
    rw [Store.archive_eq, hold, Option.getD_some]
  have hself : Function.update s.held manifest.artifactId (some old) = s.held := by
    rw [← hold, Function.update_eq_self]
  cases payload with
  | link url =>
    simp only [placeRevision, wp_bind, wp_pure]
    have hp := replaceManifest_wp fault
      (revisedManifest env draw manifest (.link url) manifest.path) s
    simp only [revisedManifest, ha] at hp ⊢
    have hfresh : FreshDir old manifest (.link url) := fun h => (by cases h)
    refine wp_mono hp (fun _ s' h => ⟨hfresh, manifest.path, rfl, h⟩) ?_
    rintro _ s' (h | ⟨-, h⟩)
    · exact Or.inl h
    · exact Or.inr ⟨manifest.path, Or.inl ⟨hfresh, h⟩⟩
  | file filename mimeType data =>
    simp only [placeRevision, wp_bind, wp_onRaise, wp_pure]
    refine wp_mono (makeFreshRevisionDir_wp ..) ?_ (fun _ _ h => Or.inl h)
    rintro _ s₁ ⟨hfresh, h₁⟩
    rw [ha] at hfresh h₁
    -- Until the manifest is published, removing the directory restores the archive.
    have restored : ∀ {s' : Store} {dir : RevisionDir},
        s'.held = Function.update s.held manifest.artifactId (some { old with
          dirs := old.dirs.insert (manifest.currentRevision + 1) dir }) →
        (dropRevisionDir manifest.artifactId (manifest.currentRevision + 1) s').held = s.held := by
      intro s' dir h
      rw [held_dropRevisionDir, h, archive_of_held h, Function.update_idem,
        erase_insert_of_lookup_none dir hfresh, hself]
    refine wp_mono (createRevisionFile_wp fault _ _ filename data s₁ old.dirs
      (by rw [archive_of_held h₁])) ?_ (fun _ _ h => Or.inl (restored (h.trans h₁)))
    intro _ s₂ h₂
    rw [archive_of_held h₁, h₁, Function.update_idem] at h₂
    refine (bringBrowseCurrent_frame env fault draw held_notesBlind ..).wp ?_ (fun _ _ h => Or.inl (restored (h.trans h₂)))
    intro path s₃ h₃
    replace h₃ := h₃.trans h₂
    have hp := replaceManifest_wp fault
      (revisedManifest env draw manifest (.file filename mimeType data) (some path)) s₃
    simp only [revisedManifest, archive_of_held h₃, h₃, Function.update_idem] at hp ⊢
    refine wp_mono hp (fun _ s' h => ⟨fun _ => hfresh, some path, rfl, h⟩) ?_
    rintro _ s' (h | ⟨hfault, h⟩)
    · exact Or.inl (restored h)
    · refine Or.inr ⟨some path, Or.inr ⟨⟨hfault, rfl⟩, ?_⟩⟩
      rw [held_dropRevisionDir, h, archive_of_held h, Function.update_idem,
        erase_insert_of_lookup_none _ hfresh]
      rfl

theorem addRevision_wp (manifest : Manifest) (payload : Payload) (s : Store) (old : Archive)
    (hold : s.held manifest.artifactId = some old) :
    wp (addRevision env fault draw manifest payload)
      (fun r s' => r.id = manifest.artifactId ∧ FreshDir old manifest payload ∧ ∃ path,
        s'.held = Function.update s.held manifest.artifactId
          (some (revisedArchive env draw old manifest payload path)))
      (fun _ s' => s'.held = s.held ∨ ∃ path,
        (FreshDir old manifest payload ∧ s'.held = Function.update s.held manifest.artifactId
          (some (revisedArchive env draw old manifest payload path))) ∨
        (Tears fault payload ∧ s'.held = Function.update s.held manifest.artifactId
          (some (tornArchive env draw old manifest payload path)))) s := by
  simp only [addRevision, wp_bind, wp_mapRaised, wp_pure]
  refine (currentRevision_frame manifest).wp ?_ (fun _ _ h => Or.inl h)
  intro previous s₁ h₁
  rw [← h₁] at hold ⊢
  refine wp_mono (placeRevision_wp env fault draw manifest previous payload s₁ old hold) ?_
    (fun _ _ h => h)
  rintro m s₂ ⟨hfresh, path, rfl, h₂⟩
  refine (landRecord_held ..).wp ?_ (fun _ _ h => Or.inr ⟨path, Or.inl ⟨hfresh, h.trans h₂⟩⟩)
  exact fun _ s₃ h₃ => ⟨rfl, hfresh, path, h₃.trans h₂⟩

end Revise

section StoreRevision

variable (env : Env) (fault : Fault) (draw : Draw)

/-- The artifact a request settles on: the one it names, else the one that replays it. -/
def target (s : Store) (artifactId : Option Id) (payload : Payload) : Option Id :=
  artifactId.or (findReplay env s payload)

/-- The artifact the request settles on, as its archive has it. -/
structure Targets (s : Store) (artifactId : Option Id) (payload : Payload) (manifest : Manifest)
    (old : Archive) : Prop where
  target_eq : target env s artifactId payload = some manifest.artifactId
  held_eq : s.held manifest.artifactId = some old
  manifest_eq : old.manifest = some manifest
  live : artifactId.isSome → manifest.removedAt = none

/-- The artifact holds something else than the payload. -/
def Differs (manifest : Manifest) (payload : Payload) : Prop :=
  ∃ current, manifest.current? = some current ∧ samePayload env manifest current payload = false

/-- What a call that returns an identifier did to the archive. -/
inductive Stored (s : Store) (artifactId : Option Id) (details : Details) (payload : Payload) :
    Id → (Id → Option Archive) → Prop
  | replayed (manifest : Manifest) (old : Archive) (current : Revision)
      (h : Targets env s artifactId payload manifest old)
      (hcurrent : manifest.current? = some current)
      (hsame : samePayload env manifest current payload = true) :
      Stored s artifactId details payload manifest.artifactId s.held
  | revised (manifest : Manifest) (old : Archive) (path : Option NotePath)
      (h : Targets env s artifactId payload manifest old) (hdiffers : Differs env manifest payload)
      (hfresh : FreshDir old manifest payload) :
      Stored s artifactId details payload manifest.artifactId
        (Function.update s.held manifest.artifactId
          (some (revisedArchive env draw old manifest payload path)))
  | created (path : Option NotePath)
      (h : target env s artifactId payload = none)
      (hfree : (s.archive draw.newId).manifest = none) :
      Stored s artifactId details payload draw.newId (Function.update s.held draw.newId
        (some (newArchive env draw (s.archive draw.newId) details payload path)))

/-- What a call that raises left of the archive. -/
inductive Left (s : Store) (artifactId : Option Id) (details : Details) (payload : Payload) :
    (Id → Option Archive) → Prop
  | unchanged : Left s artifactId details payload s.held
  | discarded (h : target env s artifactId payload = none) :
      Left s artifactId details payload (Function.update s.held draw.newId none)
  | complete {id : Id} {held : Id → Option Archive}
      (h : Stored env draw s artifactId details payload id held) :
      Left s artifactId details payload held
  | torn (manifest : Manifest) (old : Archive) (path : Option NotePath)
      (h : Targets env s artifactId payload manifest old) (hdiffers : Differs env manifest payload)
      (htears : Tears fault payload) :
      Left s artifactId details payload (Function.update s.held manifest.artifactId
        (some (tornArchive env draw old manifest payload path)))

theorem readManifest_wp (id : Id) (s : Store) :
    wp (readManifest fault id)
      (fun manifest s' => s' = s ∧ manifest.artifactId = id ∧ s.manifest? id = some manifest)
      (fun _ s' => s' = s) s := by
  simp only [readManifest, step, wp_bind, wp_raiseIf, wp_get]
  split
  · trivial
  · split
    · trivial
    · cases h : s.manifest? id with
      | none => trivial
      | some manifest =>
        simp only [wp_bind, wp_raiseIf, wp_pure]
        split
        · trivial
        · next hid => exact ⟨trivial, by simpa using hid, trivial⟩

theorem held_of_manifest? {s : Store} {id : Id} {manifest : Manifest}
    (h : s.manifest? id = some manifest) :
    ∃ old, s.held id = some old ∧ old.manifest = some manifest := by
  rw [Store.manifest?_eq] at h
  exact Option.bind_eq_some_iff.1 h

theorem replay_wp (manifest : Manifest) (s : Store) :
    wp (replay env fault draw manifest) (fun r _ => r.id = manifest.artifactId)
      (fun _ _ => True) s := by
  simp only [replay, wp_bind, wp_pure]
  refine (readRecord_frame (f := Store.held) ..).wp (fun _ s₁ _ => ?_) (fun _ _ _ => trivial)
  refine (currentRecord_frame (f := Store.held) _ _ _ (fun _ _ _ => rfl) ..).wp
    (fun _ s₂ _ => ?_) (fun _ _ _ => trivial)
  exact (mirrorRecord_held ..).wp (fun _ _ _ => trivial) (fun _ _ _ => trivial)

theorem findManifest_wp (artifactId : Option Id) (payload : Payload) (s : Store) :
    wp (findManifest env fault artifactId payload)
      (fun found s' => s' = s ∧
        match found with
        | some manifest => ∃ old, Targets env s artifactId payload manifest old
        | none => target env s artifactId payload = none)
      (fun _ s' => s' = s) s := by
  have targets : ∀ {id : Id} {manifest : Manifest}, target env s artifactId payload = some id →
      manifest.artifactId = id → s.manifest? id = some manifest →
      (artifactId.isSome → manifest.removedAt = none) →
      ∃ old, Targets env s artifactId payload manifest old := by
    rintro id manifest htarget rfl hm hlive
    obtain ⟨old, hold, hmanifest⟩ := held_of_manifest? hm
    exact ⟨old, htarget, hold, hmanifest, hlive⟩
  cases artifactId with
  | some id =>
    simp only [findManifest, wp_bind, wp_raiseIf, wp_pure]
    refine wp_mono (readManifest_wp fault id s) ?_ (fun _ _ h => h)
    rintro manifest s' ⟨rfl, hid, hm⟩
    split
    · trivial
    · next hlive => exact ⟨rfl, targets rfl hid hm fun _ => by simpa using hlive⟩
  | none =>
    simp only [findManifest, wp_bind, wp_get]
    cases hr : findReplay env s payload with
    | none => exact ⟨rfl, hr⟩
    | some id =>
      simp only [wp_bind, wp_pure]
      refine wp_mono (readManifest_wp fault id s) ?_ (fun _ _ h => h)
      rintro manifest s' ⟨rfl, hid, hm⟩
      exact ⟨rfl, targets hr hid hm fun h => (by cases h)⟩

/-- **What a call does**, returned or raised. -/
theorem storeRevision_wp (artifactId : Option Id) (details : Details) (payload : Payload)
    (s : Store) :
    wp (storeRevision env fault draw artifactId details payload)
      (fun r s' => Stored env draw s artifactId details payload r.id s'.held)
      (fun _ s' => Left env fault draw s artifactId details payload s'.held) s := by
  simp only [storeRevision, step, wp_mapRaised, wp_transaction, wp_bind, wp_raiseIf,
    Store.held_rollback]
  split
  · exact .unchanged
  refine wp_mono (findManifest_wp env fault artifactId payload s) ?_ ?_
  swap
  · rintro _ _ rfl
    exact .unchanged
  -- A call that stored something still raises where its commit fails.
  have committed : ∀ {id : Id} {s' : Store},
      Stored env draw s artifactId details payload id s'.held →
      if decide (fault = some Site.commit) = true then
        Left env fault draw s artifactId details payload s'.held
      else Stored env draw s artifactId details payload id s'.held := by
    intro id s' h
    split
    · exact .complete h
    · exact h
  rintro found s₁ ⟨rfl, hfound⟩
  cases found with
  | none =>
    refine wp_mono (createNew_wp ..) ?_ ?_
    · rintro r s' ⟨hid, hfree, path, hs'⟩
      exact committed (by rw [hid, hs']; exact .created path hfound hfree)
    · rintro _ s' (h | h)
      · exact h ▸ .unchanged
      · exact h ▸ .discarded hfound
  | some manifest =>
    obtain ⟨old, h⟩ := hfound
    simp only [wp_bind, currentRevision]
    cases hcurrent : manifest.current? with
    | none => exact .unchanged
    | some current =>
      simp only [wp_pure]
      split
      · next hsame =>
        refine wp_mono (wp_and (replay_wp env fault draw manifest s₁)
          ((replay_held ..).run s₁)) ?_ (fun _ _ hs' => hs'.2 ▸ .unchanged)
        rintro r s' ⟨hid, hs'⟩
        exact committed (by rw [hid, hs']; exact .replayed manifest old current h hcurrent hsame)
      · next hsame =>
        have hdiffers : Differs env manifest payload :=
          ⟨current, hcurrent, Bool.eq_false_iff.2 hsame⟩
        refine wp_mono (addRevision_wp env fault draw manifest payload s₁ old h.held_eq) ?_ ?_
        · rintro r s' ⟨hid, hfresh, path, hs'⟩
          exact committed (by rw [hid, hs']; exact .revised manifest old path h hdiffers hfresh)
        · rintro _ s' (hs' | ⟨path, ⟨hfresh, hs'⟩ | ⟨htears, hs'⟩⟩)
          · exact hs' ▸ .unchanged
          · exact hs' ▸ .complete (.revised manifest old path h hdiffers hfresh)
          · exact hs' ▸ .torn manifest old path h hdiffers htears

theorem createArtifact_wp (request : CreateArtifact) (s : Store) :
    wp (createArtifact env fault draw request)
      (fun r s' => Stored env draw s request.artifactId (request.details env draw)
        (request.upload.payload env) r.id s'.held)
      (fun _ s' => Left env fault draw s request.artifactId (request.details env draw)
        (request.upload.payload env) s'.held) s := by
  simp only [createArtifact, wp_bind, wp_raiseIf]
  split
  · exact .unchanged
  · exact storeRevision_wp ..

end StoreRevision

section Remove

variable (env : Env) (fault : Fault) (draw : Draw)

/-- The manifest marked removed. -/
def removedManifest (manifest : Manifest) (reason : Text) (removalCommit : Option Text) :
    Manifest :=
  { manifest with
    removedAt := some draw.now
    removedReason := some reason
    removalCommit := removalCommit.or manifest.removalCommit }

/-- A removal marks the manifest, or changes nothing in the archive. -/
theorem retire_wp (manifest : Manifest) (reason : Text) (removalCommit : Option Text) (s : Store)
    (old : Archive) (hold : s.held manifest.artifactId = some old) :
    wp (retire env fault draw manifest reason removalCommit)
      (fun _ s' => s'.held = Function.update s.held manifest.artifactId
        (some { old with manifest := some (removedManifest draw manifest reason removalCommit) }))
      (fun _ s' => s'.held = s.held ∨ s'.held = Function.update s.held manifest.artifactId
        (some { old with manifest := some (removedManifest draw manifest reason removalCommit) }))
      s := by
  simp only [retire, step, wp_mapRaised, wp_transaction, wp_bind, wp_raiseIf,
    wp_modify, Store.held_rollback, Store.held_dropRow, Store.held_dropRecord]
  refine (currentRevision_frame manifest).wp ?_ (fun _ _ h => Or.inl h)
  intro current s₁ h₁
  rw [← h₁] at hold ⊢
  split
  · exact Or.inl rfl
  refine (unlinkBrowse_frame env fault held_notesBlind ..).wp ?_ (fun _ _ h => Or.inl h)
  intro _ s₂ h₂
  have hp := replaceManifest_wp fault (removedManifest draw manifest reason removalCommit) s₂
  have ha : s₂.archive manifest.artifactId = old := by
    rw [Store.archive_eq, h₂, hold, Option.getD_some]
  simp only [removedManifest, ha, h₂] at hp ⊢
  refine wp_mono hp ?_ (fun _ _ h => h.imp id (·.2))
  intro _ s₃ h₃
  split
  · exact Or.inr h₃
  · split
    · exact Or.inr h₃
    · split
      · exact Or.inr h₃
      · exact h₃

theorem removeArtifact_wp (id : Id) (reason : Text) (s : Store) :
    wp (removeArtifact env fault draw id reason)
      (fun _ s' => ∃ manifest old, manifest.artifactId = id ∧ s.held id = some old ∧
        old.manifest = some manifest ∧ s'.held = Function.update s.held id
          (some { old with manifest := some (removedManifest draw manifest reason none) }))
      (fun _ s' => s'.held = s.held ∨ ∃ manifest old, manifest.artifactId = id ∧
        s.held id = some old ∧ old.manifest = some manifest ∧ s'.held = Function.update s.held id
          (some { old with manifest := some (removedManifest draw manifest reason none) })) s := by
  simp only [removeArtifact, wp_bind, wp_raiseIf]
  refine wp_mono (readManifest_wp fault id s) ?_ (fun _ _ h => Or.inl (by rw [h]))
  rintro manifest s₁ ⟨rfl, rfl, hm⟩
  obtain ⟨old, hold, hmanifest⟩ := held_of_manifest? hm
  split
  · exact Or.inl rfl
  · refine wp_mono (retire_wp env fault draw manifest reason none s₁ old hold) ?_ ?_
    · exact fun _ _ h => ⟨manifest, old, rfl, hold, hmanifest, h⟩
    · exact fun _ _ h => h.imp id fun h => ⟨manifest, old, rfl, hold, hmanifest, h⟩

end Remove

end Coppermind.Artifacts
