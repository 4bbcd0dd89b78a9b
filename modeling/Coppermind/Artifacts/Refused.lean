import Coppermind.Artifacts.Filename
import Coppermind.Artifacts.HeldBytes

/-!
# What a refused revision leaves behind

`_add_revision` brings the browsable copy to the new bytes before it writes the manifest, and takes
only the revision's directory back when it raises.  The steps up to the copy leave every file as it
was; those between the copy and the manifest leave the new bytes in the notes filesystem.
-/

namespace Coppermind.Artifacts

open Coppermind.Lib Coppermind.Lib.Text Coppermind.Naming

section Statement

/-- The browsable files, the revision directories and the manifests are those from before. -/
structure SameFiles (s s' : Store) : Prop where
  notes : ∀ path, s'.notes.lookup path = s.notes.lookup path
  held : s'.held = s.held

/-- The steps of `_add_revision` from the replacement of the manifest on. -/
def Site.afterReplacement : Site → Bool
  | .manifest .syncing => true
  | .record _ => true
  | .mirror => true
  | _ => false

/-- The browsable copy holds the bytes the archive has of its revision. -/
def CopyHeld (env : Env) (manifest : Manifest) (previous : Revision) (s : Store) : Prop :=
  ∃ path data mtimeNs, manifest.path = some path ∧
    s.notes.lookup path = some (.file data mtimeNs) ∧ some (env.sha256 data) = previous.sha256

/-- The step that fails lies between the new bytes in the notes filesystem and the manifest. -/
def Exposed (env : Env) (fault : Fault) (manifest : Manifest) (previous : Revision) (s : Store) :
    Prop :=
  (s.archive manifest.artifactId).dirs.lookup (manifest.currentRevision + 1) = none ∧
    (fault = some (.manifest .staging) ∨ fault = some (.manifest .replacing) ∨
      fault = some (.browseReplace .syncing) ∧ CopyHeld env manifest previous s)

end Statement

section Steps

variable {env : Env} {fault : Fault} {draw : Draw} {s : Store}

/-- The notes filesystem with one file that was not there, or not with these bytes. -/
def Brought (data : Bytes) (s s' : Store) : Prop :=
  ∃ path mtimeNs, s'.notes.lookup path = some (.file data mtimeNs) ∧
    ∀ mtimeNs', s.notes.lookup path ≠ some (.file data mtimeNs')

theorem createNote_notes (site : ExclusiveStep → Site) (path : NotePath) (data : Bytes)
    (mtimeNs : Nat) :
    wp (createNote fault site path data mtimeNs)
      (fun _ s' => Brought data s s')
      (fun _ s' => s'.notes = s.notes ∧ (fault = some (site .opening) ∨ fault = some (site .writing) ∨
        (s.notes.lookup path).isSome = true)) s := by
  simp only [createNote, step, wp_bind, wp_raiseIf, wp_get, wp_modify, decide_eq_true_eq]
  split
  · next h => exact ⟨trivial, .inl h⟩
  · split
    · next h => exact ⟨trivial, .inr (.inr h)⟩
    · next hnone =>
      split
      · next h => exact ⟨trivial, .inr (.inl h)⟩
      · refine ⟨path, mtimeNs, AList.lookup_insert _, ?_⟩
        intro mtimeNs' hsome
        exact hnone (by rw [hsome]; rfl)

/-- What a step short of the manifest leaves of the notes filesystem: nothing new, or the copy that
was replaced without its directory being synced. -/
def CopyLeft (env : Env) (fault : Fault) (manifest : Manifest) (previous : Revision) (data : Bytes)
    (s s' : Store) : Prop :=
  s'.notes = s.notes ∧ ¬ (fault = some (.browseReplace .syncing) ∧ CopyHeld env manifest previous s) ∧
      fault ≠ some (.manifest .staging) ∧ fault ≠ some (.manifest .replacing) ∨
    fault = some (.browseReplace .syncing) ∧ CopyHeld env manifest previous s ∧ Brought data s s'

/-- A failure at another site leaves nothing new. -/
theorem copyLeft_of_site {manifest : Manifest} {previous : Revision} {data : Bytes} {s' : Store}
    {site : Site} (hnotes : s'.notes = s.notes) (hfault : fault = some site)
    (hsite : site ≠ .browseReplace .syncing ∧ site ≠ .manifest .staging ∧
      site ≠ .manifest .replacing) : CopyLeft env fault manifest previous data s s' := by
  left
  refine ⟨hnotes, ?_, ?_, ?_⟩
  · rintro ⟨h, -⟩
    exact hsite.1 (Option.some.inj (hfault.symm.trans h))
  · exact fun h => hsite.2.1 (Option.some.inj (hfault.symm.trans h))
  · exact fun h => hsite.2.2 (Option.some.inj (hfault.symm.trans h))

theorem entries_mem {folder name : Text} (h : (s.notes.lookup ⟨folder, name⟩).isSome = true) :
    name ∈ s.entries folder := by
  rw [AList.lookup_isSome] at h
  unfold Store.entries
  rw [List.mem_map]
  exact ⟨⟨folder, name⟩, by simpa [AList.mem_keys] using h, rfl⟩

/-- A copy beside the old one, at a name that is free. -/
theorem beside_notes (hfold : CaseMapping env.unicode.casefold) {filename : Text}
    (hclean : Clean filename) (manifest : Manifest) (previous : Revision) (data : Bytes)
    (folder : Text) :
    wp (bringBrowseCurrent.beside env fault draw filename data folder)
      (fun _ s' => Brought data s s')
      (fun _ s' => CopyLeft env fault manifest previous data s s') s := by
  simp only [bringBrowseCurrent.beside, listFolder, step, wp_bind, wp_raiseIf, wp_get, wp_pure,
    wp_mapRaised, decide_eq_true_eq]
  split
  · next h => exact copyLeft_of_site rfl h (by decide)
  · refine wp_mono (createNote_notes .browseCopyAgain _ data draw.mtimeNs) (fun _ _ h => h) ?_
    rintro _ s' ⟨hnotes, h | h | h⟩
    · exact copyLeft_of_site hnotes h (by decide)
    · exact copyLeft_of_site hnotes h (by decide)
    · have hfree := uniqueFilename_free hfold hclean (s.entries folder)
      exact absurd (List.mem_map_of_mem (entries_mem h)) hfree

/-- **The copy** is brought to new bytes, or nothing new is left of it. -/
theorem bringBrowseCurrent_notes (hfold : CaseMapping env.unicode.casefold) {filename : Text}
    (hclean : Clean filename) {manifest : Manifest} {previous : Revision} {data : Bytes}
    (hnew : previous.sha256 ≠ some (env.sha256 data)) :
    wp (bringBrowseCurrent env fault draw manifest previous filename data)
      (fun _ s' => Brought data s s')
      (fun _ s' => CopyLeft env fault manifest previous data s s') s := by
  have hbeside := @beside_notes env fault draw s hfold filename hclean manifest previous data
    (browseFolder env manifest.receivedAt)
  simp only [bringBrowseCurrent, wp_bind, wp_get]
  cases hpath : manifest.path with
  | none => exact hbeside
  | some target =>
    simp only [Option.bind_some]
    cases hcopy : s.notes.lookup target with
    | none =>
      simp only [wp_bind, wp_mapRaised, wp_pure]
      refine wp_mono (createNote_notes .browseCopy target data draw.mtimeNs) (fun _ _ h => h) ?_
      rintro _ s' ⟨hnotes, h | h | h⟩
      · exact copyLeft_of_site hnotes h (by decide)
      · exact copyLeft_of_site hnotes h (by decide)
      · rw [hcopy] at h
        cases h
    | some entry =>
      cases entry with
      | directory => exact hbeside
      | file current mtimeNs =>
        simp only [step, wp_bind, wp_raiseIf, decide_eq_true_eq]
        split
        · next h => exact copyLeft_of_site rfl h (by decide)
        · split
          · next hheld =>
            have hcopyHeld : CopyHeld env manifest previous s :=
              ⟨target, current, mtimeNs, hpath, hcopy, hheld⟩
            have hbrought : Brought data s (s.setNote target (.file data draw.mtimeNs)) := by
              refine ⟨target, draw.mtimeNs, AList.lookup_insert _, ?_⟩
              intro mtimeNs' hsame
              rw [hcopy] at hsame
              obtain ⟨rfl, -⟩ := Entry.file.inj (Option.some.inj hsame)
              exact hnew hheld.symm
            simp only [replaceNote, step, wp_bind, wp_raiseIf, wp_modify, wp_pure, decide_eq_true_eq]
            split
            · next h => exact copyLeft_of_site rfl h (by decide)
            · split
              · next h => exact copyLeft_of_site rfl h (by decide)
              · split
                · next h => exact .inr ⟨h, hcopyHeld, hbrought⟩
                · exact hbrought
          · exact hbeside

end Steps

section Refusal

variable {env : Env} {fault : Fault} {draw : Draw} {s : Store} {manifest : Manifest}
  {previous : Revision}

theorem Brought.congr {data : Bytes} {s₁ s' : Store} (h : Brought data s₁ s')
    (hnotes : s₁.notes = s.notes) : Brought data s s' := by
  unfold Brought at h ⊢
  rwa [hnotes] at h

theorem CopyHeld.congr {s₁ : Store} (h : CopyHeld env manifest previous s₁)
    (hnotes : s₁.notes = s.notes) : CopyHeld env manifest previous s := by
  unfold CopyHeld at h ⊢
  rwa [hnotes] at h

theorem Brought.not_same {data : Bytes} {s₃ s' : Store} (h : Brought data s s₃)
    (hnotes : s'.notes = s₃.notes) : ¬ SameFiles s s' := by
  obtain ⟨path, mtimeNs, hafter, hbefore⟩ := h
  intro hsame
  rw [← hnotes, hsame.notes path] at hafter
  exact hbefore mtimeNs hafter

theorem not_exposed_of_site {site : Site} (hfault : fault = some site)
    (hsite : site ≠ .browseReplace .syncing ∧ site ≠ .manifest .staging ∧
      site ≠ .manifest .replacing) : ¬ Exposed env fault manifest previous s := by
  rintro ⟨-, h | h | ⟨h, -⟩⟩
  · exact hsite.2.1 (Option.some.inj (hfault.symm.trans h))
  · exact hsite.2.2 (Option.some.inj (hfault.symm.trans h))
  · exact hsite.1 (Option.some.inj (hfault.symm.trans h))

theorem notes_dropRevisionDir (id : Id) (number : Nat) (s : Store) :
    (dropRevisionDir id number s).notes = s.notes := rfl

theorem makeFreshRevisionDir_refused (id : Id) (number : Nat) :
    wp (makeFreshRevisionDir fault id number)
      (fun _ s' => s'.notes = s.notes ∧ (s.archive id).dirs.lookup number = none ∧
        s'.held = Function.update s.held id
          (some { s.archive id with dirs := (s.archive id).dirs.insert number ∅ }))
      (fun _ s' => s'.notes = s.notes ∧ s'.held = s.held ∧
        (fault = some .revisionDirectory ∨ (s.archive id).dirs.lookup number ≠ none)) s := by
  have h : wp (makeRevisionDir fault id number)
      (fun _ s' => s'.notes = s.notes ∧ (s.archive id).dirs.lookup number = none ∧
        s'.held = Function.update s.held id
          (some { s.archive id with dirs := (s.archive id).dirs.insert number ∅ }))
      (fun _ s' => s'.notes = s.notes ∧ s'.held = s.held ∧
        (fault = some .revisionDirectory ∨ (s.archive id).dirs.lookup number ≠ none)) s := by
    simp only [makeRevisionDir, step, wp_bind, wp_raiseIf, wp_get, wp_modify, decide_eq_true_eq]
    split
    · next h => exact ⟨trivial, trivial, .inl h⟩
    · split
      · next h => exact ⟨trivial, trivial, .inr (Option.ne_none_iff_isSome.2 h)⟩
      · next h => exact ⟨rfl, by simpa using h, Store.held_setArchive ..⟩
  unfold wp at h ⊢
  unfold makeFreshRevisionDir
  cases hx : makeRevisionDir fault id number s with
  | ok a s' => simpa [hx] using h
  | error e s' =>
    rw [hx] at h
    cases e <;> exact h

theorem createRevisionFile_refused (id : Id) (number : Nat) (filename : Text) (data : Bytes)
    (dirs : AList fun _ : Nat => RevisionDir) (hs : (s.archive id).dirs = dirs.insert number ∅) :
    wp (createRevisionFile fault id number filename data)
      (fun _ s' => s'.notes = s.notes ∧ s'.held = Function.update s.held id (some { s.archive id with
        dirs := dirs.insert number ((∅ : RevisionDir).insert filename data) }))
      (fun _ s' => s'.notes = s.notes ∧ s'.held = s.held ∧
        ∃ step, fault = some (.revisionFile step)) s := by
  simp only [createRevisionFile, step, wp_bind, wp_raiseIf, wp_get, wp_modify, hs,
    AList.lookup_insert, Option.getD_some, AList.insert_insert, decide_eq_true_eq]
  split
  · next h => exact ⟨trivial, trivial, _, h⟩
  · split
    · next h =>
      rw [AList.lookup_empty] at h
      cases h
    · split
      · next h => exact ⟨trivial, trivial, _, h⟩
      · exact ⟨rfl, Store.held_setArchive ..⟩

/-- **The part of `_add_revision` before the replacement**: what it raises leaves the files as they
were exactly where the failing step does not lie behind the copy. -/
theorem placeRevision_refused (hfold : CaseMapping env.unicode.casefold) {filename mimeType : Text}
    {data : Bytes} (hclean : Clean filename) {old : Archive}
    (hold : s.held manifest.artifactId = some old)
    (hnew : previous.sha256 ≠ some (env.sha256 data)) (hbefore : fault ≠ some (.manifest .syncing)) :
    wp (placeRevision env fault draw manifest previous (.file filename mimeType data))
      (fun m _ => ∃ path, m = revisedManifest env draw manifest (.file filename mimeType data) path)
      (fun _ s' => SameFiles s s' ↔ ¬ Exposed env fault manifest previous s) s := by
  have ha : s.archive manifest.artifactId = old := by
    rw [Store.archive_eq, hold, Option.getD_some]
  simp only [placeRevision, wp_bind, wp_onRaise, wp_pure]
  refine wp_mono (makeFreshRevisionDir_refused ..) ?_ ?_
  · rintro _ s₁ ⟨hnotes₁, hfresh, hheld₁⟩
    rw [ha] at hfresh hheld₁
    -- Until the manifest is published, removing the directory restores the archive.
    have restored : ∀ {s' : Store} {dir : RevisionDir},
        s'.held = Function.update s.held manifest.artifactId (some { old with
          dirs := old.dirs.insert (manifest.currentRevision + 1) dir }) →
        (dropRevisionDir manifest.artifactId (manifest.currentRevision + 1) s').held = s.held := by
      intro s' dir h
      rw [held_dropRevisionDir, h, archive_of_held h, Function.update_idem,
        erase_insert_of_lookup_none dir hfresh, ← hold, Function.update_eq_self]
    have same : ∀ {s' : Store}, s'.notes = s.notes →
        (dropRevisionDir manifest.artifactId (manifest.currentRevision + 1) s').held = s.held →
        SameFiles s (dropRevisionDir manifest.artifactId (manifest.currentRevision + 1) s') :=
      fun hnotes hheld => ⟨fun path => by rw [notes_dropRevisionDir, hnotes], hheld⟩
    refine wp_mono (createRevisionFile_refused _ _ filename data old.dirs
      (by rw [archive_of_held hheld₁])) ?_ ?_
    · rintro _ s₂ ⟨hnotes₂, hheld₂⟩
      rw [archive_of_held hheld₁, hheld₁, Function.update_idem] at hheld₂
      have hsame₂ : s₂.notes = s.notes := hnotes₂.trans hnotes₁
      refine wp_mono (wp_and (bringBrowseCurrent_notes hfold hclean hnew)
        ((bringBrowseCurrent_frame env fault draw held_notesBlind manifest previous filename data).run
          s₂)) ?_ ?_
      · rintro path s₃ ⟨hbrought, hheld₃⟩
        have hnot : ∀ {s' : Store}, s'.notes = s₃.notes → ¬ SameFiles s s' := by
          intro s' hnotes
          exact (hbrought.congr hsame₂).not_same hnotes
        simp only [replaceManifest, step, wp_bind, wp_raiseIf, wp_modify, decide_eq_true_eq, if_neg hbefore]
        have hdirs : (s.archive manifest.artifactId).dirs.lookup (manifest.currentRevision + 1) = none := by
          rw [ha, hfresh]
        split
        · next h =>
          exact ⟨fun hsame => absurd hsame (hnot rfl), fun h' => absurd ⟨hdirs, .inl h⟩ h'⟩
        · split
          · next h =>
            exact ⟨fun hsame => absurd hsame (hnot rfl), fun h' => absurd ⟨hdirs, .inr (.inl h)⟩ h'⟩
          · exact ⟨some path, rfl⟩
      · rintro _ s₃ ⟨hleft, hheld₃⟩
        have hback := restored (hheld₃.trans hheld₂)
        obtain ⟨hnotes₃, hcopy, hstaging, hreplacing⟩ | ⟨hfault, hcopy, hbrought⟩ := hleft
        · refine ⟨fun _ => ?_, fun _ => same (hnotes₃.trans hsame₂) hback⟩
          rintro ⟨-, h | h | ⟨h, hheld⟩⟩
          · exact hstaging h
          · exact hreplacing h
          · exact hcopy ⟨h, hheld.congr hsame₂.symm⟩
        · have hnot := (hbrought.congr hsame₂).not_same
            (notes_dropRevisionDir manifest.artifactId (manifest.currentRevision + 1) s₃)
          refine ⟨fun hsame => absurd hsame hnot, fun h => absurd ⟨?_, ?_⟩ h⟩
          · rw [ha, hfresh]
          · exact .inr (.inr ⟨hfault, hcopy.congr hsame₂⟩)
    · rintro _ s₂ ⟨hnotes₂, hheld₂, site, hfault⟩
      have hsame := same (hnotes₂.trans hnotes₁) (restored (hheld₂.trans hheld₁))
      exact ⟨fun _ => not_exposed_of_site hfault (by simp), fun _ => hsame⟩
  · rintro _ s₁ ⟨hnotes, hheld, h⟩
    have hsame : SameFiles s s₁ := ⟨fun path => by rw [hnotes], hheld⟩
    refine ⟨fun _ => ?_, fun _ => hsame⟩
    obtain h | h := h
    · exact not_exposed_of_site h (by decide)
    · exact fun hexposed => h hexposed.1

/-- The record of a revision lands where none of its steps fails. -/
theorem landRecord_returns (payload : Payload) (path : Option NotePath)
    (hbefore : ∀ site, fault = some site → site.afterReplacement = false) :
    wp (landRecord env fault draw (revisedManifest env draw manifest payload path))
      (fun _ _ => True) (fun _ _ => False) s := by
  have hnot : ∀ site, site.afterReplacement = true → fault ≠ some site := by
    intro site hsite hfault
    rw [hbefore site hfault] at hsite
    cases hsite
  have hcurrent : ((revisedManifest env draw manifest payload path).current?).isSome = true := by
    unfold Manifest.current? revisedManifest
    rw [List.find?_isSome]
    exact ⟨_, List.mem_append_right _ (List.mem_singleton_self _), by simp [Payload.revision]⟩
  obtain ⟨current, hcurrent⟩ := Option.isSome_iff_exists.1 hcurrent
  simp only [landRecord, extractRecord, writeRecord, mirrorRecord, step, currentRevision, hcurrent,
    wp_bind, wp_pure, wp_get, wp_mapRaised, wp_raiseIf, wp_modify, decide_eq_true_eq,
    if_neg (hnot (.record .staging) rfl), if_neg (hnot (.record .replacing) rfl),
    if_neg (hnot (.record .syncing) rfl), if_neg (hnot .mirror rfl)]

/-- **A refused revision**: an upload of new bytes that raises before the manifest is replaced leaves
the browsable files, the revision directories and the manifests as they were, exactly where the step
that fails does not lie between the new bytes in the notes filesystem and the manifest. -/
theorem refused_revision_iff (hfold : CaseMapping env.unicode.casefold) {name mimeType : Text}
    {data : Bytes} {s' : Store} {e : Raised}
    (hmanifest : s.manifest? manifest.artifactId = some manifest)
    (hcurrent : manifest.current? = some previous)
    (hnew : previous.sha256 ≠ some (env.sha256 data))
    (hbefore : ∀ site, fault = some site → site.afterReplacement = false)
    (hrefused : addRevision env fault draw manifest (.file (artifactFilename env name) mimeType data) s =
      .error e s') :
    SameFiles s s' ↔ ¬ Exposed env fault manifest previous s := by
  obtain ⟨old, hold, -⟩ := Option.bind_eq_some_iff.1 (s.manifest?_eq _ ▸ hmanifest)
  have hplace := @placeRevision_refused env fault draw s manifest previous hfold
    (artifactFilename env name) mimeType data (clean_artifactFilename name) old hold hnew (by
      intro h
      exact absurd (hbefore _ h) (by decide))
  have hadd : wp (addRevision env fault draw manifest
      (.file (artifactFilename env name) mimeType data)) (fun _ _ => True)
      (fun _ s' => SameFiles s s' ↔ ¬ Exposed env fault manifest previous s) s := by
    simp only [addRevision, wp_bind, wp_mapRaised, wp_pure, currentRevision, hcurrent]
    refine wp_mono hplace ?_ (fun _ _ h => h)
    rintro _ s₂ ⟨path, rfl⟩
    exact wp_mono (landRecord_returns _ path hbefore) (fun _ _ h => h) (fun _ _ h => h.elim)
  have hleft := wp_error hadd hrefused
  exact hleft

end Refusal

section Sample

/-- A store that holds one artifact of one revision. -/
def storedOne : Store :=
  finalState (createArtifact sampleEnv none sampleDraw (upload none bytesOne) Store.empty)

def storedManifest : Manifest :=
  (storedOne.manifest? sampleId).getD (newManifest sampleEnv sampleDraw
    ((upload none bytesOne).details sampleEnv sampleDraw) (.link []) none)

/-- The upload of a second revision. -/
def secondRevision (fault : Site) : EStateM.Result Raised Store CreatedArtifact :=
  addRevision sampleEnv (some fault) sampleDraw storedManifest
    (.file (artifactFilename sampleEnv "a.bin".toList) "application/octet-stream".toList bytesTwo)
    storedOne

theorem exists_error_of_returned {r : EStateM.Result Raised Store CreatedArtifact}
    (h : returned r = false) : ∃ e, r = .error e (finalState r) := by
  cases r with
  | ok => cases h
  | error e s => exact ⟨e, rfl⟩

theorem refused_revision_sample :
    SameFiles storedOne (finalState (secondRevision (.browseReplace .staging))) := by
  obtain ⟨e, he⟩ := @exists_error_of_returned (secondRevision (.browseReplace .staging))
    (by decide +kernel)
  refine (refused_revision_iff ascii_casefold (by decide +kernel) (Option.some_get (by decide +kernel)).symm
    (by decide +kernel) ?_ he).2 ?_
  · intro site hsite
    cases hsite
    rfl
  · exact not_exposed_of_site rfl (by decide)

/-- The manifest of a second revision cannot be staged: the archive keeps the first, and the
browsable copy has the bytes of the second. -/
theorem copy_ahead_of_manifest :
    storedOne.manifest? sampleId = some storedManifest ∧
      returned (secondRevision (.manifest .staging)) = false ∧
      ¬ SameFiles storedOne (finalState (secondRevision (.manifest .staging))) := by
  refine ⟨by decide +kernel, by decide +kernel, ?_⟩
  intro h
  have hcopy := h.notes ⟨"Artifacts/2026/2026-01".toList, "a.bin".toList⟩
  revert hcopy
  decide +kernel

end Sample

end Coppermind.Artifacts
