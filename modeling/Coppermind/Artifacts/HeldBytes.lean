import Coppermind.Artifacts.Outcome

/-!
# A manifest names only bytes the archive holds

Every revision a manifest records with a file has that file in its directory, with the bytes
whose digest the manifest records.  An upload, a revision or a removal keeps this whatever
step of it fails, but for one: where the directory cannot be synced behind the manifest of a
new revision, `_add_revision` takes the revision's bytes back although the manifest that
names them is published.
-/

namespace Coppermind.Artifacts

open Coppermind.Lib

/-- Every revision the manifest records with a file has that file, with the recorded bytes. -/
def Archive.HoldsBytes (env : Env) (a : Archive) : Prop :=
  ∀ manifest, a.manifest = some manifest → ∀ revision ∈ manifest.revisions, ∀ filename,
    revision.filename = some filename → ∃ dir data,
      a.dirs.lookup revision.revision = some dir ∧ dir.lookup filename = some data ∧
        revision.sha256 = some (env.sha256 data)

/-- Every archive holds the bytes its manifest names. -/
def HoldsBytes (env : Env) (held : Id → Option Archive) : Prop :=
  ∀ id a, held id = some a → a.HoldsBytes env

section Archives

variable {env : Env} {draw : Draw} {details : Details} {payload : Payload}
  {held : Id → Option Archive} {path : Option NotePath}

theorem holdsBytes_set {id : Id} {a : Archive} (h : HoldsBytes env held)
    (ha : a.HoldsBytes env) : HoldsBytes env (Function.update held id (some a)) := by
  intro id' b hb
  by_cases hid : id' = id
  · subst hid
    rw [Function.update_self] at hb
    exact Option.some.inj hb ▸ ha
  · rw [Function.update_of_ne hid] at hb
    exact h id' b hb

theorem holdsBytes_drop {id : Id} (h : HoldsBytes env held) :
    HoldsBytes env (Function.update held id none) := by
  intro id' b hb
  by_cases hid : id' = id
  · subst hid
    rw [Function.update_self] at hb
    cases hb
  · rw [Function.update_of_ne hid] at hb
    exact h id' b hb

/-- The revision of a payload is held by the directory added for it. -/
theorem revision_held {number : Nat} {dirs : AList fun _ : Nat => RevisionDir} {filename : Text}
    (h : (payload.revision env draw number).filename = some filename) :
    ∃ dir data, (payload.addDir number dirs).lookup number = some dir ∧
      dir.lookup filename = some data ∧
        (payload.revision env draw number).sha256 = some (env.sha256 data) := by
  cases payload with
  | link url => cases h
  | file name mimeType data =>
    obtain rfl : name = filename := Option.some.inj h
    exact ⟨_, data, AList.lookup_insert _, AList.lookup_insert _, rfl⟩

theorem newArchive_holdsBytes (old : Archive) :
    (newArchive env draw old details payload path).HoldsBytes env := by
  rintro manifest hm revision hr filename hf
  obtain rfl := Option.some.inj hm
  obtain rfl := List.mem_singleton.1 hr
  exact revision_held hf

theorem addDir_lookup_of_ne {number k : Nat} {dirs : AList fun _ : Nat => RevisionDir}
    (h : k ≠ number) : (payload.addDir number dirs).lookup k = dirs.lookup k := by
  cases payload with
  | link url => rfl
  | file name mimeType data => exact AList.lookup_insert_ne h

/-- A revision of another number keeps its bytes; one of the same number, in the directory
being added, would have to have had that directory before. -/
theorem revisedArchive_holdsBytes {old : Archive} {manifest : Manifest}
    (hm : old.manifest = some manifest) (h : old.HoldsBytes env)
    (hfresh : FreshDir old manifest payload) :
    (revisedArchive env draw old manifest payload path).HoldsBytes env := by
  rintro manifest' hm' revision hr filename hf
  obtain rfl := Option.some.inj hm'
  rcases List.mem_append.1 hr with hr | hr
  · obtain ⟨dir, data, hdir, hdata, hsha⟩ := h manifest hm revision hr filename hf
    refine ⟨dir, data, ?_, hdata, hsha⟩
    by_cases hnumber : revision.revision = manifest.currentRevision + 1
    · cases payload with
      | link url => exact hdir
      | file name mimeType bytes =>
        rw [hnumber, hfresh rfl] at hdir
        cases hdir
    · exact (addDir_lookup_of_ne hnumber).trans hdir
  · obtain rfl := List.mem_singleton.1 hr
    exact revision_held hf

theorem removed_holdsBytes {old : Archive} {manifest : Manifest} {reason : Text}
    {removalCommit : Option Text} (hm : old.manifest = some manifest) (h : old.HoldsBytes env) :
    Archive.HoldsBytes env
      { old with manifest := some (removedManifest draw manifest reason removalCommit) } := by
  rintro manifest' hm' revision hr filename hf
  obtain rfl := Option.some.inj hm'
  exact h manifest hm revision hr filename hf

end Archives

section Calls

variable {env : Env} {fault : Fault} {draw : Draw} {s : Store} {artifactId : Option Id}
  {details : Details} {payload : Payload} {held : Id → Option Archive}

theorem stored_holdsBytes {id : Id} (h : HoldsBytes env s.held)
    (hstored : Stored env draw s artifactId details payload id held) : HoldsBytes env held := by
  cases hstored with
  | replayed => exact h
  | revised manifest old path ht _ hfresh =>
    exact holdsBytes_set h (revisedArchive_holdsBytes ht.manifest_eq (h _ _ ht.held_eq) hfresh)
  | created => exact holdsBytes_set h (newArchive_holdsBytes _)

theorem left_holdsBytes (h : HoldsBytes env s.held)
    (htears : Tears fault payload → ∀ manifest old, Targets env s artifactId payload manifest old →
      ¬ Differs env manifest payload)
    (hleft : Left env fault draw s artifactId details payload held) : HoldsBytes env held := by
  cases hleft with
  | unchanged => exact h
  | discarded => exact holdsBytes_drop h
  | complete hstored => exact stored_holdsBytes h hstored
  | torn manifest old path ht hdiffers hfault =>
    exact absurd hdiffers (htears hfault manifest old ht)

end Calls

section Runs

variable (env : Env)

inductive Call where
  | create (request : CreateArtifact)
  | remove (id : Id) (reason : Text)

/-- A call, the fault it meets, and what it draws. -/
structure Event where
  call : Call
  fault : Fault
  draw : Draw

namespace Event

/-- The store after the call has returned or raised. -/
def after (e : Event) (s : Store) : Store :=
  match e.call with
  | .create request => finalState (createArtifact env e.fault e.draw request s)
  | .remove id reason => finalState (removeArtifact env e.fault e.draw id reason s)

/-- The call brings new bytes to an artifact there is, and the directory cannot be synced
behind the manifest it publishes. -/
def tears (e : Event) (s : Store) : Bool :=
  match e.call with
  | .create request =>
    let payload := request.upload.payload env
    e.fault == some (.manifest .syncing) && payload.filename?.isSome &&
      ((target env s request.artifactId payload).bind s.manifest?).any fun manifest =>
        manifest.current?.any fun current => !samePayload env manifest current payload
  | .remove _ _ => false

end Event

/-- The store after a run of calls. -/
def after (s : Store) (events : List Event) : Store :=
  events.foldl (fun s e => e.after env s) s

/-- No call of the run tears the revision it publishes. -/
def neverTears : Store → List Event → Bool
  | _, [] => true
  | s, e :: events => !e.tears env s && neverTears (e.after env s) events

theorem event_holdsBytes {e : Event} {s : Store} (h : HoldsBytes env s.held)
    (htears : e.tears env s = false) : HoldsBytes env (e.after env s).held := by
  obtain ⟨call, fault, draw⟩ := e
  cases call with
  | create request =>
    have hnot : Tears fault (request.upload.payload env) → ∀ manifest old,
        Targets env s request.artifactId (request.upload.payload env) manifest old →
        ¬ Differs env manifest (request.upload.payload env) := by
      rintro ⟨rfl, hfile⟩ manifest old ht ⟨current, hcurrent, hdiffers⟩
      have hm : s.manifest? manifest.artifactId = some manifest := by
        rw [Store.manifest?_eq, ht.held_eq, Option.bind_some, ht.manifest_eq]
      simp [Event.tears, hfile, ht.target_eq, hm, hcurrent, hdiffers] at htears
    exact wp_final (P := fun s' => HoldsBytes env s'.held) <|
      wp_mono (createArtifact_wp env fault draw request s)
        (fun _ _ hs => stored_holdsBytes h hs) (fun _ _ hs => left_holdsBytes h hnot hs)
  | remove id reason =>
    have marked : ∀ {s' : Store} {manifest : Manifest} {old : Archive}, s.held id = some old →
        old.manifest = some manifest → s'.held = Function.update s.held id
          (some { old with manifest := some (removedManifest draw manifest reason none) }) →
        HoldsBytes env s'.held := by
      intro s' manifest old hold hmanifest hs
      rw [hs]
      exact holdsBytes_set h (removed_holdsBytes hmanifest (h _ _ hold))
    refine wp_final (P := fun s' => HoldsBytes env s'.held) <|
      wp_mono (removeArtifact_wp env fault draw id reason s) ?_ ?_
    · rintro _ s' ⟨manifest, old, -, hold, hmanifest, hs⟩
      exact marked hold hmanifest hs
    · rintro _ s' (hs | ⟨manifest, old, -, hold, hmanifest, hs⟩)
      · rwa [hs]
      · exact marked hold hmanifest hs

/-- **The archive holds every byte its manifests name**, after each call of a run, whatever
step of whichever call fails, as long as no call tears the revision it publishes. -/
theorem run_holdsBytes (s : Store) (h : HoldsBytes env s.held) (events : List Event)
    (hclean : neverTears env s events = true) (n : Nat) :
    HoldsBytes env (after env s (events.take n)).held := by
  induction events generalizing s n with
  | nil => rwa [List.take_nil]
  | cons e events ih =>
    simp only [neverTears, Bool.and_eq_true, Bool.not_eq_true'] at hclean
    cases n with
    | zero => exact h
    | succ n => exact ih _ (event_holdsBytes env h hclean.1) hclean.2 n

end Runs

section Samples

def bytesOne : Bytes := [111, 110, 101]

def bytesTwo : Bytes := [116, 119, 111]

/-- A store in UTC whose uploads are small plain files. -/
def sampleEnv : Env where
  unicode := ⟨id, fun t => t.map Char.toUpper, fun t => t.map Char.toLower⟩
  sha256 data :=
    if data = bytesOne then
      "7692c3ad3540bb803c020b3aee66cd8887123234ea0c6e7143c0add73ff431ed".toList
    else if data = bytesTwo then
      "3fc4ccfe745870e2c0d99f71f30ff0656c8dedd41cc1d7d3d376b0dbe685e2f3".toList
    else []
  mediaType _ _ _ := "application/octet-stream".toList
  extract _ _ := ([], .unsupported)
  extractorVersion := "1".toList
  artifactsFolder := "Artifacts".toList
  artifactMaxBytes := 1000
  localMonth _ := ("2026".toList, "2026-01".toList)

def sampleId : Id := "01ARZ3NDEKTSV4RRFFQ69G5FAV".toList

def sampleDraw : Draw := ⟨0, 0, sampleId⟩

def upload (artifactId : Option Id) (data : Bytes) : CreateArtifact where
  title := none
  date := some 0
  tags := []
  origin := "api".toList
  artifactId := artifactId
  upload := .file "a.bin".toList none data

theorem holdsBytes_empty (env : Env) : HoldsBytes env Store.empty.held := by
  intro id a h
  cases h

theorem run_holdsBytes_sample :
    HoldsBytes sampleEnv (after sampleEnv Store.empty
      ([⟨.create (upload none bytesOne), none, sampleDraw⟩,
        ⟨.create (upload (some sampleId) bytesTwo), some (.record .syncing), sampleDraw⟩].take
          2)).held :=
  run_holdsBytes sampleEnv Store.empty (holdsBytes_empty _) _ (by decide) 2

/-- Whether every revision recorded with a file has its directory. -/
def hasDirs (a : Archive) : Bool :=
  a.manifest.all fun manifest => manifest.revisions.all fun revision =>
    revision.filename.isNone || (a.dirs.lookup revision.revision).isSome

theorem hasDirs_of_holdsBytes {env : Env} {a : Archive} (h : a.HoldsBytes env) :
    hasDirs a = true := by
  unfold hasDirs
  cases hm : a.manifest with
  | none => rfl
  | some manifest =>
    simp only [Option.all_some, List.all_eq_true, Bool.or_eq_true]
    intro revision hr
    cases hf : revision.filename with
    | none => exact Or.inl rfl
    | some filename =>
      obtain ⟨dir, data, hdir, -⟩ := h manifest hm revision hr filename hf
      exact Or.inr (by rw [hdir]; rfl)

/-- The directory fsync behind the manifest of a second revision fails: the manifest names
two revisions, and the archive holds the first. -/
theorem manifest_names_bytes_taken_back :
    ¬ ∀ (env : Env) (events : List Event) (n : Nat),
      HoldsBytes env (after env Store.empty (events.take n)).held := by
  intro hall
  have h := hall sampleEnv
    [⟨.create (upload none bytesOne), none, sampleDraw⟩,
      ⟨.create (upload (some sampleId) bytesTwo), some (.manifest .syncing), sampleDraw⟩] 2
  have hdirs : ∀ a, (after sampleEnv Store.empty
      [⟨.create (upload none bytesOne), none, sampleDraw⟩,
        ⟨.create (upload (some sampleId) bytesTwo), some (.manifest .syncing),
          sampleDraw⟩]).held sampleId = some a → hasDirs a = true :=
    fun a ha => hasDirs_of_holdsBytes (h sampleId a ha)
  have hfalse : ((after sampleEnv Store.empty
      [⟨.create (upload none bytesOne), none, sampleDraw⟩,
        ⟨.create (upload (some sampleId) bytesTwo), some (.manifest .syncing),
          sampleDraw⟩]).held sampleId).any (fun a => !hasDirs a) = true := by decide
  obtain ⟨a, ha, hmissing⟩ := (Option.any_eq_true ..).1 hfalse
  simp [hdirs a ha] at hmissing

end Samples

end Coppermind.Artifacts
