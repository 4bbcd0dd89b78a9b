import Coppermind.Artifacts.HeldBytes
import Coppermind.Artifacts.Mirror

/-!
# A retried upload and its replay

An upload that names no artifact looks for one the same bytes under the same filename, or
the same link, already made.  It looks in the mirror, while the artifact lives in the
archive: after a commit that failed behind complete files the two differ, and the retry
makes a second artifact.  Where each call finds in the mirror the artifact the archive holds
for its key, one artifact of a key is all there ever is, and a call that returns leaves
exactly one.
-/

namespace Coppermind.Artifacts.Replay

open Coppermind.Lib

/-- What a replay is looked up by. -/
inductive Key where
  | bytes (sha256 filename : Text)
  | link (url : Text)
deriving DecidableEq, Repr

def key (env : Env) : Payload → Key
  | .file filename _ data => .bytes (env.sha256 data) filename
  | .link url => .link url

/-- The artifact is of these bytes under this filename, or of this link. -/
def isOf (manifest : Manifest) : Key → Bool
  | .bytes sha256 filename =>
    manifest.source.isNone && manifest.current?.any fun revision =>
      revision.sha256 == some sha256 && revision.filename == some filename
  | .link url => manifest.url == some url

/-- The archive holds an artifact of the key under the identifier, not marked removed. -/
def Holds (held : Id → Option Archive) (k : Key) (id : Id) : Prop :=
  ∃ a manifest, held id = some a ∧ a.manifest = some manifest ∧ manifest.removedAt = none ∧
    isOf manifest k = true

/-- The artifacts of a key that are not marked removed. -/
def holders (s : Store) (k : Key) : List Id :=
  (s.archives.entries.filter fun e =>
    e.2.manifest.any fun manifest => manifest.removedAt.isNone && isOf manifest k).map (·.1)

theorem mem_holders {s : Store} {k : Key} {id : Id} : id ∈ holders s k ↔ Holds s.held k id := by
  constructor
  · intro h
    obtain ⟨e, he, rfl⟩ := List.mem_map.1 h
    obtain ⟨hmem, hof⟩ := List.mem_filter.1 he
    obtain ⟨manifest, hm, hof⟩ := (Option.any_eq_true ..).1 hof
    simp only [Bool.and_eq_true, Option.isNone_iff_eq_none] at hof
    exact ⟨e.2, manifest, mem_entries_iff_view.1 hmem, hm, hof.1, hof.2⟩
  · rintro ⟨a, manifest, ha, hm, hlive, hof⟩
    refine List.mem_map.2 ⟨⟨id, a⟩, List.mem_filter.2 ⟨mem_entries_iff_view.2 ha, ?_⟩, rfl⟩
    simp [hm, hlive, hof]

def AtMostOne (held : Id → Option Archive) : Prop :=
  ∀ k id id', Holds held k id → Holds held k id' → id = id'

def ExactlyOne (held : Id → Option Archive) (k : Key) : Prop :=
  ∃! id, Holds held k id

/-- Revisions are numbered up to the current one, and no artifact came from a source. -/
def Uploaded (held : Id → Option Archive) : Prop :=
  ∀ id a manifest, held id = some a → a.manifest = some manifest →
    (∀ revision ∈ manifest.revisions, revision.revision ≤ manifest.currentRevision) ∧
      manifest.source = none

section Manifests

variable {env : Env} {draw : Draw} {details : Details} {payload : Payload}
  {path : Option NotePath} {manifest : Manifest}

theorem current?_revised
    (h : ∀ revision ∈ manifest.revisions, revision.revision ≤ manifest.currentRevision) :
    (revisedManifest env draw manifest payload path).current? =
      some (payload.revision env draw (manifest.currentRevision + 1)) := by
  have hnone : manifest.revisions.find? (·.revision = manifest.currentRevision + 1) = none := by
    rw [List.find?_eq_none]
    intro revision hr
    have := h revision hr
    simp only [decide_eq_true_eq]
    omega
  show (manifest.revisions ++ [payload.revision env draw (manifest.currentRevision + 1)]).find?
    (·.revision = manifest.currentRevision + 1) = _
  rw [List.find?_append, hnone, Option.none_or]
  exact List.find?_cons_of_pos (decide_eq_true rfl)

theorem isOf_bytes_revision {r : Revision} {number : Nat} {sha filename : Text}
    (hr : r = payload.revision env draw number) :
    (r.sha256 == some sha && r.filename == some filename) = true ↔
      key env payload = .bytes sha filename := by
  subst hr
  cases payload <;>
    simp [Payload.revision, Payload.sha256?, Payload.filename?, key]

/-- A new artifact is of its payload's key, and of no other. -/
theorem isOf_new (k : Key) (hsource : details.source = none) :
    isOf (newManifest env draw details payload path) k = true ↔ k = key env payload := by
  cases k with
  | bytes sha filename =>
    have hcurrent : (newManifest env draw details payload path).current? =
        some (payload.revision env draw 1) := by
      simp [Manifest.current?, newManifest, Payload.revision]
    have hsource' : (newManifest env draw details payload path).source = none := hsource
    simp only [isOf, hcurrent, hsource', Option.isNone_none, Bool.true_and, Option.any_some]
    rw [isOf_bytes_revision rfl, eq_comm]
  | link url =>
    cases payload with
    | file => simp [isOf, newManifest, Payload.url?, key]
    | link url' =>
      simp only [isOf, newManifest, Payload.url?, key, Key.link.injEq, beq_iff_eq,
        Option.some.injEq]
      exact eq_comm

/-- A revised artifact is of its payload's key; any other key it is of, it was of before. -/
theorem isOf_revised (k : Key)
    (h : ∀ revision ∈ manifest.revisions, revision.revision ≤ manifest.currentRevision)
    (hk : isOf (revisedManifest env draw manifest payload path) k = true) :
    k = key env payload ∨ isOf manifest k = true := by
  cases k with
  | bytes sha filename =>
    simp only [isOf, current?_revised h, Option.any_some, Bool.and_eq_true] at hk
    exact Or.inl ((isOf_bytes_revision rfl).1 (Bool.and_eq_true _ _ ▸ hk.2)).symm
  | link url =>
    cases payload with
    | link url' =>
      simp only [isOf, revisedManifest, Payload.url?, Option.some_or, beq_iff_eq,
        Option.some.injEq] at hk
      exact Or.inl (congrArg Key.link hk.symm)
    | file => exact Or.inr hk

theorem isOf_revised_key
    (h : ∀ revision ∈ manifest.revisions, revision.revision ≤ manifest.currentRevision)
    (hsource : manifest.source = none) :
    isOf (revisedManifest env draw manifest payload path) (key env payload) = true := by
  cases payload with
  | file filename mimeType data =>
    have hsource' : (revisedManifest env draw manifest (.file filename mimeType data) path).source =
      none := hsource
    simp only [key, isOf, current?_revised h, hsource', Option.isNone_none, Bool.true_and,
      Option.any_some]
    exact (isOf_bytes_revision rfl).2 rfl
  | link url => simp [key, isOf, revisedManifest, Payload.url?]

end Manifests

section Calls

variable (env : Env)

/-- The call finds what the archive holds: an artifact of its key is the one it settles on,
and one it would answer with as a replay is of its key. -/
def clear (s : Store) (artifactId : Option Id) (payload : Payload) : Bool :=
  (holders s (key env payload)).all (fun id => target env s artifactId payload == some id) &&
    (artifactId.isSome ||
      ((target env s artifactId payload).bind s.manifest?).all fun manifest =>
        manifest.current?.all fun current =>
          !samePayload env manifest current payload || isOf manifest (key env payload))

variable {env} {fault : Fault} {draw : Draw} {s : Store} {artifactId : Option Id}
  {details : Details} {payload : Payload} {held : Id → Option Archive} {id : Id}

theorem clear_holds (hclear : clear env s artifactId payload = true) {id : Id}
    (h : Holds s.held (key env payload) id) : target env s artifactId payload = some id := by
  simp only [clear, Bool.and_eq_true, List.all_eq_true, beq_iff_eq] at hclear
  exact hclear.1 id (mem_holders.2 h)

theorem holds_of_update {a : Option Archive} {k : Key} {i : Id}
    (h : Holds (Function.update held id a) k i) :
    (i ≠ id ∧ Holds held k i) ∨ (i = id ∧ ∃ b manifest, a = some b ∧ b.manifest = some manifest ∧
      manifest.removedAt = none ∧ isOf manifest k = true) := by
  obtain ⟨b, manifest, hb, hm⟩ := h
  by_cases hid : i = id
  · subst hid
    rw [Function.update_self] at hb
    exact Or.inr ⟨rfl, b, manifest, hb, hm⟩
  · rw [Function.update_of_ne hid] at hb
    exact Or.inl ⟨hid, b, manifest, hb, hm⟩

/-- At most one artifact of a key stays so when the one new claim to a key is made where no
other artifact has it. -/
theorem atMostOne_claim {held' : Id → Option Archive} (id : Id) (k₀ : Key) (hone : AtMostOne held)
    (hsub : ∀ k i, Holds held' k i → Holds held k i ∨ (i = id ∧ k = k₀))
    (hfree : ∀ i, Holds held k₀ i → i = id) : AtMostOne held' := by
  intro k i j hi hj
  rcases hsub k i hi with hi | ⟨rfl, rfl⟩ <;> rcases hsub k j hj with hj | ⟨rfl, hk⟩
  · exact hone k i j hi hj
  · exact hfree i (hk ▸ hi)
  · exact (hfree j hj).symm
  · rfl

theorem atMostOne_subset {held' : Id → Option Archive} (hone : AtMostOne held)
    (hsub : ∀ k i, Holds held' k i → Holds held k i) : AtMostOne held' :=
  fun k i j hi hj => hone k i j (hsub k i hi) (hsub k j hj)

theorem uploaded_set {a : Archive} (hup : Uploaded held)
    (ha : ∀ manifest, a.manifest = some manifest →
      (∀ revision ∈ manifest.revisions, revision.revision ≤ manifest.currentRevision) ∧
        manifest.source = none) : Uploaded (Function.update held id (some a)) := by
  intro i b manifest hb hm
  by_cases hid : i = id
  · subst hid
    rw [Function.update_self] at hb
    obtain rfl := Option.some.inj hb
    exact ha manifest hm
  · rw [Function.update_of_ne hid] at hb
    exact hup i b manifest hb hm

theorem uploaded_drop (hup : Uploaded held) : Uploaded (Function.update held id none) := by
  intro i b manifest hb hm
  by_cases hid : i = id
  · subst hid
    rw [Function.update_self] at hb
    cases hb
  · rw [Function.update_of_ne hid] at hb
    exact hup i b manifest hb hm

theorem stored_uploaded (hup : Uploaded s.held) (hsource : details.source = none)
    (h : Stored env draw s artifactId details payload id held) : Uploaded held := by
  cases h with
  | replayed => exact hup
  | revised manifest old path ht =>
    obtain ⟨hnumbers, hsource'⟩ := hup _ _ _ ht.held_eq ht.manifest_eq
    refine uploaded_set hup ?_
    rintro _ ⟨⟩
    refine ⟨fun revision hr => ?_, hsource'⟩
    rcases List.mem_append.1 hr with hr | hr
    · exact (hnumbers revision hr).trans (Nat.le_succ _)
    · rw [List.mem_singleton.1 hr]
      exact le_rfl
  | created =>
    refine uploaded_set hup ?_
    rintro _ ⟨⟩
    refine ⟨fun revision hr => ?_, hsource⟩
    rw [List.mem_singleton.1 hr]
    exact le_rfl

theorem stored_atMostOne (hone : AtMostOne s.held) (hup : Uploaded s.held)
    (hsource : details.source = none) (hclear : clear env s artifactId payload = true)
    (h : Stored env draw s artifactId details payload id held) : AtMostOne held := by
  cases h with
  | replayed => exact hone
  | revised manifest old path ht =>
    obtain ⟨hnumbers, -⟩ := hup _ _ _ ht.held_eq ht.manifest_eq
    refine atMostOne_claim manifest.artifactId (key env payload) hone
      (fun k i hi => ?_) fun i hi => ?_
    · rcases holds_of_update hi with ⟨-, hi⟩ | ⟨rfl, _, _, ⟨⟩, ⟨⟩, hlive, hof⟩
      · exact Or.inl hi
      · rcases isOf_revised k hnumbers hof with rfl | hof
        · exact Or.inr ⟨rfl, rfl⟩
        · exact Or.inl ⟨old, manifest, ht.held_eq, ht.manifest_eq, hlive, hof⟩
    · have := clear_holds hclear hi
      rw [ht.target_eq] at this
      exact (Option.some.inj this).symm
  | created path htarget =>
    refine atMostOne_claim draw.newId (key env payload) hone
      (fun k i hi => ?_) fun i hi => ?_
    · rcases holds_of_update hi with ⟨-, hi⟩ | ⟨rfl, _, _, ⟨⟩, ⟨⟩, -, hof⟩
      · exact Or.inl hi
      · exact Or.inr ⟨rfl, (isOf_new k hsource).1 hof⟩
    · have := clear_holds hclear hi
      rw [htarget] at this
      cases this

/-- What a call that returns without having named an artifact leaves one of. -/
theorem stored_holds (hmirrored : Mirrored s) (hup : Uploaded s.held)
    (hsource : details.source = none) (hclear : clear env s none payload = true)
    (h : Stored env draw s none details payload id held) : Holds held (key env payload) id := by
  cases h with
  | replayed manifest old current ht hcurrent hsame =>
    refine ⟨old, manifest, ht.held_eq, ht.manifest_eq, ht.removedAt env hmirrored, ?_⟩
    simp only [clear, Option.isSome_none, Bool.false_or, Bool.and_eq_true] at hclear
    have hm : s.manifest? manifest.artifactId = some manifest := by
      rw [Store.manifest?_eq, ht.held_eq, Option.bind_some, ht.manifest_eq]
    simpa [ht.target_eq, hm, hcurrent, hsame] using hclear.2
  | revised manifest old path ht =>
    obtain ⟨hnumbers, hsource'⟩ := hup _ _ _ ht.held_eq ht.manifest_eq
    have hlive : manifest.removedAt = none := ht.removedAt env hmirrored
    exact ⟨_, _, Function.update_self .., rfl, hlive, isOf_revised_key hnumbers hsource'⟩
  | created path =>
    exact ⟨_, _, Function.update_self .., rfl, rfl, (isOf_new _ hsource).2 rfl⟩

/-- What a call that raises, short of tearing a revision, leaves. -/
theorem left_keeps (hone : AtMostOne s.held) (hup : Uploaded s.held)
    (hsource : details.source = none) (hclear : clear env s artifactId payload = true)
    (hfault : fault ≠ some (.manifest .syncing))
    (h : Left env fault draw s artifactId details payload held) :
    AtMostOne held ∧ Uploaded held := by
  cases h with
  | unchanged => exact ⟨hone, hup⟩
  | discarded =>
    refine ⟨atMostOne_subset hone fun k i hi => ?_, uploaded_drop hup⟩
    rcases holds_of_update hi with ⟨-, hi⟩ | ⟨-, _, _, ⟨⟩, -⟩
    exact hi
  | complete hstored =>
    exact ⟨stored_atMostOne hone hup hsource hclear hstored,
      stored_uploaded hup hsource hstored⟩
  | torn _ _ _ _ _ htears => exact absurd htears.1 hfault

end Calls

section Runs

variable (env : Env)

/-- A step of a run: an upload whose commit may fail, a removal, a rebuild. -/
inductive Event where
  | create (request : CreateArtifact) (draw : Draw) (commitFails : Bool)
  | remove (id : Id) (reason : Text) (draw : Draw)
  | rebuild (draw : Draw)

def commitFault (commitFails : Bool) : Fault :=
  if commitFails then some .commit else none

namespace Event

def after (e : Event) (s : Store) : Store :=
  match e with
  | .create request draw commitFails =>
    finalState (createArtifact env (commitFault commitFails) draw request s)
  | .remove id reason draw => finalState (removeArtifact env none draw id reason s)
  | .rebuild draw => finalState (recoverArtifacts env draw s)

/-- An identifier is drawn once. -/
def drawsFresh (e : Event) (s : Store) : Bool :=
  match e with
  | .create _ draw _ => (s.archives.lookup draw.newId).isNone
  | _ => true

def clear (e : Event) (s : Store) : Bool :=
  match e with
  | .create request _ _ => Replay.clear env s request.artifactId (request.upload.payload env)
  | _ => true

end Event

def after (s : Store) (events : List Event) : Store :=
  events.foldl (fun s e => e.after env s) s

def drawsFresh : Store → List Event → Bool
  | _, [] => true
  | s, e :: events => e.drawsFresh s && drawsFresh (e.after env s) events

/-- Every upload of the run finds what the archive holds. -/
def allClear : Store → List Event → Bool
  | _, [] => true
  | s, e :: events => e.clear env s && allClear (e.after env s) events

/-- What every state of a clear run has. -/
structure Sound (s : Store) : Prop where
  mirrored : Mirrored s
  one : AtMostOne s.held
  uploaded : Uploaded s.held

theorem sound_empty : Sound Store.empty where
  mirrored := mirrored_empty
  one := by
    rintro k i j ⟨a, m, h, -⟩
    cases h
  uploaded := by
    intro i a m h
    cases h

theorem commitFault_ne (commitFails : Bool) :
    commitFault commitFails ≠ some (.manifest .syncing) := by
  cases commitFails <;> decide

theorem details_source (request : CreateArtifact) (draw : Draw) :
    (request.details env draw).source = none := rfl

theorem create_sound {request : CreateArtifact} {draw : Draw} {commitFails : Bool} {s : Store}
    (hs : Sound s) (hfresh : (Event.create request draw commitFails).drawsFresh s = true)
    (hclear : Replay.clear env s request.artifactId (request.upload.payload env) = true) :
    wp (createArtifact env (commitFault commitFails) draw request)
      (fun r s' => Sound s' ∧ (request.artifactId = none →
        Holds s'.held (key env (request.upload.payload env)) r.id))
      (fun _ s' => Sound s') s := by
  have hfresh' : s.held draw.newId = none := by
    simpa [Event.drawsFresh, Store.held, view] using hfresh
  have hsource := details_source env request draw
  refine wp_mono (wp_and (createArtifact_wp env (commitFault commitFails) draw request s)
    (createArtifact_mirrored env (commitFault commitFails) draw request s hs.mirrored hfresh'
      (commitFault_ne commitFails))) ?_ ?_
  · rintro r s' ⟨hstored, hmirrored⟩
    refine ⟨⟨hmirrored, stored_atMostOne hs.one hs.uploaded hsource hclear hstored,
      stored_uploaded hs.uploaded hsource hstored⟩, fun hnone => ?_⟩
    rw [hnone] at hstored hclear
    exact stored_holds hs.mirrored hs.uploaded hsource hclear hstored
  · rintro _ s' ⟨hleft, hmirrored⟩
    obtain ⟨hone, hup⟩ := left_keeps hs.one hs.uploaded hsource hclear
      (commitFault_ne commitFails) hleft
    exact ⟨hmirrored, hone, hup⟩

theorem rebuild_held {s : Store} (hs : Sound s) (draw : Draw) :
    Sound (finalState (recoverArtifacts env draw s)) ∧
      (finalState (recoverArtifacts env draw s)).held = s.held := by
  have h := wp_final (P := fun s' => Mirrored s' ∧ s'.held = s.held)
    (recoverArtifacts_wp env draw s hs.mirrored)
  exact ⟨⟨h.1, h.2 ▸ hs.one, h.2 ▸ hs.uploaded⟩, h.2⟩

theorem remove_sound {s : Store} (hs : Sound s) (id : Id) (reason : Text) (draw : Draw) :
    Sound (finalState (removeArtifact env none draw id reason s)) := by
  have marked : ∀ {held : Id → Option Archive} {manifest : Manifest} {old : Archive},
      s.held id = some old → old.manifest = some manifest → held = Function.update s.held id
        (some { old with manifest := some (removedManifest draw manifest reason none) }) →
      AtMostOne held ∧ Uploaded held := by
    rintro _ manifest old hold hm rfl
    obtain ⟨hnumbers, hsource⟩ := hs.uploaded _ _ _ hold hm
    refine ⟨atMostOne_subset hs.one fun k i hi => ?_, uploaded_set hs.uploaded ?_⟩
    · rcases holds_of_update hi with ⟨-, hi⟩ | ⟨-, _, _, ⟨⟩, ⟨⟩, hlive, -⟩
      · exact hi
      · cases hlive
    · rintro _ ⟨⟩
      exact ⟨hnumbers, hsource⟩
  refine wp_final (wp_mono (wp_and (removeArtifact_wp env none draw id reason s)
    (removeArtifact_mirrored env draw id reason s hs.mirrored)) ?_ ?_)
  · rintro _ s' ⟨⟨manifest, old, -, hold, hm, hheld⟩, hmirrored⟩
    obtain ⟨hone, hup⟩ := marked hold hm hheld
    exact ⟨hmirrored, hone, hup⟩
  · rintro _ s' ⟨hheld | ⟨manifest, old, -, hold, hm, hheld⟩, hmirrored⟩
    · exact ⟨hmirrored, hheld ▸ hs.one, hheld ▸ hs.uploaded⟩
    · obtain ⟨hone, hup⟩ := marked hold hm hheld
      exact ⟨hmirrored, hone, hup⟩

theorem event_sound {e : Event} {s : Store} (hs : Sound s) (hfresh : e.drawsFresh s = true)
    (hclear : e.clear env s = true) : Sound (e.after env s) := by
  cases e with
  | create request draw commitFails =>
    exact wp_final (wp_mono (create_sound env hs hfresh hclear) (fun _ _ h => h.1)
      (fun _ _ h => h))
  | remove id reason draw => exact remove_sound env hs id reason draw
  | rebuild draw => exact (rebuild_held env hs draw).1

theorem after_append (s : Store) (events events' : List Event) :
    after env s (events ++ events') = after env (after env s events) events' :=
  List.foldl_append ..

theorem run_sound (events rest : List Event) (s : Store) (hs : Sound s)
    (hfresh : drawsFresh env s (events ++ rest) = true)
    (hclear : allClear env s (events ++ rest) = true) :
    Sound (after env s events) ∧ drawsFresh env (after env s events) rest = true ∧
      allClear env (after env s events) rest = true := by
  induction events generalizing s with
  | nil => exact ⟨hs, hfresh, hclear⟩
  | cons e events ih =>
    simp only [List.cons_append, drawsFresh, allClear, Bool.and_eq_true] at hfresh hclear
    exact ih _ (event_sound env hs hfresh.1 hclear.1) hfresh.2 hclear.2

theorem rebuilds_held (draws : List Draw) (s : Store) (hs : Sound s) :
    (after env s (draws.map .rebuild)).held = s.held := by
  induction draws generalizing s with
  | nil => rfl
  | cons draw draws ih =>
    obtain ⟨hs', hheld⟩ := rebuild_held env hs draw
    exact (ih _ hs').trans hheld

/-- **A retried upload makes one artifact**: in a run in which each upload finds what the
archive holds, an upload that names no artifact and returns leaves exactly one artifact of
its bytes under its filename, or of its link, and any rebuilds leave that one. -/
theorem retried_upload_makes_one (before : List Event) (request : CreateArtifact)
    (draw : Draw) (commitFails : Bool) (draws : List Draw)
    (hfresh : drawsFresh env Store.empty (before ++ [.create request draw commitFails]) = true)
    (hclear : allClear env Store.empty (before ++ [.create request draw commitFails]) = true)
    (hnone : request.artifactId = none)
    (hreturns : returned (createArtifact env (commitFault commitFails) draw request
      (after env Store.empty before)) = true) :
    ExactlyOne (after env Store.empty
        (before ++ .create request draw commitFails :: draws.map .rebuild)).held
      (key env (request.upload.payload env)) := by
  obtain ⟨hs, hfresh, hclear⟩ := run_sound env before _ Store.empty sound_empty hfresh hclear
  simp only [drawsFresh, allClear, Bool.and_eq_true] at hfresh hclear
  obtain ⟨result, s', hresult⟩ := exists_of_returned hreturns
  obtain ⟨hs', hholds⟩ := wp_ok (create_sound env hs hfresh.1 hclear.1) hresult
  have hafter : (Event.create request draw commitFails).after env
      (after env Store.empty before) = s' := by
    rw [Event.after, hresult]
    rfl
  have hheld : (after env Store.empty
      (before ++ .create request draw commitFails :: draws.map .rebuild)).held = s'.held := by
    rw [after_append, after, List.foldl_cons, hafter]
    exact rebuilds_held env draws s' hs'
  rw [hheld]
  exact ⟨result.id, hholds hnone, fun id hid => hs'.one _ id result.id hid (hholds hnone)⟩

/-- No run of clear uploads ever makes a second artifact of a key. -/
theorem run_atMostOne (events : List Event) (hfresh : drawsFresh env Store.empty events = true)
    (hclear : allClear env Store.empty events = true) (n : Nat) :
    AtMostOne (after env Store.empty (events.take n)).held := by
  rw [← List.take_append_drop n events] at hfresh hclear
  exact (run_sound env _ _ Store.empty sound_empty hfresh hclear).1.one

end Runs

section Samples

def firstDraw : Draw := ⟨0, 0, "01ARZ3NDEKTSV4RRFFQ69G5FAV".toList⟩

def secondDraw : Draw := ⟨1, 1, "01ARZ3NDEKTSV4RRFFQ69G5FAW".toList⟩

def uploadOne : CreateArtifact where
  title := none
  date := some 0
  tags := []
  origin := "api".toList
  artifactId := none
  upload := .file "a.bin".toList none bytesOne

theorem retried_upload_makes_one_sample :
    ExactlyOne (after sampleEnv Store.empty
        ([.create uploadOne firstDraw true, .rebuild firstDraw] ++
          .create uploadOne secondDraw false :: [secondDraw].map .rebuild)).held
      (key sampleEnv (uploadOne.upload.payload sampleEnv)) :=
  retried_upload_makes_one sampleEnv [.create uploadOne firstDraw true, .rebuild firstDraw]
    uploadOne secondDraw false [secondDraw] (by decide +kernel) (by decide +kernel) rfl
    (by decide +kernel)

/-- The first upload's commit fails behind its complete files, and the retry makes a second
artifact of the same bytes under the same filename. -/
theorem retry_after_failed_commit_makes_two :
    ¬ ∀ (env : Env) (before : List Event) (request : CreateArtifact) (draw : Draw)
        (commitFails : Bool) (draws : List Draw),
      drawsFresh env Store.empty (before ++ [.create request draw commitFails]) = true →
      request.artifactId = none →
      returned (createArtifact env (commitFault commitFails) draw request
        (after env Store.empty before)) = true →
      ExactlyOne (after env Store.empty
          (before ++ .create request draw commitFails :: draws.map .rebuild)).held
        (key env (request.upload.payload env)) := by
  intro hall
  obtain ⟨id, -, hone⟩ := hall sampleEnv [.create uploadOne firstDraw true] uploadOne secondDraw
    false [] (by decide +kernel) rfl (by decide +kernel)
  have hfirst : firstDraw.newId ∈ holders (after sampleEnv Store.empty
      [.create uploadOne firstDraw true, .create uploadOne secondDraw false])
      (key sampleEnv (uploadOne.upload.payload sampleEnv)) := by decide +kernel
  have hsecond : secondDraw.newId ∈ holders (after sampleEnv Store.empty
      [.create uploadOne firstDraw true, .create uploadOne secondDraw false])
      (key sampleEnv (uploadOne.upload.payload sampleEnv)) := by decide +kernel
  have heq := (hone _ (mem_holders.1 hfirst)).trans (hone _ (mem_holders.1 hsecond)).symm
  exact absurd heq (by decide)

end Samples

end Coppermind.Artifacts.Replay
