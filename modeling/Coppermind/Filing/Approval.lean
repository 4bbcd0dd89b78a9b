import Coppermind.Filing.File
import Coppermind.Sources.Citation

/-!
# What a filing pass publishes is approved

A pass looks at the record of a review once, and at the note's file twice; it publishes later,
under whatever the record says then.  Where no review changes what is approved in between, and no
edit takes the mark off the note between the last reading and the publication, what is published
is what the last recorded review approved: the pages the pass placed, the attachments, and the
revision of each row.
-/

namespace Coppermind.Filing

open Coppermind.Lib Coppermind.Lib.Text Coppermind.Lib.Task Coppermind.Frontmatter Coppermind.Schema
open Coppermind.Artifacts (NotePath)
open Coppermind.Notes (FileBytes NoteId strOf isTrue strValue jsonable jsonableEntries)
open Coppermind.Reconciler (Review)
open Coppermind.Sources (SourceId get?_ordered)

section Conditions

variable (env : Env) (id : NoteId)

/-- The revision the last recorded review of a note approves for a source. -/
def approvedAt (w : World) (id : NoteId) (source : PyStr) : Option Nat :=
  World.approvedFor (w.reviews.lookup id) source

/-- A file of the note, marked reviewed, stands at a path. -/
def HasMark (w : World) (path : NotePath) : Prop :=
  ∃ data, w.file? path = some data ∧ marks env id data = true

/-- **A publication of approved material**: the note's file is marked reviewed, what the pass
placed is what the last recorded review approved, so is the revision of each row, and nothing of it
arrived after that review. -/
structure Publication.IsApproved (p : Publication) : Prop where
  marked : ∃ data, p.file = some (.file data) ∧ marks env p.noteId data = true
  placed : ∀ x ∈ p.placed, World.approvedFor p.review (PyStr.ofText x.1) = some x.2
  rows : ∀ x ∈ p.rows, x.2 = World.approvedFor p.review x.1
  placed_before : ∀ x ∈ p.placed, x ∉ p.since
  rows_before : ∀ x ∈ p.rows, ∀ y ∈ p.since, PyStr.ofText y.1 = x.1 → x.2 ≠ some y.2

/-- The steps after the pass has read the record of the review. -/
def Site.isPastApproval : Site → Bool
  | .row r | .lookAt r | .follow r | .repair r | .read r | .followAgain r | .repairAgain r
  | .readAgain r | .filingState r => r != .first
  | .journal | .lifecycle | .manifests | .review => false
  | _ => true

/-- The steps after a reading of the note's file that a publication may follow without another. -/
def Site.isPastReading : Site → Bool
  | .filingState r => r == .first || r == .move
  | .journal | .lifecycle | .manifests | .review | .saveReview => true
  | .rememberSave r => r == .again
  | .flush | .link | .unlinkNote | .undoLink | .moveCommit => true
  | .saveComplete | .approved | .publish => true
  | _ => false

/-- An event that leaves what is approved, once the pass has looked, and the note's mark, once it
has read it. -/
structure Permitted (site : Site) (e : Event) (w : World) : Prop where
  approval : site.isPastApproval = true →
    ∀ source, approvedAt (e.apply env w) id source = approvedAt w id source
  mark : site.isPastReading = true → ∀ path, HasMark env id w path → HasMark env id (e.apply env w) path

/-- A turn of the store: an event, or a step of the pass of a note. -/
def storeTurn : Scene Site World Raised Bool NoteId → Turn NoteId Event →
    Scene Site World Raised Bool NoteId :=
  turn (Event.apply env) Event.enabled (fileNote env)

/-- A turn that disturbs no running pass; a review that a pass records itself, where it writes the
note, is one that leaves what is approved.  The identity of a note is a string. -/
def Undisturbed (scene : Scene Site World Raised Bool NoteId) : Turn NoteId Event → Prop
  | .event e => ∀ id site, scene.site? = some (id, site) → Permitted env id site e scene.world
  | .start id => ∀ c ∈ id, c < 0x110000
  | .resume => ∀ id, scene.site? = some (id, .replaceReview) → ∀ source,
      approvedAt (storeTurn env scene .resume).world id source = approvedAt scene.world id source
  | _ => True

/-- The current revision of a source. -/
def currentOf (w : World) (id : SourceId) : Option Nat :=
  (w.manifests.lookup id).map (·.currentRevision)

/-- **The store is well kept**: no record and no plan names a revision that has not arrived, what
arrived since a review is not what it approves, and what was published was approved. -/
structure WellKept (w : World) : Prop where
  approved_le : ∀ id source r, approvedAt w id source = some r →
    ∃ c, currentOf w (source.map Char.ofNat) = some c ∧ r ≤ c
  planned_le : ∀ id plan, w.journals.lookup id = some plan → ∀ item ∈ plan.items,
    ∃ c, currentOf w item.id = some c ∧ item.revision ≤ c
  since_lt : ∀ id x, x ∈ w.since id → ∀ r, approvedAt w id (PyStr.ofText x.1) = some r → r < x.2
  published : ∀ p ∈ w.published, p.IsApproved env

end Conditions

section Events

variable {env : Env} {w w' : World}

/-- What the store keeps well is kept where none of it changes. -/
theorem WellKept.of_same (h : WellKept env w) (hreviews : w'.reviews = w.reviews)
    (hmanifests : w'.manifests = w.manifests) (hjournals : w'.journals = w.journals)
    (hsince : w'.since = w.since) (hpublished : w'.published = w.published) : WellKept env w' where
  approved_le := by
    intro id source r hr
    rw [approvedAt, hreviews] at hr
    rw [currentOf, hmanifests]
    exact h.approved_le id source r hr
  planned_le := by
    intro id plan hplan item hitem
    rw [hjournals] at hplan
    rw [currentOf, hmanifests]
    exact h.planned_le id plan hplan item hitem
  since_lt := by
    intro id x hx r hr
    rw [hsince] at hx
    rw [approvedAt, hreviews] at hr
    exact h.since_lt id x hx r hr
  published := by
    rw [hpublished]
    exact h.published

theorem approvedAt_setReview_self (id : NoteId) (review : Review) (source : PyStr) :
    approvedAt (w.setReview id review) id source = World.approvedFor (some review) source := by
  rw [approvedAt, World.setReview, AList.lookup_insert]

theorem approvedAt_setReview_of_ne {id other : NoteId} (h : other ≠ id) (review : Review)
    (source : PyStr) : approvedAt (w.setReview id review) other source = approvedAt w other source := by
  rw [approvedAt, World.setReview, AList.lookup_insert_ne h, approvedAt]

/-- A record that names current revisions may be saved. -/
theorem WellKept.setReview (h : WellKept env w) (id : NoteId) {review : Review}
    (hreview : ∀ source r, World.approvedFor (some review) source = some r →
      ∃ c, currentOf w (source.map Char.ofNat) = some c ∧ r ≤ c) :
    WellKept env (w.setReview id review) where
  approved_le := by
    intro other source r hr
    by_cases hother : other = id
    · subst hother
      rw [approvedAt_setReview_self] at hr
      exact hreview source r hr
    · rw [approvedAt_setReview_of_ne hother] at hr
      exact h.approved_le other source r hr
  planned_le := h.planned_le
  since_lt := by
    intro other x hx r hr
    by_cases hother : other = id
    · subst hother
      simp [World.setReview] at hx
    · rw [approvedAt_setReview_of_ne hother] at hr
      simp only [World.setReview, Function.update_of_ne hother] at hx
      exact h.since_lt other x hx r hr
  published := h.published

theorem approvedFor_eq_some {review : Review} {source : PyStr} {r : Nat}
    (h : World.approvedFor (some review) source = some r) : (source, some r) ∈ review.sources := by
  unfold World.approvedFor at h
  rw [Option.bind_some, Option.join_eq_some_iff, Option.map_eq_some_iff] at h
  obtain ⟨pair, hfind, hpair⟩ := h
  obtain ⟨source', revision⟩ := pair
  obtain rfl : revision = some r := hpair
  have hsource : source' = source := by simpa using List.find?_some hfind
  rw [← hsource]
  exact List.mem_of_find?_eq_some hfind

/-- What `record_review` approves is current. -/
theorem current_of_reviewOf {frontmatter : Entries} {review : Review}
    (h : Reconciler.reviewOf env.schema w.sourceManifest frontmatter = .ok review) {source : PyStr}
    {r : Nat} (hr : World.approvedFor (some review) source = some r) :
    currentOf w (source.map Char.ofNat) = some r := by
  have hmem := approvedFor_eq_some hr
  unfold Reconciler.reviewOf at h
  split at h
  · split at h
    · cases h
    · next sources _ =>
      cases happroved : (sources.insertionSort fun s t => Notes.strLe s t).mapM (fun source => do
          let revision ← Reconciler.approvedRevision (w.sourceManifest source)
          return (source, revision)) with
      | error e =>
        rw [happroved] at h
        cases h
      | ok approved =>
        rw [happroved] at h
        obtain rfl : (⟨true, approved⟩ : Review) = review := Except.ok.inj h
        obtain ⟨source', -, hsource⟩ :=
          forall₂_mem_left (mapM_eq_ok.1 happroved).flip hmem
        unfold World.sourceManifest at hsource
        split at hsource
        · next m hm =>
          split at hsource
          · have heq : (source', some m.currentRevision) = (source, some r) := Except.ok.inj hsource
            cases heq
            rw [currentOf, hm, Option.map_some]
          · have heq : (source', none) = (source, some r) := Except.ok.inj hsource
            cases heq
        · have heq : (source', none) = (source, some r) := Except.ok.inj hsource
          cases heq
  · obtain rfl : (⟨false, []⟩ : Review) = review := Except.ok.inj h
    cases hmem

theorem WellKept.recordReview (h : WellKept env w) {id : NoteId} {frontmatter : Entries}
    (hrecord : recordReview env id frontmatter w = .ok w') : WellKept env w' := by
  unfold Filing.recordReview at hrecord
  split at hrecord
  · next review hreview =>
    obtain rfl := Except.ok.inj hrecord
    exact h.setReview id fun source r hr => ⟨r, current_of_reviewOf hreview hr, le_rfl⟩
  · cases hrecord

/-- Manifests may move on to later revisions. -/
def Advances (w w' : World) : Prop :=
  ∀ id c, currentOf w id = some c → ∃ c', currentOf w' id = some c' ∧ c ≤ c'

theorem Advances.refl (w : World) : Advances w w := fun _ c h => ⟨c, h, le_rfl⟩

theorem Advances.trans {w'' : World} (h : Advances w w') (h' : Advances w' w'') :
    Advances w w'' := by
  intro id c hc
  obtain ⟨c', hc', hle⟩ := h id c hc
  obtain ⟨c'', hc'', hle'⟩ := h' id c' hc'
  exact ⟨c'', hc'', hle.trans hle'⟩

theorem Advances.of_manifests (h : w'.manifests = w.manifests) : Advances w w' := by
  intro id c hc
  refine ⟨c, ?_, le_rfl⟩
  rwa [currentOf, h]

theorem manifests_recordReview {id : NoteId} {frontmatter : Entries}
    (hrecord : recordReview env id frontmatter w = .ok w') : w'.manifests = w.manifests := by
  unfold Filing.recordReview at hrecord
  split at hrecord
  · obtain rfl := Except.ok.inj hrecord
    rfl
  · cases hrecord

/-- The revision an arrival brings is past the current one. -/
theorem currentOf_ingest (id : SourceId) (arrival : Arrival) :
    ∃ v, currentOf (Event.apply env (.ingest id arrival) w) id = some v ∧
      (Event.apply env (.ingest id arrival) w).since = (fun note => (id, v) :: w.since note) ∧
      ∀ c, currentOf w id = some c → c < v := by
  refine ⟨(arrival.manifest (w.manifests.lookup id)).currentRevision, ?_, rfl, ?_⟩
  · change ((w.manifests.insert id _).lookup id).map _ = _
    rw [AList.lookup_insert, Option.map_some]
  · intro c hc
    rw [currentOf, Option.map_eq_some_iff] at hc
    obtain ⟨m, hm, rfl⟩ := hc
    rw [hm]
    exact Nat.lt_succ_self _

theorem currentOf_ingest_of_ne {id other : SourceId} (h : other ≠ id) (arrival : Arrival) :
    currentOf (Event.apply env (.ingest id arrival) w) other = currentOf w other := by
  change ((w.manifests.insert id _).lookup other).map _ = _
  rw [AList.lookup_insert_ne h, currentOf]

theorem advances_ingest (id : SourceId) (arrival : Arrival) :
    Advances w (Event.apply env (.ingest id arrival) w) := by
  intro other c hc
  by_cases hother : other = id
  · subst hother
    obtain ⟨v, hv, -, hlt⟩ := @currentOf_ingest env w other arrival
    exact ⟨v, hv, (hlt c hc).le⟩
  · exact ⟨c, by rw [currentOf_ingest_of_ne hother, hc], le_rfl⟩

theorem WellKept.ingest (h : WellKept env w) (id : SourceId) (arrival : Arrival) :
    WellKept env (Event.apply env (.ingest id arrival) w) := by
  obtain ⟨v, -, hsince, hlt⟩ := @currentOf_ingest env w id arrival
  have hadvance := @advances_ingest env w id arrival
  constructor
  · intro note source r hr
    obtain ⟨c, hc, hle⟩ := h.approved_le note source r hr
    obtain ⟨c', hc', hle'⟩ := hadvance _ c hc
    exact ⟨c', hc', hle.trans hle'⟩
  · intro note plan hplan item hitem
    obtain ⟨c, hc, hle⟩ := h.planned_le note plan hplan item hitem
    obtain ⟨c', hc', hle'⟩ := hadvance _ c hc
    exact ⟨c', hc', hle.trans hle'⟩
  · intro note x hx r hr
    rw [hsince] at hx
    obtain rfl | hx := List.mem_cons.1 hx
    · obtain ⟨c, hc, hle⟩ := h.approved_le note _ r hr
      rw [Sources.map_ofNat_ofText] at hc
      exact hle.trans_lt (hlt c hc)
    · exact h.since_lt note x hx r hr
  · exact h.published

theorem WellKept.apply (h : WellKept env w) (e : Event) : WellKept env (e.apply env w) := by
  cases e with
  | edit path data =>
    cases data with
    | some data => exact h.of_same rfl rfl rfl rfl rfl
    | none => exact h.of_same rfl rfl rfl rfl rfl
  | review id frontmatter =>
    unfold Event.apply
    dsimp only
    split
    · next w' hrecord => exact h.recordReview hrecord
    · exact h
  | mirror id row => exact h.of_same rfl rfl rfl rfl rfl
  | ingest id arrival => exact h.ingest id arrival

theorem advances_apply (e : Event) : Advances w (e.apply env w) := by
  cases e with
  | edit path data => cases data <;> exact Advances.of_manifests rfl
  | review id frontmatter =>
    unfold Event.apply
    dsimp only
    split
    · next w' hrecord => exact Advances.of_manifests (manifests_recordReview hrecord)
    · exact Advances.refl w
  | mirror id row => exact Advances.of_manifests rfl
  | ingest id arrival => exact advances_ingest id arrival

end Events

section Weather

variable (env : Env) (id : NoteId)

/-- One event that may have its turn before a step of a pass, and does not disturb it. -/
def Allowed (site : Site) (w w' : World) : Prop :=
  ∃ e : Event, e.enabled (some (id, site)) = true ∧ Permitted env id site e w ∧ w' = e.apply env w

/-- What a pass has to expect: events that do not disturb it, a review of its own that approves
nothing else, and any step failing. -/
def passWeather : Weather Site World where
  others site := Relation.ReflTransGen (Allowed env id site)
  takes site w w' := site = .replaceReview → ∀ source, approvedAt w' id source = approvedAt w id source
  fails _ := True

/-- What others leave of the world before a step. -/
structure Left (site : Site) (w w' : World) : Prop where
  kept : WellKept env w → WellKept env w'
  approval : site.isPastApproval = true → ∀ source, approvedAt w' id source = approvedAt w id source
  mark : site.isPastReading = true → ∀ path, HasMark env id w path → HasMark env id w' path
  journals : w'.journals = w.journals
  advances : Advances w w'
  reviews : site.awaits = false → w'.reviews = w.reviews
  manifests : site.awaits = false → w'.manifests = w.manifests
  held : ∀ source, site.holds = some source →
    w'.manifests.lookup source = w.manifests.lookup source

variable {env id} {site : Site} {w w' : World}

theorem Left.refl : Left env id site w w where
  kept := fun h => h
  approval := fun _ _ => rfl
  mark := fun _ _ h => h
  journals := rfl
  advances := Advances.refl w
  reviews := fun _ => rfl
  manifests := fun _ => rfl
  held := fun _ _ => rfl

theorem Left.trans {w'' : World} (h : Left env id site w w') (h' : Left env id site w' w'') :
    Left env id site w w'' where
  kept := fun hw => h'.kept (h.kept hw)
  approval := fun hpast source => (h'.approval hpast source).trans (h.approval hpast source)
  mark := fun hpast path hmark => h'.mark hpast path (h.mark hpast path hmark)
  journals := h'.journals.trans h.journals
  advances := h.advances.trans h'.advances
  reviews := fun hawaits => (h'.reviews hawaits).trans (h.reviews hawaits)
  manifests := fun hawaits => (h'.manifests hawaits).trans (h.manifests hawaits)
  held := fun source hheld => (h'.held source hheld).trans (h.held source hheld)

theorem journals_apply (e : Event) : (e.apply env w).journals = w.journals := by
  cases e with
  | edit path data => cases data <;> rfl
  | review id frontmatter =>
    unfold Event.apply
    dsimp only
    split
    · next w' hrecord =>
      unfold recordReview at hrecord
      split at hrecord
      · obtain rfl := Except.ok.inj hrecord
        rfl
      · cases hrecord
    · rfl
  | mirror id row => rfl
  | ingest id arrival => rfl

/-- Only an ingest of a source touches its manifest. -/
theorem manifests_apply {e : Event} {source : SourceId}
    (h : ∀ arrival, e ≠ .ingest source arrival) :
    (e.apply env w).manifests.lookup source = w.manifests.lookup source := by
  cases e with
  | edit path data => cases data <;> rfl
  | review id frontmatter =>
    unfold Event.apply
    dsimp only
    split
    · next w' hrecord => rw [manifests_recordReview hrecord]
    · rfl
  | mirror id row => rfl
  | ingest other arrival =>
    apply AList.lookup_insert_ne
    rintro rfl
    exact h arrival rfl

theorem Allowed.left (h : Allowed env id site w w') : Left env id site w w' := by
  obtain ⟨e, henabled, hpermitted, rfl⟩ := h
  refine ⟨fun hw => hw.apply e, hpermitted.approval, hpermitted.mark, journals_apply e,
    advances_apply e, ?_, ?_, ?_⟩
  · intro hawaits
    cases e with
    | edit path data => cases data <;> rfl
    | _ => simp [Event.enabled, hawaits] at henabled
  · intro hawaits
    cases e with
    | edit path data => cases data <;> rfl
    | _ => simp [Event.enabled, hawaits] at henabled
  · intro source hheld
    apply manifests_apply
    rintro arrival rfl
    simp [Event.enabled, hheld] at henabled

theorem left_of_others (h : (passWeather env id).others site w w') : Left env id site w w' := by
  induction h with
  | refl => exact Left.refl
  | tail _ hlast ih => exact ih.trans hlast.left

end Weather

section Steps

variable {env : Env} {id : NoteId} {s : World} {α : Type} {Q : α → World → Prop}

/-- What a run of a task leads to in this weather; the store stays well kept. -/
def Does (env : Env) (id : NoteId) (Q : α → World → Prop) (t : Op α) (s : World) : Prop :=
  Task.wp (passWeather env id) (fun _ => WellKept env) Q (fun _ => WellKept env) t s

theorem does_step {site : Site} {effect : World → World} {rest : World → Op α} {failed : Op α}
    (hs : WellKept env s)
    (hrest : ∀ s', Left env id site s s' → WellKept env s' →
      (site = .replaceReview → ∀ source, approvedAt (effect s') id source = approvedAt s' id source) →
      Does env id Q (rest s') (effect s'))
    (hfailed : ∀ s', Left env id site s s' → WellKept env s' → Does env id Q failed s') :
    Does env id Q (step site effect rest failed) s := by
  refine ⟨hs, fun s' hothers => ?_⟩
  have hleft := left_of_others hothers
  have hkept := hleft.kept hs
  exact ⟨fun htaken => hrest s' hleft hkept htaken, fun _ => hfailed s' hleft hkept⟩

theorem does_raised {e : Raised} (hs : WellKept env s) : Does env id Q (raised e) s := hs

theorem does_look {site : Site} {e : Raised} {f : World → α} (hs : WellKept env s)
    (hQ : ∀ s', Left env id site s s' → WellKept env s' → Q (f s') s') :
    Does env id Q (look site e f) s :=
  does_step hs (fun s' hleft hkept _ => hQ s' hleft hkept) fun _ _ hkept => hkept

theorem does_act {Q : Unit → World → Prop} {site : Site} {e : Raised} {f : World → World}
    (hs : WellKept env s) (hQ : ∀ s', Left env id site s s' → WellKept env s' → Q () (f s')) :
    Does env id Q (act site e f) s :=
  does_step hs (fun s' hleft hkept _ => hQ s' hleft hkept) fun _ _ hkept => hkept

theorem does_lookOr {site : Site} {e : Raised} {f : World → Except Raised α} (hs : WellKept env s)
    (hQ : ∀ s' a, Left env id site s s' → WellKept env s' → f s' = .ok a → Q a s') :
    Does env id Q (lookOr site e f) s := by
  refine does_step hs (fun s' hleft hkept _ => ?_) fun _ _ hkept => hkept
  cases hf : f s' with
  | ok a => exact hQ s' a hleft hkept hf
  | error e' => exact hkept

theorem does_ofExcept {x : Except Raised α} (hs : WellKept env s)
    (hQ : ∀ a, x = .ok a → Q a s) : Does env id Q (ofExcept x) s :=
  Task.wp_ofExcept hQ fun _ _ => hs

theorem does_raiseIf {Q : Unit → World → Prop} {failing : Bool} {e : Raised} (hs : WellKept env s)
    (hQ : failing = false → Q () s) : Does env id Q (raiseIf failing e) s := by
  cases failing with
  | false => exact hQ rfl
  | true => exact hs

theorem does_bind {β : Type} {Q : β → World → Prop} {R : α → World → Prop} {t : Op α}
    {k : α → Op β} (ht : Does env id R t s) (hk : ∀ a s', R a s' → Does env id Q (k a) s') :
    Does env id Q (t >>= k) s :=
  Task.wp_seq ht hk

theorem does_pure {a : α} (h : Q a s) : Does env id Q (pure a) s := h

/-- Whatever raises leaves the store well kept, and so does the handler. -/
theorem does_catch {t : Op α} {handler : Raised → Op α} (ht : Does env id Q t s)
    (hhandler : ∀ e s', WellKept env s' → Does env id Q (handler e) s') :
    Does env id Q (catchRaised t handler) s :=
  Task.wp_catchRaised.2 (Task.wp_mono ht (fun _ _ h => h) (fun _ _ h => h) hhandler)

theorem does_mono {Q' : α → World → Prop} {t : Op α} (h : Does env id Q t s)
    (hQ : ∀ a s', Q a s' → Q' a s') : Does env id Q' t s :=
  Task.wp_mono h (fun _ _ h => h) hQ fun _ _ h => h

end Steps

section Reading

variable {env : Env} {id : NoteId} {s : World} {P : World → Prop}

/-- A property of a well kept store that others leave, before the steps in question, and that the
rows of the notes have no part in. -/
structure Lasting (env : Env) (id : NoteId) (sites : List Site) (P : World → Prop) : Prop where
  kept : ∀ s, P s → WellKept env s
  left : ∀ site ∈ sites, ∀ s s', P s → Left env id site s s' → WellKept env s' → P s'
  rows : ∀ s rows, P s → P { s with rows }

theorem Lasting.mono {sites sites' : List Site} (h : Lasting env id sites P) (hsub : sites' ⊆ sites) :
    Lasting env id sites' P :=
  ⟨h.kept, fun site hsite => h.left site (hsub hsite), h.rows⟩

theorem Lasting.setRow {sites : List Site} (h : Lasting env id sites P) (other : NoteId)
    (row : NoteRow) (hs : P s) : P (s.setRow other row) :=
  h.rows s _ hs

theorem Lasting.repairLocation {sites : List Site} (h : Lasting env id sites P)
    (previous observed : NotePath) (hs : P s) : P (repairLocation id previous observed s) := by
  unfold Filing.repairLocation
  split
  · split
    · exact h.setRow _ _ hs
    · exact hs
  · exact hs

theorem Lasting.updateRow {sites : List Site} (h : Lasting env id sites P) (f : NoteRow → NoteRow)
    (hs : P s) : P (updateRow id f s) := by
  unfold Filing.updateRow
  split
  · exact h.setRow _ _ hs
  · exact hs

def locateSites (r : Reading) : List Site := [.row r, .lookAt r, .follow r, .repair r]

def readSites (r : Reading) : List Site :=
  locateSites r ++ [.read r, .followAgain r, .repairAgain r, .readAgain r, .filingState r]

theorem follow_does {look repair : Site} {previous : NotePath} (h : Lasting env id [look, repair] P)
    (hs : P s) : Does env id (fun _ => P) (follow env id look repair previous) s := by
  apply does_bind (R := fun _ => P)
  · apply does_look (h.kept s hs)
    intro s' hleft hkept
    exact h.left look (by simp) s s' hs hleft hkept
  · intro paths s' hs'
    split
    · apply does_bind (R := fun _ => P)
      · apply does_act (h.kept s' hs')
        intro s'' hleft hkept
        exact h.repairLocation _ _ (h.left repair (by simp) s' s'' hs' hleft hkept)
      · intro _ s'' hs''
        exact does_pure hs''
    · exact does_raised (h.kept s' hs')

theorem locate_does {r : Reading} (h : Lasting env id (locateSites r) P) (hs : P s) :
    Does env id (fun _ => P) (locate env id r) s := by
  apply does_bind (R := fun _ => P)
  · apply does_look (h.kept s hs)
    intro s' hleft hkept
    exact h.left (.row r) (by simp [locateSites]) s s' hs hleft hkept
  · intro found s' hs'
    cases found with
    | none => exact does_raised (h.kept s' hs')
    | some row =>
      apply does_bind (R := fun _ => P)
      · exact does_raiseIf (h.kept s' hs') fun _ => hs'
      · intro _ s₁ hs₁
        apply does_bind (R := fun _ => P)
        · apply does_look (h.kept s₁ hs₁)
          intro s₂ hleft hkept
          exact h.left (.lookAt r) (by simp [locateSites]) s₁ s₂ hs₁ hleft hkept
        · intro here s₂ hs₂
          cases here with
          | true => exact does_pure hs₂
          | false => exact follow_does (h.mono (by simp [locateSites])) hs₂

/-- The bytes of a note, as they stand at a path. -/
theorem readFile_does {site : Site} {path : NotePath} (h : Lasting env id [site] P) (hs : P s) :
    Does env id (fun data s' => P s' ∧ s'.file? path = some data) (readFile site path) s := by
  apply does_lookOr (h.kept s hs)
  intro s' data hleft hkept hread
  refine ⟨h.left site (by simp) s s' hs hleft hkept, ?_⟩
  split at hread
  · next data' hdata =>
    cases hread
    exact hdata
  · cases hread

/-- Bytes that are a note's, marked reviewed, stand behind a document. -/
def IsMarked (env : Env) (id : NoteId) (note : Document) : Prop :=
  ∃ data, env.lib.hash data = note.contentHash ∧ marks env id data = true

theorem marks_of_parse {data : FileBytes} {frontmatter : Entries} {body : Text}
    (hparse : parseNote env id data = .ok (frontmatter, body))
    (hreviewed : isReviewed env (jsonableEntries env.lib.py frontmatter []) = true) :
    marks env id data = true := by
  rw [marks, hparse]
  exact hreviewed

/-- What a reading of a note knows of the note it returns. -/
structure Knows (env : Env) (id : NoteId) (P : World → Prop) (r : Reading) (note : Document)
    (s : World) : Prop where
  lasts : P s
  json : ∃ frontmatter, note.frontmatter = jsonableEntries env.lib.py frontmatter []
  marked : isReviewed env note.frontmatter = true → IsMarked env id note
  mark : r = .first → isReviewed env note.frontmatter = true → HasMark env id s note.path

theorem knows_of_parse {path : NotePath} {data : FileBytes} {frontmatter : Entries} {body : Text}
    {r : Reading} (hs : P s) (hfile : s.file? path = some data)
    (hparse : parseNote env id data = .ok (frontmatter, body)) :
    Knows env id P r (documentOf env path data frontmatter body) s where
  lasts := hs
  json := ⟨frontmatter, rfl⟩
  marked := fun hreviewed => ⟨data, rfl, marks_of_parse hparse hreviewed⟩
  mark := fun _ hreviewed => ⟨data, hfile, marks_of_parse hparse hreviewed⟩

theorem documentAt_does {r : Reading} {path : NotePath} {data : FileBytes}
    (h : Lasting env id (readSites r) P) (hs : P s) (hdata : s.file? path = some data) :
    Does env id (Knows env id P r) (documentAt env id r path data) s := by
  unfold documentAt
  cases hparse : parseNote env id data with
  | ok parsed => exact does_pure (knows_of_parse hs hdata hparse)
  | error e =>
    cases e with
    | notFound =>
      apply does_bind (R := fun _ => P)
      · exact follow_does (h.mono (by simp [readSites])) hs
      intro path s₁ hs₁
      apply does_bind
      · exact readFile_does (h.mono (by simp [readSites])) hs₁
      rintro data s₂ ⟨hs₂, hdata⟩
      apply does_bind (R := fun parsed s' => s' = s₂ ∧ parseNote env id data = .ok parsed)
      · exact does_ofExcept (h.kept s₂ hs₂) fun parsed hparsed => ⟨rfl, hparsed⟩
      rintro parsed s₃ ⟨hs₃, hparsed⟩
      subst hs₃
      exact does_pure (knows_of_parse hs₂ hdata hparsed)
    | _ => exact does_raised (h.kept s hs)

/-- `get_note` keeps what lasts, and a note it returns as reviewed stands so in the tree. -/
theorem getNote_does {r : Reading} (h : Lasting env id (readSites r) P) (hs : P s) :
    Does env id (Knows env id P r) (getNote env id r) s := by
  apply does_bind (R := fun _ => P)
  · exact locate_does (h.mono (by simp [readSites])) hs
  intro path s₁ hs₁
  apply does_bind
  · exact readFile_does (h.mono (by simp [readSites])) hs₁
  rintro data s₂ ⟨hs₂, hdata⟩
  apply does_bind
  · exact documentAt_does h hs₂ hdata
  intro note s₃ hnote
  apply does_bind (R := fun _ => Knows env id P r note)
  · apply does_look (h.kept s₃ hnote.lasts)
    intro s₄ hleft hkept
    refine ⟨h.left (.filingState r) (by simp [readSites]) s₃ s₄ hnote.lasts hleft hkept, hnote.json,
      hnote.marked, ?_⟩
    intro hfirst hreviewed
    subst hfirst
    exact hleft.mark rfl note.path (hnote.mark rfl hreviewed)
  intro _ s₄ hs₄
  exact does_pure hs₄

end Reading

section During

variable {env : Env} {id : NoteId} {r : PyStr → Option Nat} {items : List Item} {s : World}

/-- Every item names a revision that has arrived. -/
def Planned (items : List Item) (w : World) : Prop :=
  ∀ item ∈ items, ∃ c, currentOf w item.id = some c ∧ item.revision ≤ c

theorem Planned.advances {w w' : World} (h : Planned items w) (hadvances : Advances w w') :
    Planned items w' := by
  intro item hitem
  obtain ⟨c, hc, hle⟩ := h item hitem
  obtain ⟨c', hc', hle'⟩ := hadvances _ c hc
  exact ⟨c', hc', hle.trans hle'⟩

/-- A pass is past its approval check: the record approves `r`, and the items have arrived. -/
structure During (env : Env) (id : NoteId) (r : PyStr → Option Nat) (items : List Item) (w : World) :
    Prop where
  kept : WellKept env w
  approved : ∀ source, approvedAt w id source = r source
  planned : Planned items w

theorem During.left {site : Site} {s' : World} (hpast : site.isPastApproval = true)
    (h : During env id r items s) (hleft : Left env id site s s') (hkept : WellKept env s') :
    During env id r items s' where
  kept := hkept
  approved := fun source => (hleft.approval hpast source).trans (h.approved source)
  planned := h.planned.advances hleft.advances

/-- What is neither reviews, manifests, journals nor history is no part of it. -/
theorem During.of_same {s' : World} (h : During env id r items s) (hreviews : s'.reviews = s.reviews)
    (hmanifests : s'.manifests = s.manifests) (hjournals : s'.journals = s.journals)
    (hsince : s'.since = s.since) (hpublished : s'.published = s.published) :
    During env id r items s' where
  kept := h.kept.of_same hreviews hmanifests hjournals hsince hpublished
  approved := by
    intro source
    rw [approvedAt, hreviews]
    exact h.approved source
  planned := h.planned.advances (Advances.of_manifests hmanifests)

theorem lasting_during {sites : List Site} (hpast : ∀ site ∈ sites, site.isPastApproval = true) :
    Lasting env id sites (During env id r items) where
  kept := fun _ h => h.kept
  left := fun site hsite _ _ h hleft hkept => h.left (hpast site hsite) hleft hkept
  rows := fun _ _ h => h.of_same rfl rfl rfl rfl rfl

/-- The note stands marked at a path beside it. -/
def Marked (env : Env) (id : NoteId) (r : PyStr → Option Nat) (items : List Item) (path : NotePath)
    (w : World) : Prop :=
  During env id r items w ∧ HasMark env id w path

theorem Marked.left {site : Site} {path : NotePath} {s' : World}
    (hpast : site.isPastApproval = true) (hread : site.isPastReading = true)
    (h : Marked env id r items path s) (hleft : Left env id site s s') (hkept : WellKept env s') :
    Marked env id r items path s' :=
  ⟨h.1.left hpast hleft hkept, hleft.mark hread path h.2⟩

/-- A plan whose items have arrived may be saved. -/
theorem WellKept.setJournal (h : WellKept env s) (other : NoteId) {plan : Plan}
    (hplan : Planned plan.items s) : WellKept env (s.setJournal other plan) where
  approved_le := h.approved_le
  planned_le := by
    intro note plan' hplan' item hitem
    by_cases hnote : note = other
    · subst hnote
      rw [World.setJournal, AList.lookup_insert] at hplan'
      obtain rfl := Option.some.inj hplan'
      exact hplan item hitem
    · rw [World.setJournal, AList.lookup_insert_ne hnote] at hplan'
      exact h.planned_le note plan' hplan' item hitem
  since_lt := h.since_lt
  published := h.published

theorem During.setJournal (h : During env id r items s) (other : NoteId) {plan : Plan}
    (hplan : plan.items = items) : During env id r items (s.setJournal other plan) where
  kept := h.kept.setJournal other (by rw [hplan]; exact h.planned)
  approved := h.approved
  planned := h.planned

theorem Marked.setJournal {path : NotePath} (h : Marked env id r items path s) (other : NoteId)
    {plan : Plan} (hplan : plan.items = items) :
    Marked env id r items path (s.setJournal other plan) :=
  ⟨h.1.setJournal other hplan, h.2⟩

/-- A manifest whose revision stays the current one may be saved. -/
theorem WellKept.setManifest (h : WellKept env s) {source : SourceId} {m m' : Manifest}
    (hm : s.manifests.lookup source = some m) (hsame : m'.currentRevision = m.currentRevision) :
    WellKept env (s.setManifest source m') ∧ Advances s (s.setManifest source m') := by
  have hcurrent : ∀ other, currentOf (s.setManifest source m') other = currentOf s other := by
    intro other
    by_cases hother : other = source
    · subst hother
      rw [currentOf, currentOf, World.setManifest, AList.lookup_insert, hm, Option.map_some,
        Option.map_some, hsame]
    · rw [currentOf, currentOf, World.setManifest, AList.lookup_insert_ne hother]
  refine ⟨⟨?_, ?_, h.since_lt, h.published⟩, fun other c hc => ⟨c, by rw [hcurrent, hc], le_rfl⟩⟩
  · intro note x v hv
    rw [hcurrent]
    exact h.approved_le note x v hv
  · intro note plan hplan item hitem
    rw [hcurrent]
    exact h.planned_le note plan hplan item hitem

end During

section Pages

variable {env : Env} {id : NoteId} {r : PyStr → Option Nat} {items : List Item} {s : World}
  {P : World → Prop}

/-- The steps of one turn of the loop, once the lock is taken. -/
def placeSites (source : SourceId) (names : List Text) : List Site :=
  [.verify source, .page source, .targetRead source, .replaceTarget source, .createTarget source,
    .fillTarget source, .unlinkTarget source, .saveManifest source, .oldRead source,
    .unlinkOld source] ++ names.map (.attachment source) ++ names.map (.fileArtifact source)

theorem fileAttachments_does {source : SourceId} {provider : Text} {revision : Sources.Revision}
    {entries : List Sources.ArtifactEntry}
    (h : Lasting env id (entries.map (fun e => Site.attachment source e.name) ++
      entries.map fun e => Site.fileArtifact source e.name) P)
    (hartifacts : ∀ s artifacts, P s → P { s with artifacts }) (hs : P s) :
    Does env id (fun _ => P) (fileAttachments env source provider revision entries) s := by
  induction entries generalizing s with
  | nil => exact does_pure hs
  | cons entry rest ih =>
    have hrest := @Lasting.mono _ _ _ _ (rest.map (fun e => Site.attachment source e.name) ++
      rest.map fun e => Site.fileArtifact source e.name) h (by
        intro site hsite
        simp only [List.map_cons, List.cons_append, List.mem_cons, List.mem_append] at hsite ⊢
        tauto)
    unfold fileAttachments
    split
    · apply does_bind (R := fun _ => P)
      · exact does_raiseIf (h.kept s hs) fun _ => hs
      intro _ s₁ hs₁
      apply does_bind (R := fun _ => P)
      · apply does_lookOr (h.kept s₁ hs₁)
        intro s₂ _ hleft hkept _
        exact h.left (.attachment source entry.name) (by simp) s₁ s₂ hs₁ hleft hkept
      intro data s₂ hs₂
      apply does_bind (R := fun _ => P)
      · apply does_step (h.kept s₂ hs₂)
        · intro s₃ hleft hkept _
          have hs₃ := h.left (.fileArtifact source entry.name) (by simp) s₂ s₃ hs₂ hleft hkept
          split
          · exact hartifacts s₃ _ hs₃
          · exact (h.kept _ (hartifacts s₃ _ hs₃))
        · intro s₃ _ hkept
          exact does_raised hkept
      intro filed s₃ hs₃
      apply does_bind (R := fun _ => P)
      · exact ih hrest hs₃
      intro others s₄ hs₄
      exact does_pure hs₄
    · exact ih hrest hs

theorem copyPage_does {source : SourceId} {target : NotePath} {data : FileBytes}
    (h : Lasting env id [.createTarget source, .fillTarget source, .unlinkTarget source] P)
    (hnotes : ∀ s notes, P s → P { s with notes }) (hs : P s) :
    Does env id (fun _ => P) (copyPage source target data) s := by
  apply does_step (h.kept s hs)
  · intro s₁ hleft hkept _
    have hs₁ := h.left (.createTarget source) (by simp) s s₁ hs hleft hkept
    cases hlookup : s₁.notes.lookup target with
    | none =>
      dsimp only
      have hs₂ := hnotes s₁ (s₁.notes.insert target (.file (.utf8 []))) hs₁
      -- A write that fails takes the file away again.
      apply does_catch
      · apply does_act (h.kept _ hs₂)
        intro s₃ hleft' hkept'
        exact hnotes s₃ _ (h.left (.fillTarget source) (by simp) _ s₃ hs₂ hleft' hkept')
      · intro e s' hkept'
        apply does_bind (R := fun _ => WellKept env)
        · apply does_act hkept'
          intro s'' _ hkept''
          exact hkept''.of_same rfl rfl rfl rfl rfl
        intro _ s'' hs''
        exact does_raised hs''
    | some entry =>
      cases entry with
      | file held => exact does_raiseIf (h.kept s₁ hs₁) fun _ => hs₁
      | directory => exact does_raised (h.kept s₁ hs₁)
  · intro s₁ _ hkept
    exact does_raised hkept

theorem writePage_does {item : Item} {original data : FileBytes}
    (h : Lasting env id (placeSites item.id []) P) (hnotes : ∀ s notes, P s → P { s with notes })
    (hs : P s) : Does env id (fun _ => P) (writePage item original data) s := by
  unfold writePage
  split
  · apply does_bind (R := fun _ => P)
    · apply does_lookOr (h.kept s hs)
      intro s₁ _ hleft hkept _
      exact h.left (.targetRead item.id) (by simp [placeSites]) s s₁ hs hleft hkept
    intro held s₁ hs₁
    apply does_bind (R := fun _ => P)
    · exact does_raiseIf (h.kept s₁ hs₁) fun _ => hs₁
    intro _ s₂ hs₂
    split
    · exact does_pure hs₂
    · apply does_act (h.kept s₂ hs₂)
      intro s₃ hleft hkept
      exact hnotes s₃ _ (h.left (.replaceTarget item.id) (by simp [placeSites]) s₂ s₃ hs₂ hleft hkept)
  · exact copyPage_does (h.mono (by simp [placeSites])) hnotes hs

theorem unlinkFile_does {site : Site} {e : Raised} {path : NotePath} (h : Lasting env id [site] P)
    (hnotes : ∀ s notes, P s → P { s with notes }) (hs : P s) :
    Does env id (fun _ => P) (unlinkFile site e path) s := by
  apply does_step (h.kept s hs)
  · intro s₁ hleft hkept _
    have hs₁ := hnotes s₁ (s₁.notes.erase path) (h.left site (by simp) s s₁ hs hleft hkept)
    split
    · exact hs₁
    · exact h.kept _ hs₁
  · intro s₁ _ hkept
    exact does_raised hkept

theorem removeOld_does {item : Item} {original : FileBytes}
    (h : Lasting env id (placeSites item.id []) P) (hnotes : ∀ s notes, P s → P { s with notes })
    (hs : P s) : Does env id (fun _ => P) (removeOld item original) s := by
  unfold removeOld
  split
  · exact does_pure hs
  · apply does_bind (R := fun _ => P)
    · apply does_look (h.kept s hs)
      intro s₁ hleft hkept
      exact h.left (.oldRead item.id) (by simp [placeSites]) s s₁ hs hleft hkept
    intro old s₁ hs₁
    match old with
    | none => exact does_pure hs₁
    | some .directory => exact does_raised (h.kept s₁ hs₁)
    | some (.file held) =>
      apply does_bind (R := fun _ => P)
      · exact does_raiseIf (h.kept s₁ hs₁) fun _ => hs₁
      intro _ s₂ hs₂
      exact unlinkFile_does (h.mono (by simp [placeSites])) hnotes hs₂

/-- The pass holds the source, whose manifest is the one it read. -/
def Held (env : Env) (id : NoteId) (r : PyStr → Option Nat) (items : List Item) (source : SourceId)
    (m : Manifest) (w : World) : Prop :=
  During env id r items w ∧ w.manifests.lookup source = some m

theorem lasting_held {source : SourceId} {m : Manifest} {sites : List Site}
    (hsites : ∀ site ∈ sites, site.isPastApproval = true ∧ site.holds = some source) :
    Lasting env id sites (Held env id r items source m) where
  kept := fun _ h => h.1.kept
  left := fun site hsite _ _ h hleft hkept =>
    ⟨h.1.left (hsites site hsite).1 hleft hkept, (hleft.held source (hsites site hsite).2).trans h.2⟩
  rows := fun _ _ h => ⟨h.1.of_same rfl rfl rfl rfl rfl, h.2⟩

theorem holds_placeSites (source : SourceId) (names : List Text) :
    ∀ site ∈ placeSites source names, site.isPastApproval = true ∧ site.holds = some source := by
  intro site hsite
  simp only [placeSites, List.mem_append, List.mem_cons, List.not_mem_nil, or_false,
    List.mem_map] at hsite
  obtain ((rfl | rfl | rfl | rfl | rfl | rfl | rfl | rfl | rfl | rfl) | ⟨name, -, rfl⟩) |
    ⟨name, -, rfl⟩ := hsite
  all_goals exact ⟨rfl, rfl⟩

theorem manifestRevision_revision {m : Manifest} {n : Nat} {revision : Sources.Revision}
    (h : manifestRevision m n = .ok revision) : revision.revision = n := by
  unfold manifestRevision at h
  split at h
  · next revision' heq =>
    obtain rfl := Except.ok.inj h
    have hmem : revision' ∈ m.revisions.filter (·.revision == n) := by rw [heq]; simp
    simpa using (List.mem_filter.1 hmem).2
  · cases h

/-- What was placed is what the record approves. -/
def PlacedApproved (r : PyStr → Option Nat) (placed : List (SourceId × Nat)) : Prop :=
  ∀ x ∈ placed, r (PyStr.ofText x.1) = some x.2

/-- **One source**: what the turn of the loop places is the item's revision. -/
theorem placeSource_does {item : Item} {filed : Filed}
    (hitem : r (PyStr.ofText item.id) = some item.revision) (hfiled : PlacedApproved r filed.placed)
    (hs : During env id r items s) :
    Does env id (fun filed s' => During env id r items s' ∧ PlacedApproved r filed.placed)
      (placeSource env item filed) s := by
  apply does_bind (R := fun _ => During env id r items)
  · apply does_lookOr hs.kept
    intro s₁ _ hleft hkept _
    exact hs.left rfl hleft hkept
  intro _ s₁ hs₁
  apply does_bind (R := fun m => Held env id r items item.id m)
  · apply does_lookOr hs₁.kept
    intro s₂ m hleft hkept hread
    refine ⟨hs₁.left rfl hleft hkept, ?_⟩
    split at hread
    · next hm =>
      cases hread
      exact hm
    · cases hread
  intro m s₂ hs₂
  have hlasting := @lasting_held env id r items _ m _
    (holds_placeSites item.id [])
  have hnotes : ∀ s notes, Held env id r items item.id m s →
      Held env id r items item.id m { s with notes } :=
    fun s notes h => ⟨h.1.of_same rfl rfl rfl rfl rfl, h.2⟩
  apply does_bind (R := fun _ => Held env id r items item.id m)
  · exact does_raiseIf hs₂.1.kept fun _ => hs₂
  intro _ s₃ hs₃
  apply does_bind (R := fun revision s' => Held env id r items item.id m s' ∧
    revision.revision = item.revision)
  · exact does_ofExcept hs₃.1.kept fun revision hrevision =>
      ⟨hs₃, manifestRevision_revision hrevision⟩
  rintro revision s₄ ⟨hs₄, hrevision⟩
  apply does_bind (R := fun _ => Held env id r items item.id m)
  · apply does_look hs₄.1.kept
    intro s₅ hleft hkept
    exact hlasting.left (.verify item.id) (by simp [placeSites]) s₄ s₅ hs₄ hleft hkept
  intro _ s₅ hs₅
  apply does_bind (R := fun _ => Held env id r items item.id m)
  · exact does_raiseIf hs₅.1.kept fun _ => hs₅
  intro _ s₆ hs₆
  apply does_bind (R := fun _ => Held env id r items item.id m)
  · apply does_lookOr hs₆.1.kept
    intro s₇ _ hleft hkept _
    exact hlasting.left (.page item.id) (by simp [placeSites]) s₆ s₇ hs₆ hleft hkept
  intro original s₇ hs₇
  apply does_bind (R := fun _ => Held env id r items item.id m)
  · exact does_ofExcept hs₇.1.kept fun _ _ => hs₇
  intro parsed s₈ hs₈
  apply does_bind (R := fun _ => Held env id r items item.id m)
  · exact does_raiseIf hs₈.1.kept fun _ => hs₈
  intro _ s₉ hs₉
  apply does_bind (R := fun _ => Held env id r items item.id m)
  · apply fileAttachments_does _ (fun s a h => ⟨h.1.of_same rfl rfl rfl rfl rfl, h.2⟩) hs₉
    apply lasting_held
    intro site hsite
    apply holds_placeSites item.id (revision.artifacts.map (·.name))
    simp only [placeSites, List.map_map, List.mem_append] at hsite ⊢
    obtain hsite | hsite := hsite
    · exact Or.inl (Or.inr hsite)
    · exact Or.inr hsite
  intro links s₁₀ hs₁₀
  apply does_bind (R := fun _ => Held env id r items item.id m)
  · exact does_ofExcept hs₁₀.1.kept fun _ _ => hs₁₀
  intro text s₁₁ hs₁₁
  apply does_bind (R := fun _ => Held env id r items item.id m)
  · exact writePage_does hlasting hnotes hs₁₁
  intro _ s₁₂ hs₁₂
  -- The manifest that is saved has the revision of the one that was read.
  apply does_bind (R := fun _ s' => ∃ m', Held env id r items item.id m' s')
  · apply does_act hs₁₂.1.kept
    intro s₁₃ hleft hkept
    have hs₁₃ := hlasting.left (.saveManifest item.id) (by simp [placeSites]) s₁₂ s₁₃ hs₁₂ hleft hkept
    let filed : Manifest :=
      { m with projectionPath := item.target, filedProjectionPath := some item.target }
    have hsame : filed.currentRevision = m.currentRevision := rfl
    obtain ⟨hkept', hadvances⟩ := hs₁₃.1.kept.setManifest hs₁₃.2 hsame
    exact ⟨_, ⟨hkept', hs₁₃.1.approved, hs₁₃.1.planned.advances hadvances⟩, AList.lookup_insert _⟩
  rintro _ s₁₃ ⟨m', hs₁₃⟩
  apply does_bind (R := fun _ => Held env id r items item.id m')
  · exact removeOld_does (lasting_held (holds_placeSites item.id []))
      (fun s notes h => ⟨h.1.of_same rfl rfl rfl rfl rfl, h.2⟩) hs₁₃
  intro _ s₁₄ hs₁₄
  refine does_pure ⟨hs₁₄.1, ?_⟩
  intro x hx
  obtain hx | hx := List.mem_append.1 hx
  · exact hfiled x hx
  · obtain rfl | hx := List.mem_cons.1 hx
    · exact hitem
    · obtain ⟨-, -, rfl⟩ := List.mem_map.1 hx
      rw [hrevision]
      exact hitem

/-- **All sources**. -/
theorem placeSources_does {todo : List Item} {filed : Filed}
    (hitems : ∀ item ∈ todo, r (PyStr.ofText item.id) = some item.revision)
    (hfiled : PlacedApproved r filed.placed) (hs : During env id r items s) :
    Does env id (fun filed s' => During env id r items s' ∧ PlacedApproved r filed.placed)
      (placeSources env todo filed) s := by
  induction todo generalizing filed s with
  | nil => exact does_pure ⟨hs, hfiled⟩
  | cons item rest ih =>
    apply does_bind
    · exact placeSource_does (hitems item List.mem_cons_self) hfiled hs
    rintro filed' s' ⟨hs', hfiled'⟩
    exact ih (fun other hother => hitems other (List.mem_cons_of_mem _ hother)) hfiled' hs'

end Pages

end Coppermind.Filing
