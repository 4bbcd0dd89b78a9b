import Coppermind.Purge.Saving

/-!
# The steps of the operations

What the sites of an operation may be.  A preview and an abandonment remove no file and no row; a
confirmation removes what its receipt lists, and touches no other receipt.
-/

namespace Coppermind.Purge

open Coppermind.Lib
open Coppermind.Lib.Task (perform look lookOr forEach catchRaised steps_pure steps_raised
  steps_raiseIf steps_bind steps_catchRaised steps_perform steps_look steps_lookOr steps_forEach)

/-- A step that takes notes out of the records of the context service. -/
def Site.forgets : Site → Bool
  | .writeBook _ _ | .dropCompletion _ | .dropCorrection _ | .dropJob _ | .emptyDossiers => true
  | _ => false

/-- A step of `forgetNotes`. -/
def Site.beside : Site → Bool
  | .readBook _ | .corrections | .readCorrection _ | .jobs => true
  | site => site.forgets

/-- A step of `project`. -/
def Site.projects : Site → Bool
  | .observe _ | .catalog _ | .page _ _ => true
  | _ => false

/-- A step that removes files, folders or rows. -/
def Site.removes : Site → Bool
  | .unlink _ | .rmdir _ | .commit _ => true
  | site => site.forgets

/-- Two receipts of one purge. -/
structure Record.Same (r record : Record) : Prop where
  token : r.token = record.token
  items : r.items = record.items
  createdAt : r.createdAt = record.createdAt
  retentionDays : r.retentionDays = record.retentionDays

theorem Record.Same.rfl {record : Record} : record.Same record :=
  ⟨Eq.refl _, Eq.refl _, Eq.refl _, Eq.refl _⟩

/-- A step that touches no receipt but one, keeps what that one lists, and removes nothing else. -/
def Site.carries (record : Record) : Site → Prop
  | .write r => r.Same record
  | .discard _ token | .quarantine _ token => token = record.token
  | .unlink f => f.place ∈ record.places
  | .rmdir place => place ∈ record.places
  | .commit items => items = record.items
  | _ => True

/-- A step that leaves the catalog, its pages and the records of the context service alone. -/
def Site.plain : Site → Bool
  | .catalog _ | .page _ _ => false
  | site => !site.forgets

section Commands

variable {env : Env} {call : Call} {P : Site → (World → World) → Prop}

theorem removes_saves {site : Site} (h : site.saves = true) : site.removes = false := by
  cases site with
  | write => rfl
  | sync => rfl
  | discard => rfl
  | _ => cases h

theorem plain_saves {site : Site} (h : site.saves = true) : site.plain = true := by
  cases site with
  | write => rfl
  | sync => rfl
  | discard => rfl
  | _ => cases h

theorem removes_projects {site : Site} (h : site.projects = true) : site.removes = false := by
  cases site with
  | observe => rfl
  | catalog => rfl
  | page => rfl
  | _ => cases h

theorem saves_projects {site : Site} (h : site.projects = true) : site.saves = false := by
  cases site with
  | observe => rfl
  | catalog => rfl
  | page => rfl
  | _ => cases h

theorem steps_projectAll {seen : Dossiers.Seen} {after : Text → Memory → Memory}
    (hP : ∀ site, site.projects = true → P site (effect site)) {ids : List Text} {m : Memory} :
    Task.Steps P (projectAll env call seen after ids m) := by
  induction ids generalizing m with
  | nil => exact steps_pure m
  | cons id ids ih =>
    refine steps_bind ?_ fun m => ih
    unfold project
    refine steps_bind (steps_catchRaised (steps_look (hP (.observe id) rfl) _ _)
      fun _ => steps_pure _) fun sight => ?_
    cases sight with
    | kept m => exact steps_pure m
    | write m block page =>
      exact steps_catchRaised (steps_bind (steps_perform (hP (.catalog _) rfl) _) fun _ =>
        steps_bind (steps_perform (hP (.page _ _) rfl) _) fun _ => steps_pure _)
        fun _ => steps_pure _

theorem steps_forgetNotes (hP : ∀ site, site.beside = true → P site (effect site))
    {ids : List PyStr} : Task.Steps P (forgetNotes env ids) := by
  unfold forgetNotes
  refine steps_bind (steps_forEach fun book _ => ?_) fun _ => ?_
  · exact steps_bind (steps_lookOr (hP (.readBook book) rfl) _ _) fun _ =>
      steps_perform (hP (.writeBook book _) rfl) _
  refine steps_bind (steps_forEach fun id _ => steps_perform (hP (.dropCompletion id) rfl) _)
    fun _ => ?_
  refine steps_bind (steps_look (hP .corrections rfl) _ _) fun names => ?_
  refine steps_bind (steps_forEach fun name _ => ?_) fun _ => ?_
  · refine steps_bind (steps_lookOr (hP (.readCorrection name) rfl) _ _) fun note => ?_
    split
    · exact steps_perform (hP (.dropCorrection name) rfl) _
    · exact steps_pure _
  refine steps_bind (steps_lookOr (hP .jobs rfl) _ _) fun jobs => ?_
  exact steps_bind (steps_forEach fun job _ => steps_perform (hP (.dropJob job.id) rfl) _) fun _ =>
    steps_perform (hP .emptyDossiers rfl) _

theorem steps_save {record r : Record} (hr : r.Same record)
    (hP : ∀ site, site.saves = true → site.carries record → P site (effect site)) :
    Task.Steps P (save r) :=
  steps_bind (steps_perform (hP (.write r) rfl hr) _) fun _ =>
    steps_bind (steps_look (hP (.sync []) rfl trivial) _ _) fun _ =>
      steps_forEach fun folder _ => steps_perform (hP (.discard folder r.token) rfl hr.token) _

theorem steps_giveUp {α : Type} {record r : Record} (hr : r.Same record)
    (hP : ∀ site, site.saves = true → site.carries record → P site (effect site))
    (e : Raised) : Task.Steps P (giveUp r e : Job α) :=
  steps_bind (steps_save ⟨hr.token, hr.items, hr.createdAt, hr.retentionDays⟩ hP)
    fun _ => steps_raised _

/-- Reading the dossiers saves no receipt. -/
theorem steps_refresh
    (hP : ∀ site, site.removes = false → site.saves = false → P site (effect site)) :
    Task.Steps P (refresh env call) := by
  unfold refresh
  apply steps_bind (steps_look (hP .records rfl rfl) _ _)
  intro pending
  split
  · exact steps_pure _
  · apply steps_bind (steps_look (hP .ledger rfl rfl) _ _)
    intro before
    apply steps_bind (steps_lookOr (hP .refresh rfl rfl) _ _)
    intro read
    apply steps_bind (steps_projectAll fun site hsite =>
      hP site (removes_projects hsite) (saves_projects hsite))
    intro m
    dsimp only
    split
    · exact steps_bind (steps_perform (hP (.catalog _) rfl rfl) _) fun _ =>
        steps_perform (hP .mirror rfl rfl) _
    · exact steps_perform (hP .mirror rfl rfl) _

variable (hP : ∀ site, site.removes = false → P site (effect site))

include hP

theorem steps_candidates : Task.Steps P (candidates env call) :=
  steps_bind (steps_look (hP .settings rfl) _ _) fun _ =>
    steps_bind (steps_lookOr (hP .references rfl) _ _) fun _ =>
      steps_bind (steps_lookOr (hP .recovery rfl) _ _) fun _ =>
        steps_bind (steps_look (hP .records rfl) _ _) fun _ =>
          steps_bind (steps_look (hP .records rfl) _ _) fun _ =>
            steps_bind (steps_look (hP .rows rfl) _ _) fun _ =>
              steps_lookOr (hP .plan rfl) _ _

theorem steps_preview : Task.Steps P (preview env call) := by
  unfold preview
  apply steps_bind (steps_look (hP .records rfl) _ _)
  intro existing
  split
  · exact steps_pure _
  · apply steps_bind (steps_refresh fun site hsite _ => hP site hsite)
    intro _
    apply steps_bind (steps_candidates hP)
    intro found
    apply steps_bind (steps_look (hP .settings rfl) _ _)
    intro days
    apply steps_bind (steps_save .rfl fun site hsite _ => hP site (removes_saves hsite))
    intro _
    exact steps_bind (steps_forEach fun _ _ => steps_perform (hP _ rfl) _) fun _ => steps_pure _

theorem steps_abandon (token : PyStr) : Task.Steps P (abandon call token) := by
  unfold abandon
  apply steps_bind (steps_lookOr (hP .find rfl) _ _)
  intro found
  dsimp only
  split
  · apply steps_bind (steps_perform (hP _ rfl) _)
    intro _
    apply steps_bind (steps_look (hP (.sync []) rfl) _ _)
    intro _
    exact steps_bind (steps_look (hP .settings rfl) _ _) fun _ => steps_pure _
  · apply steps_bind (steps_raiseIf _ _)
    intro _
    apply steps_bind (steps_look (hP .outcome rfl) _ _)
    intro _
    exact steps_bind (steps_save .rfl fun site hsite _ => hP site (removes_saves hsite))
      fun _ => steps_pure _

theorem steps_previewFailure : Task.Steps P (previewFailure call) :=
  steps_catchRaised
    (steps_bind (steps_look (hP .settings rfl) _ _) fun _ =>
      steps_save .rfl fun site hsite _ => hP site (removes_saves hsite))
    fun _ => steps_pure _

theorem steps_report (e : Raised) : Task.Steps P (report call e) := by
  unfold report
  split
  · exact steps_raised _
  · split
    · exact steps_bind (steps_previewFailure hP) fun _ => steps_raised _
    · exact steps_raised _

end Commands

section Carrying

variable {env : Env} {call : Call} {P : Site → (World → World) → Prop} {record : Record}
  (hP : ∀ site : Site, site.plain = true → site.carries record → P site (effect site))

include hP

theorem steps_unlinkItem {item : Item} (hitem : item ∈ record.items) :
    Task.Steps P (unlinkItem env item) := by
  have hplaces : ∀ place ∈ item.places, place ∈ record.places :=
    fun place hplace => List.mem_flatMap.2 ⟨item, hitem, hplace⟩
  unfold unlinkItem
  refine steps_bind (steps_forEach fun f hf => ?_) fun _ => steps_forEach fun path hpath => ?_
  · have hlisted : f.place ∈ record.places :=
      hplaces _ (List.mem_append_left _ (List.mem_map_of_mem hf))
    apply steps_bind (steps_lookOr (hP (.compare f) rfl trivial) _ _)
    intro present
    split
    · exact steps_bind (steps_perform (hP (.unlink f) rfl hlisted) _) fun _ =>
        steps_look (hP (.sync f.place) rfl trivial) _ _
    · exact steps_pure _
  · have hlisted : item.directoryRoot.at path ∈ record.places :=
      hplaces _ (List.mem_append_right _ (List.mem_map_of_mem (mem_deepestFirst.1 hpath)))
    have hplace := hP (.rmdir (item.directoryRoot.at path)) rfl hlisted
    apply steps_bind (steps_lookOr (hP (.stat (item.directoryRoot.at path)) rfl trivial) _ _)
    intro present
    split
    · refine steps_bind ⟨hplace, fun s => ?_, trivial⟩ fun _ =>
        steps_look (hP (.sync (item.directoryRoot.at path)) rfl trivial) _ _
      dsimp only
      split <;> trivial
    · exact steps_pure _

theorem steps_commitRows {record' : Record} (hitems : record'.items = record.items)
    (resuming : Bool) : Task.Steps P (commitRows env record' resuming) :=
  steps_bind (steps_look (hP .begin rfl trivial) _ _) fun _ =>
    steps_bind (steps_look (hP .settings rfl trivial) _ _) fun _ =>
      steps_bind (steps_raiseIf _ _) fun _ =>
        steps_bind (steps_lookOr (hP .references rfl trivial) _ _) fun _ =>
          steps_bind (steps_lookOr (hP .check rfl trivial) _ _) fun _ =>
            steps_bind (steps_perform (hP (.commit _) rfl hitems) _) fun _ =>
              steps_look (hP .acknowledge rfl trivial) _ _

/-- The dossiers of a purge. -/
theorem steps_purgeEntities (hQ : ∀ site : Site, site.plain = false → P site (effect site))
    (record' : Record) : Task.Steps P (purgeEntities env call record') := by
  have hprojects : ∀ site : Site, site.projects = true → P site (effect site) := by
    intro site hsite
    cases site with
    | observe id => exact hP (.observe id) rfl trivial
    | catalog m => exact hQ (.catalog m) rfl
    | page id data => exact hQ (.page id data) rfl
    | _ => cases hsite
  have hbeside : ∀ site : Site, site.beside = true → P site (effect site) := by
    intro site hsite
    cases site with
    | readBook book => exact hP (.readBook book) rfl trivial
    | corrections => exact hP .corrections rfl trivial
    | readCorrection name => exact hP (.readCorrection name) rfl trivial
    | jobs => exact hP .jobs rfl trivial
    | writeBook book members => exact hQ (.writeBook book members) rfl
    | dropCompletion id => exact hQ (.dropCompletion id) rfl
    | dropCorrection name => exact hQ (.dropCorrection name) rfl
    | dropJob name => exact hQ (.dropJob name) rfl
    | emptyDossiers => exact hQ .emptyDossiers rfl
    | _ => cases hsite
  unfold purgeEntities
  apply steps_bind (steps_look (hP .ledger rfl trivial) _ _)
  intro m
  split
  · exact steps_pure _
  · exact steps_bind (steps_forgetNotes hbeside) fun _ =>
      steps_bind (steps_perform (hQ (.catalog _) rfl) _) fun _ =>
        steps_bind (steps_projectAll hprojects) fun _ => steps_perform (hQ (.catalog _) rfl) _

theorem steps_removeFiles (hQ : ∀ site : Site, site.plain = false → P site (effect site))
    {record' : Record} (hitems : record'.items = record.items) :
    Task.Steps P (removeFiles env call record') :=
  steps_bind (steps_forEach fun _ hitem => steps_unlinkItem hP (hitems ▸ hitem)) fun _ =>
    steps_bind (steps_purgeEntities hP hQ _) fun _ =>
      steps_bind (steps_look (hP .ledger rfl trivial) _ _) fun _ =>
        steps_perform (hP .mirror rfl trivial) _

/-- **A confirmation** touches no receipt but its own, whose list it keeps. -/
theorem steps_carryOut (hQ : ∀ site : Site, site.plain = false → P site (effect site))
    (resuming : Bool) : Task.Steps P (carryOut env call record resuming) := by
  have hsaves : ∀ site : Site, site.saves = true → site.carries record → P site (effect site) :=
    fun site hsite => hP site (plain_saves hsite)
  have hsave (r : Record) (hr : r.Same record) : Task.Steps P (save r) := steps_save hr hsaves
  have hgiveUp (r : Record) (hr : r.Same record) (e : Raised) :
      Task.Steps P (giveUp r e : Job Unit) := steps_giveUp hr hsaves e
  refine steps_bind (hsave _ ⟨rfl, rfl, rfl, rfl⟩) fun _ => ?_
  refine steps_bind (steps_catchRaised (steps_commitRows hP rfl _)
    (hgiveUp _ ⟨rfl, rfl, rfl, rfl⟩)) fun _ => ?_
  refine steps_bind (steps_catchRaised (steps_removeFiles hP hQ rfl)
    (hgiveUp _ ⟨rfl, rfl, rfl, rfl⟩)) fun _ => ?_
  exact steps_bind (steps_catchRaised (hsave _ ⟨rfl, rfl, rfl, rfl⟩)
    (hgiveUp _ ⟨rfl, rfl, rfl, rfl⟩)) fun _ => steps_pure _

end Carrying

section Confirming

variable {env : Env} {call : Call} {P : Site → (World → World) → Prop}
  (hP : ∀ site, P site (effect site))

include hP

theorem steps_confirm (token : PyStr) : Task.Steps P (confirm env call token) := by
  unfold confirm
  apply steps_bind (steps_lookOr (hP .find) _ _)
  intro record
  apply steps_bind (steps_look (hP .records) _ _)
  intro others
  apply steps_bind (steps_raiseIf _ _)
  intro _
  split
  · exact steps_pure _
  · exact steps_raised _
  · apply steps_bind (steps_look (hP .settings) _ _)
    intro _
    apply steps_bind (steps_raiseIf _ _)
    intro _
    apply steps_bind (steps_candidates fun site _ => hP site)
    intro found
    exact steps_bind (steps_raiseIf _ _) fun _ =>
      steps_carryOut (fun site _ _ => hP site) (fun site _ => hP site) _
  · apply steps_bind (steps_lookOr (hP .references) _ _)
    intro _
    apply steps_bind (steps_look (hP .rows) _ _)
    intro _
    exact steps_bind (steps_lookOr (hP .verify) _ _) fun _ =>
      steps_carryOut (fun site _ _ => hP site) (fun site _ => hP site) _

/-- **Every step of an operation** is the command of its site. -/
theorem steps_operation : Task.Steps P (operation env call) := by
  have hquiet : ∀ site : Site, site.removes = false → P site (effect site) := fun s _ => hP s
  apply steps_catchRaised _ (steps_report hquiet)
  unfold answer
  split
  · exact steps_preview hquiet
  · exact steps_confirm hP _
  · exact steps_abandon hquiet _

end Confirming

end Coppermind.Purge
