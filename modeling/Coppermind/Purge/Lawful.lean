import Coppermind.Purge.Entities

/-!
# What a purge removes

Previews, confirmations and abandonments follow each other in any order; any step of them may fail
or be the last before a kill, and between them the disk and the rows may become anything.  In every
such run a file is removed only if the receipt that is being carried out lists it with the digest
of its bytes, a row only if the receipt lists it with its fingerprint, and neither while a note of
the tree names what it belongs to; and the records of the context service lose only what they have
of the notes that the receipt lists.
-/

namespace Coppermind.Purge

open Coppermind.Lib
open Coppermind.Lib.Task (perform look lookOr forEach catchRaised steps_pure steps_raised
  steps_raiseIf steps_bind steps_catchRaised steps_perform steps_look steps_lookOr steps_forEach
  wp_perform_alone wp_look_alone wp_lookOr_alone wp_forEach)

/-- A step of `candidates`. -/
def Site.reads : Site → Bool
  | .settings | .references | .recovery | .records | .rows | .plan => true
  | _ => false

section Meaning

variable (env : Env)

/-- The receipt that is being carried out. -/
def Applying (token : PyStr) (record : Record) (w : World) : Prop :=
  w.receipt? .root token = some record ∧ record.state = .applying

/-- A note of the tree names the item, or a row holds the artifact. -/
def InUse (w : World) (item : Item) : Prop :=
  match item.kind with
  | .note => Names env w.disk item.id
  | .source => Cites env w.disk item.id ∨ ∃ opening ∈ item.opening, Names env w.disk opening
  | .artifact => item.id ∈ w.artifacts
  | .entity => False

/-- An item of the receipt that is being carried out, unused and without a row. -/
def Removable (w : World) (item : Item) : Prop :=
  (∃ token record, Applying token record w ∧ item ∈ record.items) ∧ ¬InUse env w item ∧
    (item.kind ≠ .entity → rowHeld w item = false)

/-- What is known before a step. -/
def Allowed (site : Site) (w : World) : Prop :=
  match site with
  | .unlink f => (∃ item, Removable env w item ∧ f ∈ item.files) ∧
      ∃ data, file? w.disk f.place = some data ∧ env.digest data = f.hash
  | .rmdir place => ∃ item, Removable env w item ∧ place ∈ item.directoryPlaces
  | .commit items => ∃ token record refs, Applying token record w ∧ record.items = items ∧
      references env w.disk = .ok refs ∧ ∀ item ∈ items, resumable env w refs item = true
  | .writeBook _ _ | .dropCompletion _ | .dropCorrection _ | .dropJob _ | .emptyDossiers =>
    ∃ token record, Applying token record w ∧
      Forgetting env (record.idsOf .note) w.context (effect site w).context
  | _ => True

variable {env}

/-- What may be resumed is not in use. -/
theorem inUse_of_resumable {w : World} {refs : References} {item : Item}
    (h : resumable env w refs item = true) : inUse w refs item = false := by
  unfold resumable at h
  unfold inUse
  cases hkind : item.kind with
  | note =>
    simp only [hkind, Bool.and_eq_true, Bool.not_eq_true'] at h ⊢
    exact h.1.1
  | artifact => simpa [hkind] using h
  | source =>
    simp only [hkind, Bool.and_eq_true, Bool.not_eq_true', isProtected, Bool.or_eq_false_iff] at h
    obtain ⟨⟨⟨⟨hcited, -⟩, -⟩, hopening⟩, -⟩ := h
    rw [Bool.or_eq_false_iff]
    refine ⟨hcited, ?_⟩
    cases ho : item.opening with
    | none => rfl
    | some opening => simpa [ho] using (by simpa [ho] using hopening : _ ∧ _).1
  | entity => rfl

end Meaning

section Steps

variable {env : Env} {token : PyStr} {record : Record} {w : World} {item : Item}
  {fails : Site → Prop}

/-- The rows of a list of items are gone after their commit. -/
theorem rowHeld_commit {items : List Item} (hitem : item ∈ items) (hkind : item.kind ≠ .entity)
    (hused : item.kind = .artifact → item.id ∉ w.artifacts) :
    rowHeld (w.commit items) item = false := by
  unfold rowHeld World.note? World.source? World.commit
  cases h : item.kind with
  | note =>
    simp only [Option.isSome_eq_false_iff, Option.isNone_iff_eq_none, List.find?_eq_none,
      List.mem_filter, decide_eq_true_eq]
    intro n hn heq
    exact hn.2 (List.mem_map.2 ⟨item, List.mem_filter.2 ⟨hitem, by simp [h]⟩, heq.symm⟩)
  | source =>
    simp only [Option.isSome_eq_false_iff, Option.isNone_iff_eq_none, List.find?_eq_none,
      List.mem_filter, decide_eq_true_eq]
    intro s hs heq
    exact hs.2 (List.mem_map.2 ⟨item, List.mem_filter.2 ⟨hitem, by simp [h]⟩, heq.symm⟩)
  | artifact => simpa [h] using hused h
  | entity => exact absurd h hkind

/-- The rows of the receipt that is being carried out are gone; nothing of the tree was added or
changed since nothing in it used what the receipt lists. -/
def Clearing (env : Env) (token : PyStr) (record : Record) (w : World) : Prop :=
  Applying token record w ∧ (∃ d refs, references env d = .ok refs ∧ Shrunk w.disk d ∧
    ∀ item ∈ record.items, inUse w refs item = false) ∧
    ∀ item ∈ record.items, item.kind ≠ .entity → rowHeld w item = false

theorem Clearing.removable (h : Clearing env token record w) (hitem : item ∈ record.items) :
    Removable env w item := by
  obtain ⟨happlying, ⟨d, refs, hrefs, hshrunk, hunused⟩, hrows⟩ := h
  refine ⟨⟨token, record, happlying, hitem⟩, ?_, hrows item hitem⟩
  obtain ⟨hread, hids, hcited⟩ := references_spec hrefs
  have hitem := hunused item hitem
  unfold inUse at hitem
  unfold InUse
  cases hkind : item.kind with
  | note =>
    intro hnames
    have := (hids _).2 (hshrunk.stated hread hnames)
    simp [hkind, this] at hitem
  | artifact => simpa [hkind] using hitem
  | source =>
    simp only [hkind, Bool.or_eq_false_iff, decide_eq_false_iff_not] at hitem
    rintro (hcites | ⟨opening, hopening, hnames⟩)
    · exact hitem.1 ((hcited _).2 (hshrunk.stated hread hcites))
    · have := (hids _).2 (hshrunk.stated hread hnames)
      simp [Option.mem_def.1 hopening, this] at hitem
  | entity => exact id

theorem Clearing.erase (h : Clearing env token record w) (place : List PyStr) :
    Clearing env token record { w with disk := w.disk.erase place } := by
  obtain ⟨happlying, ⟨d, refs, hrefs, hshrunk, hunused⟩, hrows⟩ := h
  exact ⟨happlying, ⟨d, refs, hrefs, (shrunk_erase w.disk place).trans hshrunk, hunused⟩, hrows⟩

theorem forM_eq_ok {ε α : Type} {f : α → Except ε Unit} {xs : List α} :
    xs.forM f = .ok () ↔ ∀ x ∈ xs, f x = .ok () := by
  induction xs with
  | nil => simp [List.forM, pure, Except.pure]
  | cons x xs ih =>
    change (f x >>= fun _ => xs.forM f) = _ ↔ _
    cases hx : f x with
    | error e => simp [hx, bind, Except.bind]
    | ok u => simpa [hx, bind, Except.bind] using ih

/-- A file that passes its verification is gone or has the listed digest. -/
theorem verifyFile_spec {d : Disk} {f : Listed} (h : verifyFile env d f = .ok ()) :
    resolve d f.area f.path = some f.place ∧
      (d.has f.place = true → ∃ data, file? d f.place = some data ∧ env.digest data = f.hash) := by
  unfold verifyFile resolveOr at h
  cases hr : resolve d f.area f.path with
  | none =>
    rw [hr] at h
    cases h
  | some place =>
    rw [hr] at h
    obtain rfl := resolve_place hr
    refine ⟨rfl, fun hhas => ?_⟩
    simp only [bind, Except.bind] at h
    change d.has (f.area.at f.path) = true at hhas
    rw [if_pos hhas] at h
    split at h
    · cases h
    · next data hdata =>
      refine ⟨data, hdata, ?_⟩
      split at h
      · cases h
      · next hhash => exact not_not.1 hhash

theorem wp_unlinkFile {f : Listed} (hitem : item ∈ record.items) (hf : f ∈ item.files)
    (h : Clearing env token record w) :
    Task.wp (.alone fails) (Allowed env) (fun _ => Clearing env token record) (fun _ _ => True)
      (unlinkFile env f) w := by
  unfold unlinkFile
  rw [Task.wp_bind]
  apply wp_lookOr_alone trivial _ (fun _ _ => trivial) fun _ => trivial
  intro present hpresent
  cases hverify : verifyFile env w.disk f with
  | error e =>
    simp only [hverify, bind, Except.bind] at hpresent
    cases hpresent
  | ok u =>
    simp only [hverify, bind, Except.bind] at hpresent
    obtain rfl := Except.ok.inj hpresent
    cases hhas : w.disk.has f.place with
    | false => exact h
    | true =>
      rw [if_pos rfl, Task.wp_bind, wp_perform_alone]
      have hallowed : Allowed env (.unlink f) w :=
        ⟨⟨item, h.removable hitem, hf⟩, (verifyFile_spec hverify).2 hhas⟩
      refine ⟨hallowed, ?_, fun _ => trivial⟩
      rw [wp_look_alone]
      exact ⟨trivial, h.erase f.place, fun _ => trivial⟩

theorem wp_removeDirectory {path : Parts} (hitem : item ∈ record.items)
    (hpath : path ∈ item.directories) (h : Clearing env token record w) :
    Task.wp (.alone fails) (Allowed env) (fun _ => Clearing env token record) (fun _ _ => True)
      (removeDirectory item.directoryRoot path) w := by
  unfold removeDirectory
  rw [Task.wp_bind]
  apply wp_lookOr_alone trivial _ (fun _ _ => trivial) fun _ => trivial
  intro present _
  cases present with
  | false => exact h
  | true =>
    rw [if_pos rfl, Task.wp_bind, Task.wp_alone]
    have hallowed : Allowed env (.rmdir (item.directoryRoot.at path)) w :=
      ⟨item, h.removable hitem, List.mem_map_of_mem hpath⟩
    refine ⟨hallowed, ?_, fun _ => trivial⟩
    have hkept : Clearing env token record
        (effect (.rmdir (item.directoryRoot.at path)) w) := by
      change Clearing env token record { w with disk := if _ then _ else _ }
      split
      · exact h.erase _
      · exact h
    split
    · exact wp_look_alone.2 ⟨trivial, hkept, fun _ => trivial⟩
    · trivial

theorem wp_unlinkItem (hitem : item ∈ record.items) (h : Clearing env token record w) :
    Task.wp (.alone fails) (Allowed env) (fun _ => Clearing env token record) (fun _ _ => True)
      (unlinkItem env item) w := by
  unfold unlinkItem
  apply Task.wp_seq (R := fun _ => Clearing env token record)
  · refine wp_forEach (I := fun _ => Clearing env token record) ?_ h
    intro past f rest hsplit s hs
    exact wp_unlinkFile hitem (by rw [hsplit]; simp) hs
  · intro _ s hs
    refine wp_forEach (I := fun _ => Clearing env token record) ?_ hs
    intro past path rest hsplit s hs
    refine wp_removeDirectory hitem (mem_deepestFirst.1 ?_) hs
    rw [hsplit]
    simp

/-- Steps of saving are allowed in every world. -/
theorem allowed_saves {site : Site} (h : site.saves = true) (w : World) : Allowed env site w := by
  cases site with
  | write => trivial
  | sync => trivial
  | discard => trivial
  | _ => cases h

/-- Steps of reading are allowed in every world. -/
theorem allowed_reads {site : Site} (h : site.reads = true) (w : World) : Allowed env site w := by
  cases site with
  | settings => trivial
  | references => trivial
  | recovery => trivial
  | records => trivial
  | rows => trivial
  | plan => trivial
  | _ => cases h

variable {call : Call}

/-- Steps on the records of the context service are allowed where they forget the listed notes. -/
theorem allowed_beside {site : Site} (hsite : site.beside = true) (h : Applying token record w)
    (hnext : Forgetting env (record.idsOf .note) w.context (effect site w).context) :
    Allowed env site w := by
  cases site with
  | writeBook => exact ⟨token, record, h, hnext⟩
  | dropCompletion => exact ⟨token, record, h, hnext⟩
  | dropCorrection => exact ⟨token, record, h, hnext⟩
  | dropJob => exact ⟨token, record, h, hnext⟩
  | emptyDossiers => exact ⟨token, record, h, hnext⟩
  | readBook => trivial
  | corrections => trivial
  | readCorrection => trivial
  | jobs => trivial
  | _ => cases hsite

/-- Steps of `project` are allowed in every world. -/
theorem allowed_projects {site : Site} (h : site.projects = true) (w : World) :
    Allowed env site w := by
  cases site with
  | observe => trivial
  | catalog => trivial
  | page => trivial
  | _ => cases h

theorem wp_purgeEntities_allowed (h : Applying token record w) :
    Task.wp (.alone fails) (Allowed env) (fun _ _ => True) (fun _ _ => True)
      (purgeEntities env call record) w := by
  unfold purgeEntities
  rw [Task.wp_bind, wp_look_alone]
  refine ⟨trivial, ?_, fun _ => trivial⟩
  dsimp only
  split
  · trivial
  · rw [Task.wp_bind]
    have hcovers : Covers env (record.idsOf .note) fails (Allowed env) (fun _ _ => True) w :=
      ⟨fun site c hsite _ hnext => allowed_beside hsite (w := w.withContext c) h hnext,
        fun _ _ _ _ => trivial⟩
    refine wp_forgetNotes hcovers fun c _ => Task.wp_of_steps ?_
    exact steps_bind (steps_perform (fun _ => trivial) _) fun _ =>
      steps_bind (steps_projectAll fun site hsite => allowed_projects hsite) fun _ =>
        steps_perform (fun _ => trivial) _

theorem wp_removeFiles (h : Clearing env token record w) :
    Task.wp (.alone fails) (Allowed env) (fun _ _ => True) (fun _ _ => True)
      (removeFiles env call record) w := by
  unfold removeFiles
  apply Task.wp_seq (R := fun _ => Clearing env token record)
  · refine wp_forEach (I := fun _ => Clearing env token record) ?_ h
    intro past item rest hsplit s hs
    exact wp_unlinkItem (by rw [hsplit]; simp) hs
  · intro _ s hs
    apply Task.wp_seq (wp_purgeEntities_allowed hs.1)
    intro _ s _
    rw [Task.wp_bind, wp_look_alone]
    refine ⟨trivial, ?_, fun _ => trivial⟩
    exact wp_perform_alone.2 ⟨trivial, trivial, fun _ => trivial⟩

/-- The receipt passes the check of a resumed purge. -/
def Checked (env : Env) (items : List Item) (w : World) : Prop :=
  ∃ refs, references env w.disk = .ok refs ∧ ∀ item ∈ items, resumable env w refs item = true

theorem clearing_commit (happlying : Applying token record w) (h : Checked env record.items w) :
    Clearing env token record (w.commit record.items) := by
  obtain ⟨refs, hrefs, hresumable⟩ := h
  have hunused : ∀ item ∈ record.items, inUse w refs item = false :=
    fun item hitem => inUse_of_resumable (hresumable item hitem)
  refine ⟨happlying, ⟨w.disk, refs, hrefs, Shrunk.refl w.disk, hunused⟩, ?_⟩
  intro item hitem hkind
  refine rowHeld_commit hitem hkind fun hartifact => ?_
  have hone := hunused item hitem
  unfold inUse at hone
  simpa [hartifact] using hone

theorem wp_commitRows {resuming : Bool} (happlying : Applying token record w)
    (h : Checked env record.items w) :
    Task.wp (.alone fails) (Allowed env) (fun _ => Clearing env token record) (fun _ _ => True)
      (commitRows env record resuming) w := by
  unfold commitRows
  rw [Task.wp_bind, wp_look_alone]
  refine ⟨trivial, ?_, fun _ => trivial⟩
  rw [Task.wp_bind, wp_look_alone]
  refine ⟨trivial, ?_, fun _ => trivial⟩
  rw [Task.wp_bind, Task.wp_raiseIf]
  split
  · trivial
  · rw [Task.wp_bind]
    apply wp_lookOr_alone trivial _ (fun _ _ => trivial) fun _ => trivial
    intro refs _
    rw [Task.wp_bind]
    apply wp_lookOr_alone trivial _ (fun _ _ => trivial) fun _ => trivial
    intro _ _
    rw [Task.wp_bind, wp_perform_alone]
    obtain ⟨refs', hrefs', hresumable⟩ := id h
    have hallowed : Allowed env (.commit record.items) w :=
      ⟨token, record, refs', happlying, rfl, hrefs', hresumable⟩
    refine ⟨hallowed, ?_, fun _ => trivial⟩
    rw [wp_look_alone]
    exact ⟨trivial, clearing_commit happlying h, fun _ => trivial⟩

/-- **A confirmation that passed its checks** removes only what it may. -/
theorem wp_carryOut {resuming : Bool} (h : Checked env record.items w) :
    Task.wp (.alone fails) (Allowed env) (fun _ _ => True) (fun _ _ => True)
      (carryOut env call record resuming) w := by
  unfold carryOut
  dsimp only
  rw [Task.wp_bind]
  refine wp_save (fun site hsite r _ => allowed_saves hsite _) (fun _ _ _ _ => trivial) ?_
  intro r hr
  have happlying : Applying record.token
      { record with state := .applying, error := none } (w.withReceipts r) := by
    refine ⟨?_, rfl⟩
    have hhere : (r .root).lookup record.token = some (some
      { record with state := .applying, error := none }) := hr.here
    simp [World.receipt?, World.withReceipts, hhere]
  have hgiveUp {α : Type} {Q : α → World → Prop} (record' : Record) (e : Raised) (s : World) :
      Task.wp (.alone fails) (Allowed env) Q (fun _ _ => True) (giveUp record' e) s :=
    wp_giveUp (fun site hsite r _ => allowed_saves hsite _) fun _ _ _ => trivial
  apply Task.wp_seq (R := fun _ =>
    Clearing env record.token { record with state := .applying, error := none })
  · rw [Task.wp_catchRaised]
    exact Task.wp_mono (wp_commitRows happlying h) (fun _ _ h => h) (fun _ _ h => h)
      fun e s _ => hgiveUp _ e s
  · intro _ s hs
    rw [Task.wp_bind, Task.wp_catchRaised]
    refine Task.wp_mono (wp_removeFiles hs) (fun _ _ h => h) ?_ fun e s _ => hgiveUp _ e s
    intro _ s _
    rw [Task.wp_bind, Task.wp_catchRaised]
    exact wp_save (fun site hsite r _ => allowed_saves hsite _) (fun _ _ r _ => hgiveUp _ _ _)
      fun _ _ => trivial

/-- The reading of a fresh list. -/
theorem wp_candidates {K : Site → World → Prop} {E : Raised → World → Prop}
    (hK : ∀ site : Site, site.reads = true → K site w) (hE : ∀ e, E e w) :
    Task.wp (.alone fails) K
      (fun found s => s = w ∧ ∃ refs saved complete abandoned, references env w.disk = .ok refs ∧
        candidatesFrom env w refs (call.now - w.retentionDays * day) saved complete abandoned =
          .ok found)
      E (candidates env call) w := by
  unfold candidates
  rw [Task.wp_bind, wp_look_alone]
  refine ⟨hK _ rfl, ?_, fun _ => hE _⟩
  rw [Task.wp_bind]
  apply wp_lookOr_alone (hK _ rfl) _ (fun _ _ => hE _) fun _ => hE _
  intro refs hrefs
  rw [Task.wp_bind]
  apply wp_lookOr_alone (hK _ rfl) _ (fun _ _ => hE _) fun _ => hE _
  intro saved _
  rw [Task.wp_bind, wp_look_alone]
  refine ⟨hK _ rfl, ?_, fun _ => hE _⟩
  rw [Task.wp_bind, wp_look_alone]
  refine ⟨hK _ rfl, ?_, fun _ => hE _⟩
  rw [Task.wp_bind, wp_look_alone]
  refine ⟨hK _ rfl, ?_, fun _ => hE _⟩
  apply wp_lookOr_alone (hK _ rfl) _ (fun _ _ => hE _) fun _ => hE _
  intro found hfound
  exact ⟨rfl, refs, saved, _, _, hrefs, hfound⟩

/-- **A confirmation** removes only what it may. -/
theorem wp_confirm :
    Task.wp (.alone fails) (Allowed env) (fun _ _ => True) (fun _ _ => True)
      (confirm env call token) w := by
  unfold confirm
  rw [Task.wp_bind]
  apply wp_lookOr_alone trivial _ (fun _ _ => trivial) fun _ => trivial
  intro record _
  rw [Task.wp_bind, wp_look_alone]
  refine ⟨trivial, ?_, fun _ => trivial⟩
  rw [Task.wp_bind, Task.wp_raiseIf]
  split
  · trivial
  have hresumed : Task.wp (.alone fails) (Allowed env) (fun _ _ => True) (fun _ _ => True) (do
      let refs ← lookOr .references (.osError none) fun w => references env w.disk
      look .rows .sqlalchemyError fun _ => ()
      lookOr .verify (.osError none) fun w => record.items.forM (verifyItem env w refs)
      carryOut env call record true) w := by
    rw [Task.wp_bind]
    apply wp_lookOr_alone trivial _ (fun _ _ => trivial) fun _ => trivial
    intro refs hrefs
    rw [Task.wp_bind, wp_look_alone]
    refine ⟨trivial, ?_, fun _ => trivial⟩
    rw [Task.wp_bind]
    apply wp_lookOr_alone trivial _ (fun _ _ => trivial) fun _ => trivial
    intro _ hverify
    refine wp_carryOut ⟨refs, hrefs, fun item hitem => ?_⟩
    have hone := forM_eq_ok.1 hverify item hitem
    unfold verifyItem at hone
    split at hone
    · next hresumable => exact hresumable
    · cases hone
  cases record.state with
  | complete => trivial
  | abandoned => trivial
  | applying => exact hresumed
  | failed => exact hresumed
  | preview =>
    dsimp only
    rw [Task.wp_bind, wp_look_alone]
    refine ⟨trivial, ?_, fun _ => trivial⟩
    rw [Task.wp_bind, Task.wp_raiseIf]
    split
    · trivial
    · apply Task.wp_seq (wp_candidates (fun site hsite => allowed_reads hsite w) fun _ => trivial)
      rintro ⟨items, kept⟩ s ⟨rfl, refs, saved, complete, abandoned, hrefs, hfound⟩
      rw [Task.wp_bind, Task.wp_raiseIf]
      split
      · trivial
      · next hitems =>
        obtain rfl : record.items = items := by simpa using hitems
        exact wp_carryOut ⟨refs, hrefs, fun item hitem => (planned_of_mem hfound hitem).resumable⟩

end Steps

/-- **Every operation** takes only steps that are allowed where it takes them. -/
theorem wp_operation {env : Env} {call : Call} {fails : Site → Prop} (w : World) :
    Task.wp (.alone fails) (Allowed env) (fun _ _ => True) (fun _ _ => True)
      (operation env call) w := by
  have hquiet (site : Site) (h : site.removes = false) : ∀ s, Allowed env site s := by
    intro s
    cases site with
    | unlink => cases h
    | rmdir => cases h
    | commit => cases h
    | writeBook => cases h
    | dropCompletion => cases h
    | dropCorrection => cases h
    | dropJob => cases h
    | emptyDossiers => cases h
    | _ => trivial
  unfold operation
  rw [Task.wp_catchRaised]
  refine Task.wp_mono (E := fun _ _ => True) ?_ (fun _ _ h => h) (fun _ _ h => h) ?_
  · unfold answer
    split
    · exact Task.wp_of_steps (steps_preview (P := fun site _ => ∀ s, Allowed env site s) hquiet)
    · exact wp_confirm
    · exact Task.wp_of_steps (steps_abandon (P := fun site _ => ∀ s, Allowed env site s) hquiet _)
  · intro e s _
    exact Task.wp_of_steps (steps_report (P := fun site _ => ∀ s, Allowed env site s) hquiet e)

end Coppermind.Purge
