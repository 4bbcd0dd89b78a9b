import Coppermind.Enrichment.Sound

/-!
# Runs of the enrichment jobs

`Inv.next`: a step keeps the invariant and changes every job by `Change`, the loops of `complete`
and `tick` job by job.  Closed jobs are left alone as long as nothing that was dismissed meanwhile
is saved, and `keepsClosed_iff` says that this is exactly the condition.
-/

namespace Coppermind.Enrichment

open Coppermind.Lib

variable {S A : Type}

section Dismissal

variable {w w' : World S A} {job job' : Job S A} {a : Action S A} {reopens : Prop} {id : JobId}

theorem indices_dismissed (job : Job S A) :
    indices (dismissed job).decisions = indices job.decisions := by
  show indices (job.decisions ++ [.dismissed]) = _
  rw [indices_append]
  exact List.append_nil _

/-- What the file of a job that an approval holds can be. -/
theorem Inv.held {holder : Holder S A} (h : Inv w) (hholder : w.holder = some holder)
    (hjob : view w.jobs holder.job.id = some job) :
    job.state = .suggested ∨ job.state = .rejected ∨ job.state = .applying := by
  have hok := h.holder
  rw [HolderOk, hholder] at hok
  cases holder with
  | evaluating held index =>
    obtain ⟨hstate, -, -, hfile | hfile⟩ := hok
    · obtain rfl := Option.some.inj (hfile.symm.trans hjob)
      exact .inl hstate
    · obtain rfl := Option.some.inj (hfile.symm.trans hjob)
      exact .inr (.inl rfl)
  | finishing held =>
    obtain rfl := Option.some.inj (hok.1.symm.trans hjob)
    exact .inr (.inr hok.2)

/-- The jobs that `complete` dismisses. -/
def Job.dismissable (job : Job S A) : Prop :=
  job.state = .suggested ∨ job.state = .queued ∨ job.state = .stale

theorem Inv.dismissed (h : Inv w) (hjob : view w.jobs job.id = some job)
    (hstate : job.dismissable) : Inv (w.save (dismissed job)) := by
  have hworker : WorkerOk (w.save (Enrichment.dismissed job)) := by
    refine h.worker.save rfl rfl (fun _ => le_rfl) ?_
    intro file hfile
    obtain rfl := Option.some.inj (hjob.symm.trans hfile)
    constructor
    · rintro hrunning
      simp [Job.dismissable, hrunning] at hstate
    · intro hwaits _ _ _
      exact ⟨.inr (.inr rfl), (indices_dismissed job).trans hwaits.2⟩
  have hholder : HolderOk (w.save (Enrichment.dismissed job)) := by
    by_cases hsame : ∃ holder, w.holder = some holder ∧ holder.job.id = job.id
    · obtain ⟨holder, hsome, hid⟩ := hsame
      have hok := h.holder
      unfold HolderOk at hok ⊢
      rw [hsome] at hok
      rw [show (w.save (Enrichment.dismissed job)).holder = some holder from hsome]
      cases holder with
      | evaluating held index =>
        obtain ⟨hsuggested, hindex, hheld, hfile | hfile⟩ := hok
        · rw [show held.id = job.id from hid] at hfile
          obtain rfl := Option.some.inj (hjob.symm.trans hfile)
          refine ⟨hsuggested, hindex, hheld, .inr ?_⟩
          rw [view_of_save rfl]
          exact if_pos rfl
        · rw [show held.id = job.id from hid] at hfile
          obtain rfl := Option.some.inj (hjob.symm.trans hfile)
          simp [Job.dismissable, Enrichment.dismissed] at hstate
      | finishing held =>
        obtain ⟨hfile, happlying⟩ := hok
        rw [show held.id = job.id from hid] at hfile
        obtain rfl := Option.some.inj (hjob.symm.trans hfile)
        simp [Job.dismissable, happlying] at hstate
    · refine h.holder.save rfl rfl (fun _ => le_rfl) ?_
      intro holder hsome hid
      exact hsame ⟨holder, hsome, hid⟩
  refine h.save rfl (fun _ => le_rfl) ?_ hworker hholder h.apart
  exact (h.jobs _ job hjob).decide rfl rfl rfl nofun ⟨by simp [Job.early, Enrichment.dismissed],
    by simp [Enrichment.dismissed]⟩

/-- What a dismissal makes of a job. -/
def Closes (job job' : Job S A) : Prop :=
  job' = job ∨ job.dismissable ∧ job' = Enrichment.dismissed job

theorem Closes.trans {job'' : Job S A} (h : Closes job job') (h' : Closes job' job'') :
    Closes job job'' := by
  obtain rfl | ⟨hstate, rfl⟩ := h
  · exact h'
  · obtain rfl | ⟨hstate', -⟩ := h'
    · exact .inr ⟨hstate, rfl⟩
    · simp [Job.dismissable, Enrichment.dismissed] at hstate'

theorem Closes.change (h : Closes job job') : Change w a reopens job job' := by
  obtain rfl | ⟨hstate, rfl⟩ := h
  · exact .same
  · have hdecides : Decides job (Enrichment.dismissed job) := .inl (indices_dismissed job)
    refine .opened ?_ ?_ ?_ hdecides <;> rintro hother <;> simp [Job.dismissable, hother] at hstate

theorem Inv.dismiss_loop (h : Inv w) (noteId : NoteId) (ids : List JobId) :
    Inv (dismiss noteId ids w) ∧ Changes Closes w (dismiss noteId ids w) := by
  induction ids generalizing w with
  | nil => exact ⟨h, .of_view (fun _ => .inl rfl) rfl⟩
  | cons id ids ih =>
    rw [dismiss]
    cases hjob : view w.jobs id with
    | none => exact ih h
    | some job =>
      simp only
      split
      · next hguard =>
        have hid := h.keyed id job hjob
        subst hid
        obtain ⟨hinv, hchanges⟩ := ih (h.dismissed hjob hguard.2)
        refine ⟨hinv, Changes.trans (fun _ _ _ => Closes.trans) ?_ hchanges⟩
        exact .save (fun _ => .inl rfl) rfl hjob (.inr ⟨hguard.2, rfl⟩)
      · exact ih h

end Dismissal

section Work

variable {w w' : World S A} {job job' file : Job S A} {a : Action S A} {reopens : Prop}

/-- The job the worker has saved is nobody else's. -/
theorem Inv.ne_held (h : Inv w) (hjob : view w.jobs job.id = some file) (hearly : file.early) :
    ∀ holder, w.holder = some holder → holder.job.id ≠ job.id := by
  intro holder hholder hid
  rw [← hid] at hjob
  obtain hstate | hstate | hstate := h.held hholder hjob <;> simp [Job.early, hstate] at hearly

/-- The worker saves the job it runs, and runs on or is done. -/
theorem Inv.saveRun (h : Inv w) (hjobs : w'.jobs = assign w.jobs job'.id job')
    (hapart : ∀ holder, w.holder = some holder → holder.job.id ≠ job'.id)
    (hok : JobOk job' (w.requests job'.id)) (hrequests : w'.requests = w.requests) (hholder : w'.holder = w.holder)
    (hworker : w'.worker = .idle ∨ w'.worker = .gathering job' ∧ job'.state = .running ∧
      w.requests job'.id < job'.attempts) : Inv w' := by
  have hle : ∀ id, w'.requests id ≤ w.requests id := by
    intro id
    rw [hrequests]
  have hworkerOk : WorkerOk w' := by
    unfold WorkerOk
    obtain hidle | ⟨hgathering, hrunning, hless⟩ := hworker
    · rw [hidle]
      trivial
    · rw [hgathering, hrequests]
      refine ⟨?_, hrunning, hless⟩
      rw [view_of_save hjobs, if_pos rfl]
  refine h.save hjobs hle (by rwa [hrequests]) hworkerOk
    (h.holder.save hholder hjobs hle hapart) ?_
  intro held holder hchecking
  obtain hidle | ⟨hgathering, -⟩ := hworker
  · rw [hidle] at hchecking
    cases hchecking
  · rw [hgathering] at hchecking
    cases hchecking

/-- The worker is done with nothing saved. -/
theorem Inv.idle (h : Inv w) : Inv { w with worker := .idle } :=
  h.goto rfl rfl trivial h.holder fun _ _ hchecking => by cases hchecking

/-- **The begin of a run**: the file that waits for it becomes an early one. -/
theorem Inv.beginRun {R : Job S A → Job S A → Prop} (h : Inv w) (hrefl : ∀ job, R job job)
    (hqueued : job.state = .queued) (hok : JobOk job (w.requests job.id))
    (hjob : view w.jobs job.id = some file)
    (hapart : ∀ holder, w.holder = some holder → holder.job.id ≠ job.id)
    (hR : w.config.enrichment.enabled = true → w.config.enrichment.paused = false →
      ∀ job' : Job S A, job'.early → indices job'.decisions = [] → R file job') :
    Inv (beginRun w job) ∧ Changes R w (beginRun w job) := by
  obtain ⟨limit, hlimit, hattempts⟩ := hok.limited
  have hdecisions := hok.early (.inl hqueued)
  simp only [Enrichment.beginRun]
  split
  · exact ⟨h.idle, .of_view hrefl rfl⟩
  · next hon =>
    rw [not_or, Bool.not_eq_false, Bool.not_eq_true] at hon
    rw [hlimit, Option.getD_some]
    split
    · refine ⟨h.saveRun rfl hapart ?_ rfl rfl (.inl rfl), ?_⟩
      · exact ⟨⟨limit, rfl, hattempts⟩, hok.requested, hok.decided, fun _ => hdecisions,
          fun happlying => by cases happlying⟩
      · exact .save hrefl rfl hjob (hR hon.1 hon.2 _ (.inr (.inr rfl)) hdecisions)
    · next hless =>
      have hless : job.attempts < limit := Nat.lt_of_not_le hless
      refine ⟨h.saveRun rfl hapart ?_ rfl rfl (.inr ⟨rfl, rfl, ?_⟩), ?_⟩
      · exact ⟨⟨limit, rfl, hless⟩, hok.requested.trans (Nat.le_succ _), hok.decided,
          fun _ => hdecisions, fun happlying => by cases happlying⟩
      · exact Nat.lt_succ_of_le hok.requested
      · exact .save hrefl rfl hjob (hR hon.1 hon.2 _ (.inr (.inl rfl)) hdecisions)

theorem JobOk.advance {requests : Nat} (h : JobOk job requests)
    (hlimit : job'.attemptLimit = job.attemptLimit) (hattempts : job'.attempts = job.attempts)
    (hdecisions : job'.decisions = job.decisions) (hearly : job.early)
    (happlying : job'.state ≠ .applying) : JobOk job' requests where
  limited := by rw [hlimit, hattempts]; exact h.limited
  requested := by rw [hattempts]; exact h.requested
  decided := by rw [hdecisions]; exact h.decided
  early := fun _ => by rw [hdecisions]; exact h.early hearly
  pending := fun hstate => absurd hstate happlying

theorem early_change (hearly : job.early) (hdecides : Decides job job') :
    Change w a reopens job job' := by
  refine .opened ?_ ?_ ?_ hdecides <;> intro hstate <;> simp [Job.early, hstate] at hearly

/-- **The end of a run.** -/
theorem Inv.endRun (h : Inv w) (hjob : view w.jobs job.id = some job) (hrunning : job.state = .running)
    (hid : job'.id = job.id) (hlimit : job'.attemptLimit = job.attemptLimit)
    (hattempts : job'.attempts = job.attempts) (hdecisions : job'.decisions = job.decisions)
    (happlying : job'.state ≠ .applying) :
    StepOk w a reopens { w.save job' with worker := .idle } := by
  have hearly : job.early := .inr (.inl hrunning)
  have hok : JobOk job' (w.requests job'.id) := by
    rw [hid]
    exact (h.jobs _ job hjob).advance hlimit hattempts hdecisions hearly happlying
  constructor
  · exact h.saveRun rfl (by rw [hid]; exact h.ne_held hjob hearly) hok rfl rfl (.inl rfl)
  · refine .save (fun _ => .same) rfl (by rw [hid]; exact hjob) (early_change hearly ?_)
    exact .inl (congrArg indices hdecisions)

/-- A request is made. -/
theorem Inv.request (h : Inv w) (hjob : view w.jobs job.id = some job)
    (hrunning : job.state = .running) (hless : w.requests job.id < job.attempts) :
    Inv { w with
      worker := .requesting job
      requests := Function.update w.requests job.id (w.requests job.id + 1) } where
  keyed := h.keyed
  jobs := by
    intro id held hheld
    have hok := h.jobs id held hheld
    by_cases hid : id = job.id
    · subst hid
      obtain rfl := Option.some.inj (hjob.symm.trans hheld)
      simp only [Function.update_self]
      exact ⟨hok.limited, hless, hok.decided, hok.early, hok.pending⟩
    · simp only [Function.update_of_ne hid]
      exact hok
  unborn := by
    intro id hnone
    have hne : id ≠ job.id := by
      rintro rfl
      rw [hjob] at hnone
      cases hnone
    simp only [Function.update_of_ne hne]
    exact h.unborn id hnone
  worker := ⟨hjob, hrunning⟩
  holder := by
    have hne := h.ne_held hjob (.inr (.inl hrunning))
    have hok := h.holder
    unfold HolderOk at hok ⊢
    cases hw : w.holder with
    | none => trivial
    | some holder =>
      rw [hw] at hok
      cases holder with
      | evaluating held index =>
        simp only [Function.update_of_ne (show held.id ≠ job.id from hne _ hw)]
        exact hok
      | finishing held => exact hok
  apart := fun _ _ hchecking => by cases hchecking

/-- **The worker**: it reopens a job only behind `check_calendars`. -/
theorem Inv.work (h : Inv w) (reply : Reply S)
    (hreopens : ∀ job, w.worker = .checking job → reply = .ok →
      w.config.enrichment.enabled = true → w.config.enrichment.paused = false →
        w.isDismissed job.id = true → reopens) :
    StepOk w a reopens (work w reply) := by
  have hok := h.worker
  unfold WorkerOk at hok
  have hfail {job : Job S A} (hjob : view w.jobs job.id = some job) (hrunning : job.state = .running)
      (stale : Bool) (error : Text) : StepOk w a reopens (failRun w job stale error) := by
    refine h.endRun hjob hrunning rfl rfl rfl rfl ?_
    simp only
    split <;> decide
  cases hw : w.worker with
  | idle =>
    have hwork : Enrichment.work w reply = w := by
      simp only [Enrichment.work, hw]
    rw [hwork]
    exact h.stepOk_self
  | checking job =>
    rw [hw] at hok
    obtain ⟨hqueued, hjobOk, file, hfile, hwaits⟩ := hok
    cases reply with
    | raised =>
      simp only [Enrichment.work, hw]
      exact ⟨h.idle, .of_view (fun _ => .same) rfl⟩
    | ok =>
      simp only [Enrichment.work, hw]
      refine h.beginRun (fun _ => .same) hqueued hjobOk hfile (fun holder => h.apart job holder hw) ?_
      intro henabled hpaused job' hearly hindices
      by_cases hrejected : file.state = .rejected
      · have hdismissed : w.isDismissed job.id = true := by
          simp [World.isDismissed, hfile, hrejected]
        refine .reopened (hreopens job hw rfl henabled hpaused hdismissed) hrejected ?_
          (hindices.trans hwaits.2.symm)
        intro hstate
        simp [Job.early, hstate] at hearly
      · have hfileEarly : file.early := by
          obtain hstate | hstate | hstate := hwaits.1
          · exact .inl hstate
          · exact .inr (.inr hstate)
          · exact absurd hstate hrejected
        exact early_change hfileEarly (.inl (hindices.trans hwaits.2.symm))
    | refused | answered =>
      simp only [Enrichment.work, hw]
      exact h.stepOk_self
  | gathering job =>
    rw [hw] at hok
    obtain ⟨hjob, hrunning, hless⟩ := hok
    cases reply with
    | refused stale error =>
      simp only [Enrichment.work, hw]
      exact hfail hjob hrunning stale error
    | ok =>
      simp only [Enrichment.work, hw]
      exact ⟨h.request hjob hrunning hless, .of_view (fun _ => .same) rfl⟩
    | raised | answered =>
      simp only [Enrichment.work, hw]
      exact h.stepOk_self
  | requesting job =>
    rw [hw] at hok
    cases reply with
    | refused stale error =>
      simp only [Enrichment.work, hw]
      exact hfail hok.1 hok.2 stale error
    | answered result =>
      simp only [Enrichment.work, hw]
      exact ⟨h.goto rfl rfl hok h.holder (fun _ _ hchecking => by cases hchecking),
        .of_view (fun _ => .same) rfl⟩
    | raised | ok =>
      simp only [Enrichment.work, hw]
      exact h.stepOk_self
  | confirming job result =>
    rw [hw] at hok
    cases reply with
    | refused stale error =>
      simp only [Enrichment.work, hw]
      exact hfail hok.1 hok.2 stale error
    | ok =>
      simp only [Enrichment.work, hw]
      exact h.endRun hok.1 hok.2 rfl rfl rfl rfl (by simp)
    | raised | answered =>
      simp only [Enrichment.work, hw]
      exact h.stepOk_self

end Work

section Approval

variable {w w' : World S A} {job job' file : Job S A} {a : Action S A} {reopens : Prop}

/-- What an approval saves is the worker's neither before nor behind it. -/
theorem Inv.saveHeld {holder : Holder S A} (h : Inv w) (hheld : w.holder = some holder)
    (hjobs : w'.jobs = assign w.jobs job'.id job') (hid : holder.job.id = job'.id)
    (hworker : w'.worker = w.worker) (hrequests : w'.requests = w.requests)
    (hok : JobOk job' (w.requests job'.id))
    (hholder : w'.holder = none ∨ w'.holder = some (.finishing job') ∧ job'.state = .applying) :
    Inv w' := by
  have hle : ∀ id, w'.requests id ≤ w.requests id := by
    intro id
    rw [hrequests]
  have hapart : ∀ held, w.worker = .checking held → held.id ≠ job'.id := by
    intro held hchecking hsame
    exact h.apart held holder hchecking hheld (hid.trans hsame.symm)
  have hworkerOk : WorkerOk w' := by
    refine h.worker.save hworker hjobs hle ?_
    intro file hfile
    constructor
    · rw [← hid] at hfile
      obtain hstate | hstate | hstate := h.held hheld hfile <;> rw [hstate] <;> decide
    · intro _ held hchecking hsame
      exact absurd hsame (hapart held hchecking)
  have hholderOk : HolderOk w' := by
    unfold HolderOk
    obtain hnone | ⟨hfinishing, happlying⟩ := hholder
    · rw [hnone]
      trivial
    · rw [hfinishing]
      refine ⟨?_, happlying⟩
      rw [view_of_save hjobs, if_pos rfl]
  refine h.save hjobs hle (by rwa [hrequests]) hworkerOk hholderOk ?_
  intro held holder' hchecking hholder'
  rw [hworker] at hchecking
  obtain hnone | ⟨hfinishing, -⟩ := hholder
  · rw [hnone] at hholder'
    cases hholder'
  · rw [hfinishing] at hholder'
    obtain rfl := Option.some.inj hholder'
    exact (hapart held hchecking).symm

/-- The lock is given back with nothing saved. -/
theorem Inv.release (h : Inv w) : Inv { w with holder := none } :=
  h.goto rfl rfl h.worker trivial fun _ _ _ hholder => by cases hholder

/-- An approval that is saved before its writes. -/
theorem held_change (hstate : job.state = .suggested)
    (hfile : file = job ∨ file = Enrichment.dismissed job) (hdecisions : job'.decisions = job.decisions)
    (hrejected : job'.state ≠ .rejected)
    (hreopens : file.state = .rejected → reopens) : Change w a reopens file job' := by
  obtain rfl | rfl := hfile
  · refine .opened ?_ ?_ ?_ (.inl (congrArg indices hdecisions)) <;> rw [hstate] <;> decide
  · refine .reopened (hreopens rfl) rfl hrejected ?_
    rw [indices_dismissed, hdecisions]

/-- **The approvals**: one reopens a job that was dismissed before its first save. -/
theorem Inv.proceed (h : Inv w) (verdict : Verdict A) (ha : a = .proceed verdict)
    (hreopens : ∀ job index, w.holder = some (.evaluating job index) →
      (verdict = .stale ∨ ∃ rest, verdict = .approved rest) →
        w.isDismissed job.id = true → reopens) :
    StepOk w a reopens (proceed w verdict) := by
  have hok := h.holder
  unfold HolderOk at hok
  cases hw : w.holder with
  | none =>
    have hproceed : Enrichment.proceed w verdict = w := by
      simp only [Enrichment.proceed, hw]
    rw [hproceed]
    exact h.stepOk_self
  | some holder =>
    rw [hw] at hok
    cases holder with
    | evaluating job index =>
      obtain ⟨hstate, hindex, hjobOk, hfiles⟩ := hok
      obtain ⟨file, hfile, hcases⟩ : ∃ file, view w.jobs job.id = some file ∧
          (file = job ∨ file = Enrichment.dismissed job) := by
        obtain hfile | hfile := hfiles
        · exact ⟨_, hfile, .inl rfl⟩
        · exact ⟨_, hfile, .inr rfl⟩
      have hdismissed (hrejected : file.state = .rejected) : w.isDismissed job.id = true := by
        simp [World.isDismissed, hfile, hrejected]
      cases verdict with
      | refused =>
        simp only [Enrichment.proceed, hw]
        exact ⟨h.release, .of_view (fun _ => .same) rfl⟩
      | stale =>
        simp only [Enrichment.proceed, hw]
        constructor
        · refine h.saveHeld hw rfl rfl rfl rfl ?_ (.inl rfl)
          exact ⟨hjobOk.limited, hjobOk.requested, hjobOk.decided,
            fun hearly => by simp [Job.early] at hearly, fun happlying => by cases happlying⟩
        · exact .save (fun _ => .same) rfl hfile (held_change hstate hcases rfl (by simp)
            fun hrejected => hreopens job index hw (.inl rfl) (hdismissed hrejected))
      | approved rest =>
        simp only [Enrichment.proceed, hw]
        constructor
        · refine h.saveHeld hw rfl rfl rfl rfl ?_ (.inr ⟨rfl, rfl⟩)
          exact ⟨hjobOk.limited, hjobOk.requested, hjobOk.decided,
            fun hearly => by simp [Job.early] at hearly, fun _ => ⟨_, rfl, hindex⟩⟩
        · exact .save (fun _ => .same) rfl hfile (held_change hstate hcases rfl (by simp)
            fun hrejected => hreopens job index hw (.inr ⟨rest, rfl⟩) (hdismissed hrejected))
      | written changedDate =>
        simp only [Enrichment.proceed, hw]
        exact h.stepOk_self
    | finishing job =>
      obtain ⟨hfile, happlying⟩ := hok
      have hjobOk := h.jobs _ job hfile
      obtain ⟨approval, hpending, hindex⟩ := hjobOk.pending happlying
      cases verdict with
      | refused =>
        simp only [Enrichment.proceed, hw]
        exact ⟨h.release, .of_view (fun _ => .same) rfl⟩
      | stale | approved =>
        simp only [Enrichment.proceed, hw]
        exact h.stepOk_self
      | written changedDate =>
        simp only [Enrichment.proceed, hw, hpending]
        constructor
        · refine h.saveHeld hw rfl rfl rfl rfl ?_ (.inl rfl)
          refine hjobOk.decide rfl rfl rfl ?_ ?_
          · intro index hsome
            obtain rfl := Option.some.inj hsome
            exact hindex
          · constructor
            · simp only [Job.early, finished]
              split
              · decide
              · split <;> decide
            · simp only [finished]
              split
              · decide
              · split <;> decide
        · exact .save (fun _ => .same) rfl hfile (.finished happlying hpending hw ha hindex)

end Approval

section Sweep

variable {w w' : World S A} {job job' file : Job S A} {a : Action S A} {reopens : Prop}

/-- What the loop over the jobs makes of one. -/
def Swept (job job' : Job S A) : Prop :=
  job' = job ∨
    (job.early ∧ indices job.decisions = []) ∧ job'.early ∧ indices job'.decisions = []

theorem Swept.trans {job'' : Job S A} (h : Swept job job') (h' : Swept job' job'') :
    Swept job job'' := by
  obtain rfl | ⟨hjob, hjob'⟩ := h
  · exact h'
  · obtain rfl | ⟨-, hjob''⟩ := h'
    · exact .inr ⟨hjob, hjob'⟩
    · exact .inr ⟨hjob, hjob''⟩

theorem Swept.change (h : Swept job job') : Change w a reopens job job' := by
  obtain rfl | ⟨hjob, hjob'⟩ := h
  · exact .same
  · exact early_change hjob.1 (.inl (hjob'.2.trans hjob.2.symm))

theorem recover_of_ne {requests attempts : Nat} (hok : JobOk job requests)
    (hstate : job.state ≠ .running) : recover attempts job = job := by
  obtain ⟨limit, hlimit, -⟩ := hok.limited
  simp only [recover, if_neg hstate, hlimit, Option.getD_some]
  rw [← hlimit]

/-- An interrupted run is failed or queued. -/
theorem recover_of_running {requests : Nat} (attempts : Nat) (hok : JobOk job requests)
    (hstate : job.state = .running) :
    JobOk (recover attempts job) requests ∧ (recover attempts job).id = job.id ∧
      ((recover attempts job).state = .queued ∨ (recover attempts job).state = .failed) ∧
      indices (recover attempts job).decisions = [] := by
  obtain ⟨limit, hlimit, hattempts⟩ := hok.limited
  have hdecisions := hok.early (.inr (.inl hstate))
  simp only [recover, if_pos hstate, hlimit, Option.getD_some]
  split
  · exact ⟨⟨⟨limit, rfl, hattempts⟩, hok.requested, hok.decided, fun _ => hdecisions,
      fun happlying => by cases happlying⟩, rfl, .inr rfl, hdecisions⟩
  · exact ⟨⟨⟨limit, rfl, hattempts⟩, hok.requested, hok.decided, fun _ => hdecisions,
      fun happlying => by cases happlying⟩, rfl, .inl rfl, hdecisions⟩

theorem requeue_queued {requests : Nat} (hok : JobOk job requests)
    (hstate : (requeue job).state = .queued) :
    JobOk (requeue job) requests ∧ (requeue job).id = job.id ∧
      (job.state = .queued ∨ job.state = .failed) := by
  simp only [requeue] at hstate ⊢
  split
  · next hfailed =>
    have hdecisions := hok.early (.inr (.inr hfailed.1))
    exact ⟨⟨hok.limited, hok.requested, hok.decided, fun _ => hdecisions,
      fun happlying => by cases happlying⟩, rfl, .inr hfailed.1⟩
  · next hfailed =>
    rw [if_neg hfailed] at hstate
    exact ⟨hok, rfl, .inl hstate⟩

/-- **The start of a run** from the loop. -/
theorem Inv.runJob (h : Inv w) (hjob : view w.jobs job.id = some job)
    (hstate : (requeue job).state = .queued) :
    Inv (runJob w (requeue job)) ∧ Changes Swept w (runJob w (requeue job)) := by
  obtain ⟨hok, hid, hearly⟩ := requeue_queued (h.jobs _ job hjob) hstate
  have hjobEarly : job.early := by
    obtain hearly | hearly := hearly
    · exact .inl hearly
    · exact .inr (.inr hearly)
  have hdecisions := (h.jobs _ job hjob).early hjobEarly
  have hne := h.ne_held hjob hjobEarly
  simp only [Enrichment.runJob]
  rw [← hid] at hjob hok hne
  split
  · have hwaits : Awaiting job := by
      refine ⟨?_, hdecisions⟩
      obtain hearly | hearly := hearly
      · exact .inl hearly
      · exact .inr (.inl hearly)
    refine ⟨h.goto rfl rfl ⟨hstate, hok, job, hjob, hwaits⟩ h.holder ?_,
      .of_view (fun _ => .inl rfl) rfl⟩
    intro held holder hchecking hholder
    obtain rfl := Worker.checking.inj hchecking
    exact hne holder hholder
  · apply h.beginRun (fun _ => .inl rfl) hstate hok hjob hne
    intro _ _ job' hearly' hindices
    exact .inr ⟨⟨hjobEarly, hdecisions⟩, hearly', hindices⟩

theorem view_save_self (hjob : view w.jobs job.id = some job) :
    view (w.save job).jobs = view w.jobs := by
  funext id
  rw [view_of_save rfl]
  split
  · next hid => rw [hid, hjob]
  · rfl

/-- What the loop saves of a job before it may run it. -/
theorem Inv.recover (h : Inv w) (hidle : w.worker = .idle) (attempts : Nat)
    (hjob : view w.jobs job.id = some job) :
    Inv (w.save (recover attempts job)) ∧ Changes Swept w (w.save (recover attempts job)) ∧
      (recover attempts job).id = job.id := by
  have hok := h.jobs _ job hjob
  by_cases hstate : job.state = .running
  · obtain ⟨hok', hid, hstates, hindices⟩ := recover_of_running attempts hok hstate
    have hearly : job.early := .inr (.inl hstate)
    have hearly' : (Enrichment.recover attempts job).early := by
      obtain hqueued | hfailed := hstates
      · exact .inl hqueued
      · exact .inr (.inr hfailed)
    refine ⟨h.saveRun rfl ?_ (by rwa [hid]) rfl rfl (.inl hidle), ?_, hid⟩
    · rw [hid]
      exact h.ne_held hjob hearly
    · exact .save (fun _ => .inl rfl) rfl (by rwa [hid])
        (.inr ⟨⟨hearly, hok.early hearly⟩, hearly', hindices⟩)
  · rw [recover_of_ne hok hstate]
    exact ⟨h.of_eq (view_save_self hjob) rfl rfl rfl,
      .of_view (fun _ => .inl rfl) (view_save_self hjob), rfl⟩

theorem Inv.sweep (h : Inv w) (hidle : w.worker = .idle) (attempts : Nat) (ids : List JobId) :
    Inv (sweep attempts ids w) ∧ Changes Swept w (sweep attempts ids w) := by
  induction ids generalizing w with
  | nil => exact ⟨h, .of_view (fun _ => .inl rfl) rfl⟩
  | cons id ids ih =>
    rw [Enrichment.sweep]
    cases hjob : view w.jobs id with
    | none => exact ih h hidle
    | some job =>
      have hid := h.keyed id job hjob
      subst hid
      obtain ⟨hinv, hchanges, hid⟩ := h.recover hidle attempts hjob
      simp only
      split
      · next hqueued =>
        have hsaved : view (w.save (Enrichment.recover attempts job)).jobs
            (Enrichment.recover attempts job).id = some (Enrichment.recover attempts job) := by
          rw [view_of_save rfl, if_pos rfl]
        obtain ⟨hinv', hchanges'⟩ := hinv.runJob hsaved hqueued
        exact ⟨hinv', Changes.trans (fun _ _ _ => Swept.trans) hchanges hchanges'⟩
      · obtain ⟨hinv', hchanges'⟩ := ih hinv hidle
        exact ⟨hinv', Changes.trans (fun _ _ _ => Swept.trans) hchanges hchanges'⟩

end Sweep

section Runs

variable {w : World S A}

/-- **One step** keeps the invariant, and only one that is not careful reopens a job. -/
theorem Inv.next (h : Inv w) (a : Action S A) : StepOk w a (¬ Careful w a) (next w a) := by
  have hlocked {w' : World S A} (hstep : w.holder = none → StepOk w a (¬ Careful w a) w') :
      StepOk w a (¬ Careful w a) (if w.holder.isSome then w else w') := by
    split
    · exact h.stepOk_self
    · next hfree => exact hstep (by simpa using hfree)
  cases a with
  | configure config =>
    exact ⟨h.of_eq rfl rfl rfl rfl, .of_view (fun _ => .same) rfl⟩
  | enqueue noteId force found assignment =>
    apply hlocked
    intro hfree
    cases hqueue : Enrichment.queueNote w noteId force found assignment with
    | none => exact h.stepOk_self
    | some w' => exact (h.queueNote hfree hqueue).1
  | sweep assignment =>
    simp only [Enrichment.next]
    split
    · next hidle =>
      split
      · exact h.stepOk_self
      · obtain ⟨hinv, hchanges⟩ := h.sweep hidle assignment.attempts _
        exact ⟨hinv, hchanges.mono fun _ _ => Swept.change⟩
    · exact h.stepOk_self
  | work reply =>
    apply h.work
    rintro job hchecking rfl henabled hpaused hdismissed hcareful
    simp only [Careful, hchecking] at hcareful
    rw [hcareful henabled hpaused] at hdismissed
    cases hdismissed
  | approve id index => exact hlocked fun _ => h.approve index
  | resume id => exact hlocked fun _ => h.resume
  | proceed verdict =>
    apply h.proceed verdict rfl
    rintro job index hholder hverdict hdismissed hcareful
    obtain rfl | ⟨rest, rfl⟩ := hverdict
    · simp only [Careful, hholder] at hcareful
      rw [hcareful] at hdismissed
      cases hdismissed
    · simp only [Careful, hholder] at hcareful
      rw [hcareful] at hdismissed
      cases hdismissed
  | reject id index => exact hlocked fun hfree => h.reject hfree index
  | retry slot id =>
    simp only [Enrichment.next]
    split
    · exact h.retry slot
    · exact h.stepOk_self
  | requeue slot found assignment =>
    simp only [Enrichment.next]
    split
    · next hfree hslot =>
      split
      · exact ⟨h.of_eq rfl rfl rfl rfl, .of_view (fun _ => .same) rfl⟩
      · next w' hqueue =>
        obtain ⟨⟨hinv, hchanges⟩, -⟩ := h.queueNote hfree hqueue
        exact ⟨hinv.of_eq rfl rfl rfl rfl, hchanges⟩
    · exact h.stepOk_self
  | reset slot =>
    simp only [Enrichment.next]
    split
    · next id hfree hslot =>
      have hinv : Inv { w with retries := Function.update w.retries slot none } :=
        h.of_eq rfl rfl rfl rfl
      obtain ⟨hinv', hchanges⟩ := hinv.reset hfree
      exact ⟨hinv', hchanges.mono fun _ _ => Change.of_holder rfl⟩
    · exact h.stepOk_self
  | dismiss noteId =>
    obtain ⟨hinv, hchanges⟩ := h.dismiss_loop noteId (w.jobs.keys.insertionSort (· ≤ ·))
    exact ⟨hinv, hchanges.mono fun _ _ => Closes.change⟩
  | kill =>
    exact ⟨h.goto rfl rfl trivial trivial (fun _ _ hchecking => by cases hchecking),
      .of_view (fun _ => .same) rfl⟩

theorem inv_foldl (h : Inv w) (actions : List (Action S A)) : Inv (actions.foldl next w) := by
  induction actions generalizing w with
  | nil => exact h
  | cons a actions ih => exact ih (h.next a).1

end Runs

section Reopening

variable {w : World S A} {job job' : Job S A} {a : Action S A}

/-- The dismissed job is there no more. -/
theorem not_keepsClosed (hdismissed : w.isDismissed job.id = true)
    (hjob' : view (next w a).jobs job.id = some job') (hstate : job'.state ≠ .rejected) :
    ¬ KeepsClosed w a := by
  intro hkeeps
  simp only [World.isDismissed, Option.any_eq_true, decide_eq_true_eq] at hdismissed
  obtain ⟨file, hfile, hrejected⟩ := hdismissed
  obtain ⟨kept, hkept, hsame, -⟩ := hkeeps job.id file hfile (.inr hrejected)
  obtain rfl := Option.some.inj (hjob'.symm.trans hkept)
  exact hstate (hsame.trans hrejected)

theorem exists_view_beginRun (henabled : w.config.enrichment.enabled = true)
    (hpaused : w.config.enrichment.paused = false) :
    ∃ job', view (beginRun w job).jobs job.id = some job' ∧ job'.state ≠ .rejected := by
  simp only [beginRun]
  rw [if_neg (by simp [henabled, hpaused])]
  split
  · exact ⟨_, by rw [view_of_save rfl, if_pos rfl], by simp⟩
  · exact ⟨_, by rw [view_of_save rfl, if_pos rfl], by simp⟩

/-- **The condition of a step**: it leaves the closed jobs alone if and only if it saves none that
was dismissed since it was loaded. -/
theorem keepsClosed_iff (h : Inv w) (a : Action S A) : KeepsClosed w a ↔ Careful w a := by
  constructor
  · intro hkeeps
    cases a with
    | work reply =>
      cases reply with
      | ok =>
        simp only [Careful]
        split
        · next job hchecking =>
          intro henabled hpaused
          by_contra hdismissed
          rw [Bool.not_eq_false] at hdismissed
          have hnext : next w (.work .ok) = beginRun w job := by
            simp only [next, work, hchecking]
          obtain ⟨job', hjob', hstate⟩ := @exists_view_beginRun _ _ w job henabled hpaused
          rw [← hnext] at hjob'
          exact not_keepsClosed hdismissed hjob' hstate hkeeps
        · trivial
      | raised | refused | answered => trivial
    | proceed verdict =>
      have hsaved {job' : Job S A} {w' : World S A} (hdismissed : w.isDismissed job'.id = true)
          (hnext : next w (.proceed verdict) = w')
          (hjobs : w'.jobs = assign w.jobs job'.id job') (hstate : job'.state ≠ .rejected) :
          False := by
        refine not_keepsClosed hdismissed ?_ hstate hkeeps
        rw [hnext, view_of_save hjobs, if_pos rfl]
      cases verdict with
      | stale =>
        simp only [Careful]
        split
        · next job index hholder =>
          by_contra hdismissed
          rw [Bool.not_eq_false] at hdismissed
          exact @hsaved { job with state := .stale } _ hdismissed
            (by simp only [next, proceed, hholder]; rfl) rfl (by simp)
        · trivial
      | approved rest =>
        simp only [Careful]
        split
        · next job index hholder =>
          by_contra hdismissed
          rw [Bool.not_eq_false] at hdismissed
          exact @hsaved { job with pendingApproval := some ⟨index, rest⟩, state := .applying } _
            hdismissed (by simp only [next, proceed, hholder]; rfl) rfl (by simp)
        · trivial
      | refused | written => trivial
    | configure | enqueue | sweep | approve | resume | reject | retry | requeue | reset | dismiss
    | kill => trivial
  · intro hcareful
    exact (h.next a).2.keepsClosed (not_not.2 hcareful)

end Reopening

section Main

variable (config : Config) (actions : List (Action S A))

/-- **The jobs are sound**: in every run no suggestion is decided twice, no request is made over
the limit, every step keeps what is decided and leaves `applying` only by finishing the approval;
and the closed jobs are left alone if and only if no step saves a job that was dismissed since it
was loaded. -/
theorem jobs_sound :
    Sound (run config actions) ∧ (∀ a, StepSound (run config actions) a) ∧
      (Along next KeepsClosed (.initial config) actions ↔
        Along next Careful (.initial config) actions) := by
  have hinv : Inv (run config actions) := inv_foldl (inv_initial config) actions
  refine ⟨hinv.sound, fun a => (hinv.next a).2.stepSound, ?_, ?_⟩
  · intro h
    exact h.imp (fun _ a hw _ => (hw.next a).1) (fun _ a hw => (keepsClosed_iff hw a).1)
      (inv_initial config)
  · intro h
    exact h.imp (fun _ a hw _ => (hw.next a).1) (fun _ a hw => (keepsClosed_iff hw a).2)
      (inv_initial config)

end Main

section Samples

def enrichmentOn : Assignment := ⟨true, false, 3⟩

def lifecycleOn : Config := ⟨enrichmentOn, true⟩

def standupJob : JobId := "5e".toList

/-- A note is queued, and `complete` finishes its review while the worker is in
`check_calendars`. -/
def reviewedMeanwhile : List (Action Unit Unit) :=
  [.enqueue "standup".toList false standupJob enrichmentOn, .sweep enrichmentOn,
    .dismiss "standup".toList]

/-- The worker runs the dismissed job all the same. -/
theorem dismissed_job_runs :
    ¬ Along next KeepsClosed (.initial lifecycleOn) (reviewedMeanwhile ++ [.work .ok]) := by
  intro h
  obtain ⟨-, -, -, hkeeps, -⟩ := h
  have hdismissed : (view (run lifecycleOn reviewedMeanwhile).jobs standupJob).map (·.state) =
      some .rejected := by decide +kernel
  have hruns : (view (next (run lifecycleOn reviewedMeanwhile) (.work .ok)).jobs standupJob).map
      (·.state) = some .running := by decide +kernel
  obtain ⟨job, hjob, hrejected⟩ := Option.map_eq_some_iff.1 hdismissed
  obtain ⟨job', hjob', hsame, -⟩ := hkeeps standupJob job hjob (.inr hrejected)
  obtain ⟨run, hrun, hrunning⟩ := Option.map_eq_some_iff.1 hruns
  obtain rfl := Option.some.inj (hjob'.symm.trans hrun)
  rw [hrunning, hrejected] at hsame
  cases hsame

end Samples

end Coppermind.Enrichment
