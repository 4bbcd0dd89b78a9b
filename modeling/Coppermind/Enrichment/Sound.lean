import Coppermind.Enrichment.Jobs

/-!
# The soundness of the enrichment jobs

The job that the worker or an approval holds over an await is the file's, except that `complete`
may have dismissed the file meanwhile (`WorkerOk`, `HolderOk`).  So every step decides a
suggestion at most once, leaves `applying` only by finishing the approval, and keeps the requests
within the limit; a closed job is left alone unless one that was dismissed is saved (`Careful`).
-/

namespace Coppermind.Enrichment

open Coppermind.Lib

variable {S A : Type}

section Statement

variable (w : World S A)

/-- `complete` has dismissed the job. -/
def World.isDismissed (id : JobId) : Bool :=
  (view w.jobs id).any fun job => job.state = .rejected

/-- The step saves no job that was dismissed since it was loaded: neither the one the worker holds
over `check_calendars` nor the one an approval holds over its evidence. -/
def Careful : Action S A → Prop
  | .work .ok =>
    match w.worker with
    | .checking job =>
      w.config.enrichment.enabled = true → w.config.enrichment.paused = false →
        w.isDismissed job.id = false
    | _ => True
  | .proceed .stale | .proceed (.approved _) =>
    match w.holder with
    | some (.evaluating job _) => w.isDismissed job.id = false
    | _ => True
  | _ => True

/-- A closed job. -/
def Job.closed (job : Job S A) : Prop :=
  job.state = .applied ∨ job.state = .rejected

/-- **No suggestion is decided twice, and no request is made over the limit.** -/
structure Sound : Prop where
  decided : ∀ id job, view w.jobs id = some job → (indices job.decisions).Nodup
  limited : ∀ id job, view w.jobs id = some job →
    ∃ limit, job.attemptLimit = some limit ∧ w.requests id ≤ limit

/-- At most one suggestion is decided, and none was. -/
def Decides (job job' : Job S A) : Prop :=
  indices job'.decisions = indices job.decisions ∨
    ∃ index, index ∉ indices job.decisions ∧
      indices job'.decisions = indices job.decisions ++ [index]

/-- **What a step makes of the jobs**: none is lost, what is decided stays so, and a job that is
being applied stays so but for the end of its approval. -/
structure StepSound (a : Action S A) : Prop where
  decides : ∀ id job, view w.jobs id = some job →
    ∃ job', view (next w a).jobs id = some job' ∧ Decides job job'
  applying : ∀ id job, view w.jobs id = some job → job.state = .applying →
    view (next w a).jobs id = some job ∨
      ∃ approval changedDate, job.pendingApproval = some approval ∧
        w.holder = some (.finishing job) ∧ a = .proceed (.written changedDate) ∧
        view (next w a).jobs id = some (finished job approval changedDate)

/-- The step leaves every closed job its state, its result and its decisions. -/
def KeepsClosed (a : Action S A) : Prop :=
  ∀ id job, view w.jobs id = some job → job.closed →
    ∃ job', view (next w a).jobs id = some job' ∧ job'.state = job.state ∧
      job'.result = job.result ∧ job'.decisions = job.decisions

end Statement

section Changes

/-- What a step makes of a file that is there, by `R`. -/
def Changes (R : Job S A → Job S A → Prop) (w w' : World S A) : Prop :=
  ∀ id job, view w.jobs id = some job → ∃ job', view w'.jobs id = some job' ∧ R job job'

variable {R R' : Job S A → Job S A → Prop} {w w' w'' : World S A} {job job' : Job S A}

theorem Changes.mono (h : Changes R w w') (hR : ∀ job job', R job job' → R' job job') :
    Changes R' w w' := by
  intro id job hjob
  obtain ⟨job', hjob', hr⟩ := h id job hjob
  exact ⟨job', hjob', hR _ _ hr⟩

theorem Changes.of_view (hrefl : ∀ job, R job job) (hview : view w'.jobs = view w.jobs) :
    Changes R w w' := by
  intro id job hjob
  exact ⟨job, by rw [hview]; exact hjob, hrefl job⟩

theorem Changes.trans (htrans : ∀ a b c, R a b → R b c → R a c) (h : Changes R w w')
    (h' : Changes R w' w'') : Changes R w w'' := by
  intro id job hjob
  obtain ⟨job', hjob', hr⟩ := h id job hjob
  obtain ⟨job'', hjob'', hr'⟩ := h' id job' hjob'
  exact ⟨job'', hjob'', htrans _ _ _ hr hr'⟩

theorem view_of_save (hjobs : w'.jobs = assign w.jobs job'.id job') (id : JobId) :
    view w'.jobs id = if id = job'.id then some job' else view w.jobs id := by
  rw [hjobs, view_assign]
  by_cases hid : id = job'.id
  · rw [if_pos hid, hid, Function.update_self]
  · rw [if_neg hid, Function.update_of_ne hid]

/-- One file is saved. -/
theorem Changes.save (hrefl : ∀ job, R job job) (hjobs : w'.jobs = assign w.jobs job'.id job')
    (hjob : view w.jobs job'.id = some job) (hr : R job job') : Changes R w w' := by
  intro id held hheld
  rw [view_of_save hjobs]
  by_cases hid : id = job'.id
  · rw [if_pos hid]
    subst hid
    obtain rfl := Option.some.inj (hjob.symm.trans hheld)
    exact ⟨job', rfl, hr⟩
  · rw [if_neg hid]
    exact ⟨held, hheld, hrefl held⟩

/-- The states of a job before its review. -/
def Job.early (job : Job S A) : Prop :=
  job.state = .queued ∨ job.state = .running ∨ job.state = .failed

/-- **What a step can make of a job.**  `reopens` says that one is saved over its dismissal. -/
inductive Change (w : World S A) (a : Action S A) (reopens : Prop) (job : Job S A) :
    Job S A → Prop
  | same : Change w a reopens job job
  | opened {job' : Job S A} (happlied : job.state ≠ .applied) (hrejected : job.state ≠ .rejected)
      (happlying : job.state ≠ .applying) (hdecides : Decides job job') :
      Change w a reopens job job'
  | reopened {job' : Job S A} (hreopens : reopens) (hrejected : job.state = .rejected)
      (hstate : job'.state ≠ .rejected) (hindices : indices job'.decisions = indices job.decisions) :
      Change w a reopens job job'
  | finished {approval : Approval A} {changedDate : Bool} (happlying : job.state = .applying)
      (hpending : job.pendingApproval = some approval) (hholder : w.holder = some (.finishing job))
      (ha : a = .proceed (.written changedDate))
      (hindex : approval.index ∉ indices job.decisions) :
      Change w a reopens job (Enrichment.finished job approval changedDate)

variable {a : Action S A} {reopens : Prop}

theorem Decides.refl (job : Job S A) : Decides job job := .inl rfl

theorem indices_append (decisions : List (Decision A)) (decision : Decision A) :
    indices (decisions ++ [decision]) = indices decisions ++ decision.index.toList := by
  cases h : decision.index with
  | none => simp [indices, h]
  | some index => simp [indices, h]

theorem Change.decides (h : Change w a reopens job job') : Decides job job' := by
  cases h with
  | same => exact .refl job
  | opened _ _ _ hdecides => exact hdecides
  | reopened _ _ _ hindices => exact .inl hindices
  | finished _ _ _ _ hindex => exact .inr ⟨_, hindex, indices_append _ _⟩

theorem Change.of_holder (hholder : w'.holder = w.holder) (h : Change w' a reopens job job') :
    Change w a reopens job job' := by
  cases h with
  | same => exact .same
  | opened happlied hrejected happlying hdecides =>
    exact .opened happlied hrejected happlying hdecides
  | reopened hreopens hrejected hstate hindices =>
    exact .reopened hreopens hrejected hstate hindices
  | finished happlying hpending hfinishing ha hindex =>
    exact .finished happlying hpending (hholder ▸ hfinishing) ha hindex

/-- A step of which every file's change is one of `Change` is sound. -/
theorem Changes.stepSound (h : Changes (Change w a reopens) w (next w a)) : StepSound w a where
  decides := by
    intro id job hjob
    obtain ⟨job', hjob', hchange⟩ := h id job hjob
    exact ⟨job', hjob', hchange.decides⟩
  applying := by
    intro id job hjob hstate
    obtain ⟨job', hjob', hchange⟩ := h id job hjob
    cases hchange with
    | same => exact .inl hjob'
    | opened _ _ happlying _ => exact absurd hstate happlying
    | reopened _ hrejected _ _ =>
      rw [hrejected] at hstate
      cases hstate
    | finished _ hpending hholder ha _ => exact .inr ⟨_, _, hpending, hholder, ha, hjob'⟩

/-- Without a save over a dismissal the closed jobs are left alone. -/
theorem Changes.keepsClosed (h : Changes (Change w a reopens) w (next w a)) (hcareful : ¬ reopens) :
    KeepsClosed w a := by
  intro id job hjob hclosed
  obtain ⟨job', hjob', hchange⟩ := h id job hjob
  cases hchange with
  | same => exact ⟨job, hjob', rfl, rfl, rfl⟩
  | opened happlied hrejected _ _ =>
    obtain hstate | hstate := hclosed
    · exact absurd hstate happlied
    · exact absurd hstate hrejected
  | reopened hreopens _ _ _ => exact absurd hreopens hcareful
  | finished happlying _ _ _ _ =>
    obtain hstate | hstate := hclosed
    · rw [happlying] at hstate
      cases hstate
    · rw [happlying] at hstate
      cases hstate

end Changes

section Invariant

/-- What is known of a job, as it is saved or held. -/
structure JobOk (job : Job S A) (requests : Nat) : Prop where
  limited : ∃ limit, job.attemptLimit = some limit ∧ job.attempts ≤ limit
  requested : requests ≤ job.attempts
  decided : (indices job.decisions).Nodup
  early : job.early → indices job.decisions = []
  pending : job.state = .applying →
    ∃ approval, job.pendingApproval = some approval ∧ approval.index ∉ indices job.decisions

/-- The file of a job that the worker has not saved yet. -/
def Awaiting (job : Job S A) : Prop :=
  (job.state = .queued ∨ job.state = .failed ∨ job.state = .rejected) ∧
    indices job.decisions = []

/-- The job the worker holds is the file's, once it is saved. -/
def WorkerOk (w : World S A) : Prop :=
  match w.worker with
  | .idle => True
  | .checking job =>
    job.state = .queued ∧ JobOk job (w.requests job.id) ∧
      ∃ file, view w.jobs job.id = some file ∧ Awaiting file
  | .gathering job =>
    view w.jobs job.id = some job ∧ job.state = .running ∧ w.requests job.id < job.attempts
  | .requesting job | .confirming job _ => view w.jobs job.id = some job ∧ job.state = .running

/-- The job an approval holds is the file's, or the file was dismissed. -/
def HolderOk (w : World S A) : Prop :=
  match w.holder with
  | none => True
  | some (.evaluating job index) =>
    job.state = .suggested ∧ index ∉ indices job.decisions ∧ JobOk job (w.requests job.id) ∧
      (view w.jobs job.id = some job ∨ view w.jobs job.id = some (dismissed job))
  | some (.finishing job) => view w.jobs job.id = some job ∧ job.state = .applying

def Holder.job : Holder S A → Job S A
  | .evaluating job _ => job
  | .finishing job => job

/-- **The invariant.** -/
structure Inv (w : World S A) : Prop where
  keyed : ∀ id job, view w.jobs id = some job → job.id = id
  jobs : ∀ id job, view w.jobs id = some job → JobOk job (w.requests id)
  unborn : ∀ id, view w.jobs id = none → w.requests id = 0
  worker : WorkerOk w
  holder : HolderOk w
  apart : ∀ job holder, w.worker = .checking job → w.holder = some holder →
    holder.job.id ≠ job.id

variable {w w' : World S A} {job job' : Job S A}

theorem inv_initial (config : Config) : Inv (.initial config : World S A) where
  keyed := fun id job hjob => by cases (view_empty id).symm.trans hjob
  jobs := fun id job hjob => by cases (view_empty id).symm.trans hjob
  unborn := fun _ _ => rfl
  worker := trivial
  holder := trivial
  apart := fun _ _ _ hholder => by cases hholder

theorem Inv.sound (h : Inv w) : Sound w where
  decided := fun id job hjob => (h.jobs id job hjob).decided
  limited := by
    intro id job hjob
    obtain ⟨limit, hlimit, hattempts⟩ := (h.jobs id job hjob).limited
    exact ⟨limit, hlimit, (h.jobs id job hjob).requested.trans hattempts⟩

/-- The files stay, and what is known of worker and lock is known again. -/
theorem Inv.goto (h : Inv w) (hview : view w'.jobs = view w.jobs)
    (hrequests : w'.requests = w.requests)
    (hworker : WorkerOk w') (hholder : HolderOk w')
    (hapart : ∀ job holder, w'.worker = .checking job → w'.holder = some holder →
      holder.job.id ≠ job.id) : Inv w' where
  keyed := by rw [hview]; exact h.keyed
  jobs := by rw [hview, hrequests]; exact h.jobs
  unborn := by rw [hview, hrequests]; exact h.unborn
  worker := hworker
  holder := hholder
  apart := hapart

theorem JobOk.mono {requests requests' : Nat} (h : JobOk job requests)
    (hle : requests' ≤ requests) : JobOk job requests' :=
  ⟨h.limited, hle.trans h.requested, h.decided, h.early, h.pending⟩

/-- One file is saved. -/
theorem Inv.save (h : Inv w) (hjobs : w'.jobs = assign w.jobs job'.id job')
    (hrequests : ∀ id, w'.requests id ≤ w.requests id)
    (hjob' : JobOk job' (w'.requests job'.id)) (hworker : WorkerOk w') (hholder : HolderOk w')
    (hapart : ∀ job holder, w'.worker = .checking job → w'.holder = some holder →
      holder.job.id ≠ job.id) : Inv w' where
  keyed := by
    intro id held hheld
    rw [view_of_save hjobs] at hheld
    by_cases hid : id = job'.id
    · rw [if_pos hid] at hheld
      rw [← Option.some.inj hheld, hid]
    · rw [if_neg hid] at hheld
      exact h.keyed id held hheld
  jobs := by
    intro id held hheld
    rw [view_of_save hjobs] at hheld
    by_cases hid : id = job'.id
    · rw [if_pos hid] at hheld
      rw [← Option.some.inj hheld, hid]
      exact hjob'
    · rw [if_neg hid] at hheld
      exact (h.jobs id held hheld).mono (hrequests id)
  unborn := by
    intro id hnone
    rw [view_of_save hjobs] at hnone
    by_cases hid : id = job'.id
    · rw [if_pos hid] at hnone
      cases hnone
    · rw [if_neg hid] at hnone
      exact Nat.le_zero.1 (h.unborn id hnone ▸ hrequests id)
  worker := hworker
  holder := hholder
  apart := hapart

/-- What a save leaves of the worker that is not its own. -/
theorem WorkerOk.save (h : WorkerOk w) (hworker : w'.worker = w.worker)
    (hjobs : w'.jobs = assign w.jobs job'.id job')
    (hrequests : ∀ id, w'.requests id ≤ w.requests id)
    (hjob : ∀ job, view w.jobs job'.id = some job → job.state ≠ .running ∧
      (Awaiting job → ∀ held, w.worker = .checking held → held.id = job'.id → Awaiting job')) :
    WorkerOk w' := by
  have hview := view_of_save hjobs
  have hother {held : Job S A} (hheld : view w.jobs held.id = some held)
      (hstate : held.state = .running) : view w'.jobs held.id = some held := by
    rw [hview]
    by_cases hid : held.id = job'.id
    · rw [hid] at hheld
      exact absurd hstate (hjob held hheld).1
    · rw [if_neg hid]
      exact hheld
  unfold WorkerOk at h ⊢
  rw [hworker]
  cases hw : w.worker with
  | idle => trivial
  | checking held =>
    rw [hw] at h
    obtain ⟨hqueued, hok, file, hfile, hwaits⟩ := h
    refine ⟨hqueued, hok.mono (hrequests _), ?_⟩
    rw [hview]
    by_cases hid : held.id = job'.id
    · rw [if_pos hid]
      rw [hid] at hfile
      exact ⟨job', rfl, (hjob file hfile).2 hwaits held hw hid⟩
    · rw [if_neg hid]
      exact ⟨file, hfile, hwaits⟩
  | gathering held =>
    rw [hw] at h
    exact ⟨hother h.1 h.2.1, h.2.1, (hrequests _).trans_lt h.2.2⟩
  | requesting held =>
    rw [hw] at h
    exact ⟨hother h.1 h.2, h.2⟩
  | confirming held _ =>
    rw [hw] at h
    exact ⟨hother h.1 h.2, h.2⟩

/-- What a save leaves of the approval that is not its own. -/
theorem HolderOk.save (h : HolderOk w) (hholder : w'.holder = w.holder)
    (hjobs : w'.jobs = assign w.jobs job'.id job')
    (hrequests : ∀ id, w'.requests id ≤ w.requests id)
    (hjob : ∀ holder, w.holder = some holder → holder.job.id ≠ job'.id) : HolderOk w' := by
  have hview := view_of_save hjobs
  unfold HolderOk at h ⊢
  rw [hholder]
  cases hw : w.holder with
  | none => trivial
  | some holder =>
    rw [hw] at h
    have hne := hjob holder hw
    cases holder with
    | evaluating held index =>
      simp only [hview, if_neg (show held.id ≠ job'.id from hne)]
      exact ⟨h.1, h.2.1, h.2.2.1.mono (hrequests _), h.2.2.2⟩
    | finishing held =>
      simp only [hview, if_neg (show held.id ≠ job'.id from hne)]
      exact h

/-- The file of a job that the worker has yet to save. -/
theorem Inv.awaiting {held : Job S A} (h : Inv w) (hworker : w.worker = .checking held)
    (hjob : view w.jobs held.id = some job) : Awaiting job := by
  have hok := h.worker
  rw [WorkerOk, hworker] at hok
  obtain ⟨-, -, file, hfile, hwaits⟩ := hok
  obtain rfl := Option.some.inj (hfile.symm.trans hjob)
  exact hwaits

end Invariant

section Locked

variable {w w' : World S A} {job : Job S A} {a : Action S A} {reopens : Prop} {id : JobId}

/-- A step keeps the invariant and changes the files by `Change`. -/
def StepOk (w : World S A) (a : Action S A) (reopens : Prop) (w' : World S A) : Prop :=
  Inv w' ∧ Changes (Change w a reopens) w w'

theorem Inv.stepOk_self (h : Inv w) : StepOk w a reopens w :=
  ⟨h, .of_view (fun _ => .same) rfl⟩

/-- Neither the files nor the worker nor the lock. -/
theorem Inv.of_eq (h : Inv w) (hview : view w'.jobs = view w.jobs)
    (hrequests : w'.requests = w.requests) (hworker : w'.worker = w.worker)
    (hholder : w'.holder = w.holder) : Inv w' := by
  have hworkerOk : WorkerOk w' := by
    have hok := h.worker
    unfold WorkerOk at hok ⊢
    rwa [hworker, hview, hrequests]
  have hholderOk : HolderOk w' := by
    have hok := h.holder
    unfold HolderOk at hok ⊢
    rwa [hholder, hview, hrequests]
  exact h.goto hview hrequests hworkerOk hholderOk (by rw [hworker, hholder]; exact h.apart)

/-- A save by an operation that has the lock and holds no job over an await. -/
theorem Inv.stepOk_locked {job' : Job S A} (h : Inv w) (hfree : w.holder = none)
    (hholder : w'.holder = w.holder) (hworker : w'.worker = w.worker)
    (hjobs : w'.jobs = assign w.jobs job'.id job')
    (hrequests : ∀ id, w'.requests id ≤ w.requests id) (hjob : view w.jobs job'.id = some job)
    (hjob' : JobOk job' (w'.requests job'.id)) (hrunning : job.state ≠ .running)
    (hawaiting : Awaiting job → Awaiting job') (hchange : Change w a reopens job job') :
    StepOk w a reopens w' := by
  have hheld : ∀ held, view w.jobs job'.id = some held → held.state ≠ .running ∧
      (Awaiting held → ∀ other, w.worker = .checking other → other.id = job'.id →
        Awaiting job') := by
    intro held hheld
    obtain rfl := Option.some.inj (hjob.symm.trans hheld)
    exact ⟨hrunning, fun hwaits _ _ _ => hawaiting hwaits⟩
  have hnone : ∀ holder, w.holder = some holder → holder.job.id ≠ job'.id := by
    intro holder hsome
    rw [hfree] at hsome
    cases hsome
  have hapart : ∀ job holder, w'.worker = .checking job → w'.holder = some holder →
      holder.job.id ≠ job.id := by
    intro _ holder _ hsome
    rw [hholder, hfree] at hsome
    cases hsome
  exact ⟨h.save hjobs hrequests hjob' (h.worker.save hworker hjobs hrequests hheld)
    (h.holder.save hholder hjobs hrequests hnone) hapart,
    .save (fun _ => .same) hjobs hjob hchange⟩

theorem Inv.queueNote {noteId : NoteId} {force : Bool} {assignment : Assignment} (h : Inv w)
    (hfree : w.holder = none) (hqueue : queueNote w noteId force id assignment = some w') :
    StepOk w a reopens w' ∧ w'.holder = none := by
  simp only [Enrichment.queueNote] at hqueue
  split at hqueue
  · cases hqueue
  · cases hfound : view w.jobs id with
    | some previous =>
      rw [hfound] at hqueue
      simp only at hqueue
      split at hqueue
      · cases hqueue
      · obtain rfl := Option.some.inj hqueue
        exact ⟨h.stepOk_self, hfree⟩
    | none =>
      rw [hfound] at hqueue
      obtain rfl := Option.some.inj hqueue
      refine ⟨⟨h.save rfl (fun _ => le_rfl) ?_ (h.worker.save rfl rfl (fun _ => le_rfl) ?_)
        (h.holder.save rfl rfl (fun _ => le_rfl) ?_) ?_, ?_⟩, hfree⟩
      · have hzero : w.requests id = 0 := h.unborn id hfound
        exact ⟨⟨_, rfl, Nat.zero_le _⟩, by simpa [World.save] using hzero,
          List.nodup_nil, fun _ => rfl, fun happlying => by cases happlying⟩
      · intro job hjob
        rw [hfound] at hjob
        cases hjob
      · intro holder hholder
        rw [hfree] at hholder
        cases hholder
      · exact h.apart
      · intro other job hjob
        have hne : other ≠ id := by
          rintro rfl
          rw [hfound] at hjob
          cases hjob
        refine ⟨job, ?_, .same⟩
        rw [view_of_save rfl, if_neg hne]
        exact hjob

theorem Inv.approve (h : Inv w) (index : Nat) :
    StepOk w a reopens (approve w id index) := by
  simp only [Enrichment.approve]
  split
  · exact h.stepOk_self
  · next job hjob =>
    split
    · next hstate _ =>
      split
      · exact h.stepOk_self
      · split
        · exact h.stepOk_self
        · next hindex =>
          have hid := h.keyed id job hjob
          subst hid
          refine ⟨h.goto rfl rfl h.worker ⟨hstate, hindex, h.jobs _ job hjob, .inl hjob⟩ ?_,
            .of_view (fun _ => .same) rfl⟩
          intro held holder hworker hholder hsame
          obtain rfl := Option.some.inj hholder
          have hwaits := h.awaiting hworker (hsame ▸ hjob)
          simp [Awaiting, hstate] at hwaits
    · exact h.stepOk_self

theorem Inv.resume (h : Inv w) : StepOk w a reopens (resume w id) := by
  simp only [Enrichment.resume]
  split
  · exact h.stepOk_self
  · next job hjob =>
    split
    · exact h.stepOk_self
    · next hguard =>
      rw [not_or, not_not] at hguard
      have hid := h.keyed id job hjob
      subst hid
      refine ⟨h.goto rfl rfl h.worker ⟨hjob, hguard.1⟩ ?_, .of_view (fun _ => .same) rfl⟩
      intro held holder hworker hholder hsame
      obtain rfl := Option.some.inj hholder
      have hwaits := h.awaiting hworker (hsame ▸ hjob)
      simp [Awaiting, hguard.1] at hwaits

/-- A decision is added to a job that is no longer early. -/
theorem JobOk.decide {job' : Job S A} {requests : Nat} {decision : Decision A}
    (h : JobOk job requests) (hlimit : job'.attemptLimit = job.attemptLimit)
    (hattempts : job'.attempts = job.attempts)
    (hdecisions : job'.decisions = job.decisions ++ [decision])
    (hindex : ∀ index, decision.index = some index → index ∉ indices job.decisions)
    (hstate : ¬ job'.early ∧ job'.state ≠ .applying) : JobOk job' requests where
  limited := by rw [hlimit, hattempts]; exact h.limited
  requested := by rw [hattempts]; exact h.requested
  decided := by
    rw [hdecisions, indices_append]
    cases hdecision : decision.index with
    | none => simpa using h.decided
    | some index =>
      apply List.nodup_append.2 ⟨h.decided, List.nodup_singleton index, ?_⟩
      intro other hother index' hindex' hsame
      obtain rfl := List.mem_singleton.1 hindex'
      exact hindex _ hdecision (hsame ▸ hother)
  early := fun hearly => absurd hearly hstate.1
  pending := fun happlying => absurd happlying hstate.2

theorem decides_append {decision : Decision A}
    (hindex : ∀ index, decision.index = some index → index ∉ indices job.decisions)
    {job' : Job S A} (hdecisions : job'.decisions = job.decisions ++ [decision]) :
    Decides job job' := by
  rw [Decides, hdecisions, indices_append]
  cases hdecision : decision.index with
  | none => exact .inl (List.append_nil _)
  | some index => exact .inr ⟨index, hindex index hdecision, rfl⟩

theorem Inv.reject (h : Inv w) (hfree : w.holder = none) (index : Option Nat) :
    StepOk w a reopens (reject w id index) := by
  simp only [Enrichment.reject]
  split
  · exact h.stepOk_self
  · next job hjob =>
    split
    · exact h.stepOk_self
    · next hstate =>
      rw [ne_eq, not_not] at hstate
      have hid := h.keyed id job hjob
      subst hid
      have hok := h.jobs _ job hjob
      have hwaits {job' : Job S A} : Awaiting job → Awaiting job' := by
        intro hwaits
        simp [Awaiting, hstate] at hwaits
      have hopened {job' : Job S A} (hdecides : Decides job job') :
          Change w a reopens job job' := by
        apply Change.opened _ _ _ hdecides <;> rw [hstate] <;> decide
      split
      · refine h.stepOk_locked hfree rfl rfl rfl (fun _ => le_rfl) hjob ?_
          (by rw [hstate]; decide) hwaits (hopened (decides_append ?_ rfl))
        · exact hok.decide rfl rfl rfl (by intro i hi; cases hi)
            ⟨by simp [Job.early], by simp⟩
        · intro i hi
          cases hi
      · next index =>
        split
        · exact h.stepOk_self
        · split
          · exact h.stepOk_self
          · next hguard =>
            rw [not_or] at hguard
            have hindex : ∀ i, (Decision.reject index : Decision A).index = some i →
                i ∉ indices job.decisions := by
              intro i hi
              obtain rfl := Option.some.inj hi
              exact hguard.2
            refine h.stepOk_locked hfree rfl rfl rfl (fun _ => le_rfl) hjob ?_
              (by rw [hstate]; decide) hwaits (hopened (decides_append hindex rfl))
            refine hok.decide rfl rfl rfl hindex ⟨?_, ?_⟩
            · simp only [Job.early]
              split
              · split <;> decide
              · rw [hstate]
                decide
            · simp only
              split
              · split <;> decide
              · rw [hstate]
                decide

theorem Inv.retry (h : Inv w) (slot : Nat) : StepOk w a reopens (retry w slot id) := by
  simp only [Enrichment.retry]
  split
  · exact h.stepOk_self
  · split
    · exact ⟨h.of_eq rfl rfl rfl rfl, .of_view (fun _ => .same) rfl⟩
    · exact h.stepOk_self

theorem Inv.reset (h : Inv w) (hfree : w.holder = none) : StepOk w a reopens (reset w id) := by
  simp only [Enrichment.reset]
  split
  · exact h.stepOk_self
  · next job hjob =>
    split
    · next hstate =>
      have hid := h.keyed id job hjob
      subst hid
      have hok := h.jobs _ job hjob
      obtain ⟨limit, hlimit, -⟩ := hok.limited
      have hdecisions := hok.early (.inr (.inr hstate))
      refine h.stepOk_locked hfree rfl rfl rfl ?_ hjob ?_ (by rw [hstate]; decide) ?_ ?_
      · intro other
        by_cases hother : other = job.id
        · subst hother
          simp
        · simp [Function.update_of_ne hother]
      · refine ⟨⟨limit, hlimit, Nat.zero_le _⟩, by simp, hok.decided, fun _ => hdecisions, ?_⟩
        intro happlying
        cases happlying
      · intro hwaits
        exact ⟨.inl rfl, hwaits.2⟩
      · refine Change.opened ?_ ?_ ?_ (.inl rfl) <;> rw [hstate] <;> decide
    · exact h.stepOk_self

end Locked

end Coppermind.Enrichment
