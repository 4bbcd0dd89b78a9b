import Coppermind.ObsidianSync.Supervisor

/-!
# At most one client, and only when allowed

The client that runs is the child the supervisor knows of, as long as `startSync` finds its guard
unchanged behind its await (`Careful`).  A stop then ends with no client, a pause keeps it so, and
a change of the configuration begins with no start under way; it stays without one until it is
verified unless an exit handler arms the restart timer meanwhile.
-/

namespace Coppermind.ObsidianSync

open Coppermind.Lib

section Statement

variable (w : World)

/-- No client is alive. -/
def World.Silent (w : World) : Prop := ∀ p, w.procs p ≠ .alive

/-- **What the supervisor promises** of a state. -/
structure Safe : Prop where
  one : ∀ p q, w.procs p = .alive → w.procs q = .alive → p = q
  quiet : w.quiet = true → w.Silent
  verified : w.startedUnverified = false

/-- The change of a client's configuration is under way. -/
def Point.changing : Point → Bool
  | .stopping _ _ | .configuring | .applying | .verifying | .saving | .applied => true
  | _ => false

def World.changing (w : World) : Bool := w.control.any Point.changing

/-- The child is a running client. -/
def World.childAlive (w : World) : Bool := w.child.any fun p => w.procs p == .alive

/-- The step keeps clear of what the supervisor does not guard: a start finds its guard unchanged
when it spawns, and no change of the configuration begins under it; a child that is stopped ends
within its two seconds; no unexpected exit is handled to its end while the configuration is being
changed or unverified; and a second `shutdown` only comes once the child has ended. -/
def Careful (w : World) : Action → Prop
  | .control o =>
    (w.control = some .starting → o.ok = true → w.canStart = true) ∧
      (w.control = some .refreshing → o.ok = true → o.flag = false → w.starting = 0)
  | .start o => 0 < w.starting → o.ok = true → w.canStart = true
  | .restart ok =>
    ok = true → (w.connection && !w.paused && !w.stopping) = true →
      w.changing = false ∧ w.unverified = false
  | .expire => w.waitsFor.isSome = true → w.childAlive = false
  | .resumeShutdown _ expired => expired = true → w.childAlive = false
  | .shutdown => w.stopping = true → w.childAlive = false
  | _ => True

instance (w : World) (a : Action) : Decidable (Careful w a) := by
  cases a <;> unfold Careful <;> infer_instance

end Statement

section Invariant

variable {w : World}

/-- Nothing can start a client: neither a start that is under way nor a later one. -/
def Off (w : World) (control : Option Point) : Prop :=
  w.stopping = true ∨ control ≠ some .connecting ∧
    (w.connection = false ∨ w.paused = true ∧
      ∀ proc wasPaused, control = some (.stopping proc wasPaused) → wasPaused = true)

/-- What is known where a control operation stands. -/
def PointOk (w : World) : Option Point → Prop
  | some .pausing | some .disconnecting => w.paused = true
  | some (.pauseStopping proc) | some (.disconnectStopping proc) | some (.stopping proc _) =>
    w.paused = true ∧ ∀ p, w.procs p = .alive → proc = some p
  | some .pausePublishing | some .unlinking => w.paused = true ∧ w.Silent
  | some .disconnected => w.connection = false
  | some .matched | some .saving | some .applied | some .starting => w.unverified = false
  | _ => True

/-- What is known where `shutdown` stands. -/
def ShutdownOk (w : World) : Option ShutdownPoint → Prop
  | some (.stopping proc) => w.stopping = true ∧ ∀ p, w.procs p = .alive → proc = some p
  | some .publishing => w.stopping = true ∧ w.Silent
  | none => True

/-- **The invariant.** -/
structure Inv (w : World) : Prop where
  child : ∀ p, w.procs p ≠ .gone → w.child = some p
  connection : w.connection = false → w.Silent
  quiet : w.quiet = true → w.Silent ∧ Off w w.control
  halted : w.unverified = true ∨ w.changing = true → w.restartTimer = false ∧ w.starting = 0
  point : PointOk w w.control
  shutdown : ShutdownOk w w.shutdown
  verified : w.startedUnverified = false

theorem Inv.safe (h : Inv w) : Safe w where
  one := by
    intro p q hp hq
    have hchildP := h.child p (by rw [hp]; decide)
    have hchildQ := h.child q (by rw [hq]; decide)
    exact Option.some.inj (hchildP.symm.trans hchildQ)
  quiet := fun hquiet => (h.quiet hquiet).1
  verified := h.verified

theorem inv_boot (connection paused : Bool) : Inv (.boot connection paused) where
  child := fun p hp => absurd rfl hp
  connection := fun _ p hp => by cases hp
  quiet := fun hquiet => by cases hquiet
  halted := fun _ => ⟨rfl, rfl⟩
  point := trivial
  shutdown := trivial
  verified := rfl

/-- A client that is alive is the child. -/
theorem Inv.silent_of_childAlive (h : Inv w) (hdead : w.childAlive = false) : w.Silent := by
  intro p hp
  have hchild := h.child p (by rw [hp]; decide)
  rw [World.childAlive, hchild] at hdead
  simp [hp] at hdead

theorem Off.canStart {control : Option Point} (h : Off w control) : w.canStart = false := by
  unfold World.canStart
  rcases h with hstopping | ⟨-, hconnection | ⟨hpaused, -⟩⟩
  · simp [hstopping]
  · simp [hconnection]
  · simp [hpaused]

/-- A point that neither connects nor begins a change. -/
def Point.plain : Point → Bool
  | .connecting | .stopping _ _ => false
  | _ => true

theorem Off.goto {control control' : Option Point} (h : Off w control)
    (hplain : control'.all Point.plain = true) : Off w control' := by
  rcases h with hstopping | ⟨-, hoff⟩
  · exact .inl hstopping
  · right
    refine ⟨?_, ?_⟩
    · rintro rfl
      cases hplain
    · rcases hoff with hconnection | ⟨hpaused, -⟩
      · exact .inl hconnection
      · right
        refine ⟨hpaused, ?_⟩
        rintro proc wasPaused rfl
        cases hplain

/-- A control operation goes to another await, and nothing else changes. -/
theorem Inv.goto (h : Inv w) (control : Option Point) (hplain : control.all Point.plain = true)
    (hchanging : control.any Point.changing = true → w.changing = true)
    (hpoint : PointOk w control) : Inv { w with control := control } where
  child := h.child
  connection := h.connection
  quiet := fun hquiet => ⟨(h.quiet hquiet).1, (h.quiet hquiet).2.goto hplain⟩
  halted := by
    intro hhalt
    apply h.halted
    rcases hhalt with hunverified | hchange
    · exact .inl hunverified
    · exact .inr (hchanging hchange)
  point := by
    cases control with
    | none => trivial
    | some point => cases point <;> exact hpoint
  shutdown := by
    have hshutdown := h.shutdown
    cases hat : w.shutdown with
    | none => trivial
    | some point =>
      rw [hat] at hshutdown
      cases point <;> exact hshutdown
  verified := h.verified

theorem PointOk.mono {w' : World} {control : Option Point} (h : PointOk w control)
    (hpaused : w'.paused = w.paused) (hconnection : w'.connection = w.connection)
    (hunverified : w'.unverified = w.unverified)
    (halive : ∀ p, w'.procs p = .alive → w.procs p = .alive) : PointOk w' control := by
  have hsilent : w.Silent → w'.Silent := fun hs p hp => hs p (halive p hp)
  cases control with
  | none => trivial
  | some point =>
    cases point with
    | pausing => exact hpaused.trans h
    | disconnecting => exact hpaused.trans h
    | pauseStopping proc => exact ⟨hpaused.trans h.1, fun p hp => h.2 p (halive p hp)⟩
    | disconnectStopping proc => exact ⟨hpaused.trans h.1, fun p hp => h.2 p (halive p hp)⟩
    | stopping proc wasPaused => exact ⟨hpaused.trans h.1, fun p hp => h.2 p (halive p hp)⟩
    | pausePublishing => exact ⟨hpaused.trans h.1, hsilent h.2⟩
    | unlinking => exact ⟨hpaused.trans h.1, hsilent h.2⟩
    | disconnected => exact hconnection.trans h
    | matched => exact hunverified.trans h
    | saving => exact hunverified.trans h
    | applied => exact hunverified.trans h
    | starting => exact hunverified.trans h
    | _ => trivial

theorem ShutdownOk.mono {w' : World} {point : Option ShutdownPoint} (h : ShutdownOk w point)
    (hstopping : w.stopping = true → w'.stopping = true)
    (halive : ∀ p, w'.procs p = .alive → w.procs p = .alive) : ShutdownOk w' point := by
  cases point with
  | none => trivial
  | some point =>
    cases point with
    | stopping proc => exact ⟨hstopping h.1, fun p hp => h.2 p (halive p hp)⟩
    | publishing => exact ⟨hstopping h.1, fun p hp => h.2 p (halive p hp)⟩

section Starts

/-- **A client is started** where the guard of `startSync` still holds. -/
theorem inv_spawnClient (h : Inv w) (hcan : w.canStart = true) (hverified : w.unverified = false)
    (started : Bool) : Inv (spawnClient w started) := by
  have hguard := hcan
  simp only [World.canStart, Bool.and_eq_true, Bool.not_eq_true', Option.isNone_iff_eq_none]
    at hguard
  obtain ⟨⟨⟨hconnection, hpaused⟩, hstopping⟩, hnone⟩ := hguard
  have hgone : ∀ p, w.procs p = .gone := by
    intro p
    by_contra hp
    rw [h.child p hp] at hnone
    cases hnone
  refine ⟨?_, ?_, ?_, h.halted, ?_, ?_, ?_⟩
  · intro p hp
    change Function.update w.procs w.spawned _ p ≠ .gone at hp
    by_cases hnew : p = w.spawned
    · rw [hnew]
      rfl
    · rw [Function.update_of_ne hnew] at hp
      exact absurd (hgone p) hp
  · intro hoff
    change w.connection = false at hoff
    rw [hconnection] at hoff
    cases hoff
  · intro hquiet
    rw [(h.quiet hquiet).2.canStart] at hcan
    cases hcan
  · have hpoint := h.point
    change PointOk (spawnClient w started) w.control
    cases hat : w.control with
    | none => trivial
    | some point =>
      rw [hat] at hpoint
      cases point with
      | pausing | disconnecting => exact absurd (hpoint.symm.trans hpaused) (by decide)
      | pauseStopping | disconnectStopping | stopping | pausePublishing | unlinking =>
        exact absurd (hpoint.1.symm.trans hpaused) (by decide)
      | disconnected => exact absurd (hconnection.symm.trans hpoint) (by decide)
      | matched | saving | applied | starting => exact hpoint
      | _ => trivial
  · have hshutdown := h.shutdown
    change ShutdownOk (spawnClient w started) w.shutdown
    cases hat : w.shutdown with
    | none => trivial
    | some point =>
      rw [hat] at hshutdown
      cases point <;> exact absurd (hshutdown.1.symm.trans hstopping) (by decide)
  · change (w.startedUnverified || w.unverified) = false
    rw [h.verified, hverified]
    rfl

theorem inv_fire (h : Inv w) : Inv (next w .fire) := by
  unfold next
  by_cases htimer : w.restartTimer = true
  · simp only [if_pos htimer]
    have hfree : ¬(w.unverified = true ∨ w.changing = true) := by
      intro hhalt
      rw [(h.halted hhalt).1] at htimer
      cases htimer
    split
    · refine ⟨h.child, h.connection, h.quiet, ?_, h.point.mono rfl rfl rfl fun _ hp => hp,
        h.shutdown.mono id fun _ hp => hp, h.verified⟩
      intro hhalt
      exact absurd hhalt hfree
    · refine ⟨h.child, h.connection, h.quiet, ?_, h.point.mono rfl rfl rfl fun _ hp => hp,
        h.shutdown.mono id fun _ hp => hp, h.verified⟩
      intro hhalt
      exact absurd hhalt hfree
  · simp only [if_neg htimer]
    exact h

theorem inv_start (h : Inv w) (o : Outcome) (hcareful : Careful w (.start o)) :
    Inv (next w (.start o)) := by
  unfold next
  by_cases hnone : w.starting = 0
  · simp only [if_pos hnone]
    exact h
  · simp only [if_neg hnone]
    have hless : Inv { w with starting := w.starting - 1 } := by
      refine ⟨h.child, h.connection, h.quiet, ?_, h.point.mono rfl rfl rfl fun _ hp => hp,
        h.shutdown.mono id fun _ hp => hp, h.verified⟩
      intro hhalt
      exact absurd (h.halted hhalt).2 hnone
    by_cases hok : o.ok = true
    · rw [if_pos hok]
      have hverified : w.unverified = false := by
        rw [← Bool.not_eq_true]
        intro hunverified
        exact hnone (h.halted (.inl hunverified)).2
      exact inv_spawnClient hless (hcareful (Nat.pos_of_ne_zero hnone) hok) hverified o.flag
    · rw [if_neg hok]
      exact hless

theorem inv_restart (h : Inv w) (ok : Bool) (hcareful : Careful w (.restart ok)) :
    Inv (next w (.restart ok)) := by
  unfold next
  have hless : Inv { w with exiting := w.exiting - 1 } :=
    ⟨h.child, h.connection, h.quiet, h.halted, h.point.mono rfl rfl rfl fun _ hp => hp,
      h.shutdown.mono id fun _ hp => hp, h.verified⟩
  by_cases hnone : w.exiting = 0
  · simp only [if_pos hnone]
    exact h
  · simp only [if_neg hnone]
    by_cases hok : ok = true
    · rw [if_pos hok]
      unfold scheduleRestart
      by_cases harms : (w.connection && !w.paused && !w.stopping) = true
      · rw [if_pos harms]
        obtain ⟨hchanging, hverified⟩ := hcareful hok harms
        refine ⟨h.child, h.connection, h.quiet, ?_, h.point.mono rfl rfl rfl fun _ hp => hp,
          h.shutdown.mono id fun _ hp => hp, h.verified⟩
        rintro (hunverified | hchange)
        · exact absurd (hverified.symm.trans hunverified) (by decide)
        · exact absurd (hchanging.symm.trans hchange) (by decide)
      · rw [if_neg harms]
        exact hless
    · rw [if_neg hok]
      exact hless

end Starts

section Exits

/-- A process ends, or what is left of it is heard of. -/
theorem inv_procs (h : Inv w) {proc : Nat} {state : Proc} (hdead : state ≠ .alive)
    {child : Option Nat} {exiting : Nat}
    (hchild : ∀ p, Function.update w.procs proc state p ≠ .gone → child = some p) :
    Inv { w with procs := Function.update w.procs proc state, child := child, exiting := exiting } := by
  have halive : ∀ p, Function.update w.procs proc state p = .alive → w.procs p = .alive := by
    intro p hp
    by_cases hsame : p = proc
    · rw [hsame, Function.update_self] at hp
      exact absurd hp hdead
    · rwa [Function.update_of_ne hsame] at hp
  exact ⟨hchild, fun hoff p hp => h.connection hoff p (halive p hp),
    fun hquiet => ⟨fun p hp => (h.quiet hquiet).1 p (halive p hp), (h.quiet hquiet).2⟩, h.halted,
    h.point.mono rfl rfl rfl halive, h.shutdown.mono id halive, h.verified⟩

theorem inv_exit (h : Inv w) (proc : Nat) : Inv (next w (.exit proc)) := by
  unfold next
  by_cases hrunning : w.procs proc = .alive
  · simp only [if_pos hrunning]
    apply inv_procs h (by decide)
    intro p hp
    apply h.child
    by_cases hsame : p = proc
    · rw [hsame, hrunning]
      decide
    · rwa [Function.update_of_ne hsame] at hp
  · simp only [if_neg hrunning]
    exact h

theorem inv_event (h : Inv w) (proc : Nat) : Inv (next w (.event proc)) := by
  unfold next
  by_cases hended : w.procs proc = .exited ∨ w.procs proc = .unstarted
  · simp only [if_pos hended]
    have hchild : w.child = some proc := by
      apply h.child
      rcases hended with hexited | hunstarted
      · rw [hexited]
        decide
      · rw [hunstarted]
        decide
    unfold handleChildExit
    simp only [hchild, if_true]
    apply inv_procs h (by decide)
    intro p hp
    by_cases hsame : p = proc
    · rw [hsame, Function.update_self] at hp
      exact absurd rfl hp
    · rw [Function.update_of_ne hsame] at hp
      have hother := h.child p hp
      rw [hchild] at hother
      exact absurd (Option.some.inj hother).symm hsame
  · simp only [if_neg hended]
    exact h

end Exits

section Operations

theorem inv_release (h : Inv w) : Inv w.release :=
  h.goto none rfl (nofun) trivial

theorem inv_reconcileConfig (h : Inv w) : Inv (reconcileConfig w) := by
  unfold reconcileConfig
  split
  · exact h.goto (some .settings) rfl (nofun) trivial
  · exact inv_release h

theorem inv_startSync (h : Inv w) (hverified : w.unverified = false) : Inv (startSync w) := by
  unfold startSync
  split
  · exact h.goto (some .starting) rfl (nofun) hverified
  · exact inv_release h

theorem inv_reconcileFailed (h : Inv w) : Inv (reconcileFailed w) :=
  h.goto (some .failed) rfl (nofun) trivial

/-- A failed change leaves neither a start nor the timer behind. -/
theorem inv_applyFailed (h : Inv w) (hchange : w.changing = true) : Inv (applyFailed w) where
  child := h.child
  connection := h.connection
  quiet := fun hquiet => ⟨(h.quiet hquiet).1, (h.quiet hquiet).2.goto rfl⟩
  halted := fun _ => h.halted (.inr hchange)
  point := trivial
  shutdown := h.shutdown.mono id fun _ hp => hp
  verified := h.verified

/-- A verification succeeds. -/
theorem inv_verified (h : Inv w) {point : Point} (hplain : point.plain = true)
    (hchanging : point.changing = true → w.changing = true)
    (hpoint : PointOk { w with unverified := false } (some point)) :
    Inv { w with unverified := false, control := some point } where
  child := h.child
  connection := h.connection
  quiet := fun hquiet => ⟨(h.quiet hquiet).1, (h.quiet hquiet).2.goto hplain⟩
  halted := by
    rintro (hunverified | hchange)
    · cases hunverified
    · exact h.halted (.inr (hchanging hchange))
  point := hpoint.mono rfl rfl rfl fun _ hp => hp
  shutdown := h.shutdown.mono id fun _ hp => hp
  verified := h.verified

/-- A change begins with no start under way. -/
theorem inv_beginChange (h : Inv w) (hnone : w.starting = 0) : Inv (beginChange w) where
  child := h.child
  connection := h.connection
  quiet := by
    intro hquiet
    obtain ⟨hsilent, hoff⟩ := h.quiet hquiet
    refine ⟨hsilent, ?_⟩
    rcases hoff with hstopping | ⟨-, hconnection | ⟨hpaused, -⟩⟩
    · exact .inl hstopping
    · exact .inr ⟨nofun, .inl hconnection⟩
    · refine .inr ⟨nofun, .inr ⟨rfl, ?_⟩⟩
      intro proc wasPaused hsame
      cases hsame
      exact hpaused
  halted := fun _ => ⟨rfl, hnone⟩
  point := ⟨rfl, fun p hp => h.child p (by rw [show w.procs p = .alive from hp]; decide)⟩
  shutdown := h.shutdown.mono id fun _ hp => hp
  verified := h.verified

/-- `pause` or `disconnect` returns where nothing can start a client. -/
theorem inv_returnQuiet (h : Inv w) (hsilent : w.Silent) (hoff : Off w none) :
    Inv (returnQuiet w) where
  child := h.child
  connection := h.connection
  quiet := fun _ => ⟨hsilent, hoff⟩
  halted := by
    rintro (hunverified | hchange)
    · exact h.halted (.inl hunverified)
    · cases hchange
  point := trivial
  shutdown := h.shutdown.mono id fun _ hp => hp
  verified := h.verified

/-- **Behind a stop**, no client is alive. -/
theorem inv_afterStop (h : Inv w) (hsilent : w.waitsFor.isSome = true → w.Silent) :
    Inv (afterStop w) := by
  unfold afterStop
  split
  · next proc hat =>
    have hpoint := h.point
    rw [hat] at hpoint
    exact h.goto (some .pausePublishing) rfl (nofun)
      ⟨hpoint.1, hsilent (by rw [World.waitsFor, hat]; rfl)⟩
  · next proc hat =>
    have hpoint := h.point
    rw [hat] at hpoint
    exact h.goto (some .unlinking) rfl (nofun)
      ⟨hpoint.1, hsilent (by rw [World.waitsFor, hat]; rfl)⟩
  · next proc wasPaused hat =>
    refine ⟨h.child, h.connection, ?_, ?_, trivial, h.shutdown.mono id fun _ hp => hp, h.verified⟩
    · intro hquiet
      obtain ⟨hquiet, hoff⟩ := h.quiet hquiet
      refine ⟨hquiet, ?_⟩
      rcases hoff with hstopping | ⟨-, hconnection | ⟨-, hwas⟩⟩
      · exact .inl hstopping
      · exact .inr ⟨nofun, .inl hconnection⟩
      · refine .inr ⟨nofun, .inr ⟨hwas proc wasPaused hat, ?_⟩⟩
        intro _ _ hsame
        cases hsame
    · intro _
      apply h.halted
      right
      rw [World.changing, hat]
      rfl
  · exact h

/-- A stop that the exit event ends has seen the child out. -/
theorem Inv.silent_of_stopped {proc : Option Nat} (hstopped : w.stopped proc = true)
    (hproc : ∀ p, w.procs p = .alive → proc = some p) : w.Silent := by
  intro p hp
  rw [hproc p hp] at hstopped
  simp [World.stopped, hp] at hstopped

/-- The client the holder of `controlBusy` waits for is the only one. -/
theorem inv_waiting (h : Inv w) {proc : Option Nat}
    (hproc : ∀ p, w.procs p = .alive → proc = some p) :
    Inv (if w.stopped proc then afterStop w else w) := by
  by_cases hstopped : w.stopped proc = true
  · rw [if_pos hstopped]
    exact inv_afterStop h fun _ => Inv.silent_of_stopped hstopped hproc
  · rw [if_neg hstopped]
    exact h

/-- **A control operation goes on.** -/
theorem inv_resumeControl (h : Inv w) (o : Outcome) (hcareful : Careful w (.control o)) :
    Inv (resumeControl w o) := by
  have hpoint := h.point
  obtain ⟨hstart, hchange⟩ := hcareful
  unfold resumeControl
  cases hat : w.control with
  | none => exact h
  | some point =>
    rw [hat] at hpoint
    have hchanging : point.changing = true → w.changing = true := by
      intro hpointChanging
      rw [World.changing, hat]
      exact hpointChanging
    cases point with
    | booting =>
      simp only
      split
      · exact inv_reconcileConfig h
      · exact inv_release h
    | connecting =>
      simp only
      split
      · refine ⟨h.child, nofun, ?_, ?_, trivial,
          h.shutdown.mono id fun _ hp => hp, h.verified⟩
        · intro hquiet
          obtain ⟨hsilent, hoff⟩ := h.quiet hquiet
          refine ⟨hsilent, ?_⟩
          rcases hoff with hstopping | ⟨hnot, -⟩
          · exact .inl hstopping
          · exact absurd hat hnot
        · rintro (hunverified | hchange)
          · exact h.halted (.inl hunverified)
          · cases hchange
      · exact h.goto (some .connectFailed) rfl nofun trivial
    | connected =>
      simp only
      split
      · exact inv_reconcileConfig h
      · exact h.goto (some .connectFailed) rfl nofun trivial
    | connectFailed => exact inv_release h
    | resuming =>
      simp only
      split
      · exact inv_reconcileConfig h
      · exact inv_release h
    | pausing =>
      simp only
      split
      · exact h.goto (some (.pauseStopping w.child)) rfl nofun
          ⟨hpoint, fun p hp => h.child p (by rw [hp]; decide)⟩
      · exact inv_release h
    | pauseStopping proc => exact inv_waiting h hpoint.2
    | pausePublishing =>
      simp only
      split
      · exact inv_returnQuiet h hpoint.2 (.inr ⟨nofun, .inr ⟨hpoint.1, nofun⟩⟩)
      · exact inv_release h
    | disconnecting =>
      simp only
      split
      · exact h.goto (some (.disconnectStopping w.child)) rfl nofun
          ⟨hpoint, fun p hp => h.child p (by rw [hp]; decide)⟩
      · exact inv_release h
    | disconnectStopping proc => exact inv_waiting h hpoint.2
    | unlinking =>
      simp only
      split
      · refine ⟨h.child, fun _ => hpoint.2, ?_, ?_, rfl, h.shutdown.mono id fun _ hp => hp, h.verified⟩
        · intro _
          exact ⟨hpoint.2, .inr ⟨nofun, .inl rfl⟩⟩
        · rintro (hunverified | hchange)
          · exact h.halted (.inl hunverified)
          · cases hchange
      · exact inv_release h
    | disconnected =>
      simp only
      split
      · exact inv_returnQuiet h (h.connection hpoint) (.inr ⟨nofun, .inl hpoint⟩)
      · exact inv_release h
    | settings =>
      simp only
      split
      · exact h.goto (some .refreshing) rfl nofun trivial
      · exact inv_reconcileFailed h
    | refreshing =>
      simp only
      by_cases hok : o.ok = true
      · rw [if_pos hok]
        split
        · exact inv_verified h rfl nofun rfl
        · next hflag => exact inv_beginChange h (hchange hat hok (Bool.eq_false_iff.2 hflag))
      · rw [if_neg hok]
        exact inv_reconcileFailed h
    | matched =>
      simp only
      split
      · exact inv_startSync h hpoint
      · exact inv_reconcileFailed h
    | stopping proc wasPaused => exact inv_waiting h hpoint.2
    | configuring =>
      simp only
      split
      · exact h.goto (some .applying) rfl (fun _ => hchanging rfl) trivial
      · exact inv_applyFailed h (hchanging rfl)
    | applying =>
      simp only
      split
      · exact h.goto (some .verifying) rfl (fun _ => hchanging rfl) trivial
      · exact inv_applyFailed h (hchanging rfl)
    | verifying =>
      simp only
      split
      · exact inv_verified h rfl (fun _ => hchanging rfl) rfl
      · exact inv_applyFailed h (hchanging rfl)
    | saving =>
      simp only
      split
      · exact h.goto (some .applied) rfl (fun _ => hchanging rfl) hpoint
      · exact inv_applyFailed h (hchanging rfl)
    | applied =>
      simp only
      split
      · exact inv_startSync h hpoint
      · exact inv_applyFailed h (hchanging rfl)
    | starting =>
      simp only
      by_cases hok : o.ok = true
      · rw [if_pos hok]
        have hspawned := inv_spawnClient h (hstart hat hok) hpoint o.flag
        exact hspawned.goto (some .announcing) rfl nofun trivial
      · rw [if_neg hok]
        exact inv_reconcileFailed h
    | announcing =>
      simp only
      split
      · exact inv_release h
      · exact inv_reconcileFailed h
    | failed => exact inv_release h

/-- What a request changes before its operation waits: the pause, and what has been promised. -/
theorem inv_paused (h : Inv w) (hidle : w.control = none) {paused quiet timer : Bool}
    (hquiet : quiet = true → w.quiet = true ∧ (w.paused = true → paused = true))
    (htimer : timer = true → w.restartTimer = true) :
    Inv { w with paused := paused, quiet := quiet, restartTimer := timer } where
  child := h.child
  connection := h.connection
  quiet := by
    intro hnow
    obtain ⟨hbefore, hpaused⟩ := hquiet hnow
    obtain ⟨hsilent, hoff⟩ := h.quiet hbefore
    refine ⟨hsilent, ?_⟩
    rcases hoff with hstopping | ⟨hnot, hconnection | ⟨hwas, hpoint⟩⟩
    · exact .inl hstopping
    · exact .inr ⟨hnot, .inl hconnection⟩
    · exact .inr ⟨hnot, .inr ⟨hpaused hwas, hpoint⟩⟩
  halted := by
    intro hhalt
    obtain ⟨hcleared, hnone⟩ := h.halted hhalt
    refine ⟨?_, hnone⟩
    rw [← Bool.not_eq_true]
    intro harmed
    rw [htimer harmed] at hcleared
    cases hcleared
  point := by
    change PointOk _ w.control
    rw [hidle]
    trivial
  shutdown := h.shutdown.mono id fun _ hp => hp
  verified := h.verified

/-- **A request starts a control operation.** -/
theorem inv_request (h : Inv w) (hidle : w.control = none) (r : Request) (valid : Bool) :
    Inv (request w r valid) := by
  unfold request
  cases r with
  | connect =>
    simp only
    split
    · have hcalled : Inv { w with quiet := false } := inv_paused h hidle nofun id
      refine ⟨hcalled.child, hcalled.connection, nofun, ?_, trivial,
        hcalled.shutdown.mono id fun _ hp => hp, hcalled.verified⟩
      rintro (hunverified | hchange)
      · exact hcalled.halted (.inl hunverified)
      · cases hchange
    · exact h
  | configure => exact inv_reconcileConfig h
  | pause =>
    simp only
    split
    · have hcleared : Inv { w with paused := true, restartTimer := false } :=
        inv_paused h hidle (fun hquiet => ⟨hquiet, fun _ => rfl⟩) nofun
      exact hcleared.goto (some .pausing) rfl nofun rfl
    · next hconnection =>
      have hnone : w.connection = false := Bool.eq_false_iff.2 hconnection
      exact inv_returnQuiet h (h.connection hnone) (.inr ⟨nofun, .inl hnone⟩)
  | resume =>
    simp only
    split
    · have hcalled : Inv { w with quiet := false, paused := false } := inv_paused h hidle nofun id
      exact hcalled.goto (some .resuming) rfl nofun trivial
    · exact h
  | disconnect =>
    have hcleared : Inv { w with restartTimer := false, paused := true } :=
      inv_paused h hidle (fun hquiet => ⟨hquiet, fun _ => rfl⟩) nofun
    simp only
    split
    · exact hcleared.goto (some .disconnecting) rfl nofun rfl
    · exact hcleared.goto (some (.disconnectStopping w.child)) rfl nofun
        ⟨rfl, fun p hp => h.child p (by rw [show w.procs p = .alive from hp]; decide)⟩

end Operations

section Shutdown

theorem inv_beginShutdown (h : Inv w) (hcareful : Careful w .shutdown) :
    Inv (next w .shutdown) := by
  unfold next beginShutdown
  by_cases hstopping : w.stopping = true
  · simp only [if_pos hstopping]
    have hsilent := h.silent_of_childAlive (hcareful hstopping)
    exact ⟨h.child, h.connection, fun _ => ⟨hsilent, .inl hstopping⟩, h.halted,
      h.point.mono rfl rfl rfl fun _ hp => hp, h.shutdown.mono id fun _ hp => hp, h.verified⟩
  · simp only [if_neg hstopping]
    refine ⟨h.child, h.connection, fun hquiet => ⟨(h.quiet hquiet).1, .inl rfl⟩, ?_,
      h.point.mono rfl rfl rfl fun _ hp => hp, ?_, h.verified⟩
    · intro hhalt
      exact ⟨rfl, (h.halted hhalt).2⟩
    · exact ⟨rfl, fun p hp => h.child p (by rw [show w.procs p = .alive from hp]; decide)⟩

theorem inv_resumeShutdown (h : Inv w) (ok expired : Bool)
    (hcareful : Careful w (.resumeShutdown ok expired)) :
    Inv (next w (.resumeShutdown ok expired)) := by
  have hshutdown := h.shutdown
  unfold next resumeShutdown
  cases hat : w.shutdown with
  | none => exact h
  | some point =>
    rw [hat] at hshutdown
    cases point with
    | stopping proc =>
      simp only
      split
      · next hover =>
        have hsilent : w.Silent := by
          rw [Bool.or_eq_true] at hover
          rcases hover with hstopped | hexpired
          · exact Inv.silent_of_stopped hstopped hshutdown.2
          · exact h.silent_of_childAlive (hcareful hexpired)
        exact ⟨h.child, h.connection, h.quiet, h.halted, h.point.mono rfl rfl rfl fun _ hp => hp,
          ⟨hshutdown.1, hsilent⟩, h.verified⟩
      · exact h
    | publishing =>
      simp only
      split
      · exact ⟨h.child, h.connection, fun _ => ⟨hshutdown.2, .inl hshutdown.1⟩, h.halted,
          h.point.mono rfl rfl rfl fun _ hp => hp, trivial, h.verified⟩
      · exact ⟨h.child, h.connection, h.quiet, h.halted, h.point.mono rfl rfl rfl fun _ hp => hp,
          trivial, h.verified⟩

end Shutdown

/-- **Every careful step keeps the invariant.** -/
theorem inv_next (h : Inv w) (a : Action) (hcareful : Careful w a) : Inv (next w a) := by
  cases a with
  | request r valid =>
    unfold next
    simp only
    split
    · exact h
    · next hidle => exact inv_request h (Option.not_isSome_iff_eq_none.1 hidle) r valid
  | interval =>
    unfold next
    simp only
    split
    · exact h
    · exact inv_reconcileConfig h
  | control o => exact inv_resumeControl h o hcareful
  | expire => exact inv_afterStop h fun hwaits => h.silent_of_childAlive (hcareful hwaits)
  | shutdown => exact inv_beginShutdown h hcareful
  | resumeShutdown ok expired => exact inv_resumeShutdown h ok expired hcareful
  | fire => exact inv_fire h
  | start o => exact inv_start h o hcareful
  | exit proc => exact inv_exit h proc
  | event proc => exact inv_event h proc
  | restart ok => exact inv_restart h ok hcareful

/-- **At most one client, and only when allowed**: in every state of a run from boot whose steps
keep clear of what the supervisor does not guard. -/
theorem one_client {connection paused : Bool} {actions : List Action}
    (hcareful : Along next Careful (.boot connection paused) actions) :
    Safe (actions.foldl next (.boot connection paused)) := by
  have hinv : Inv (actions.foldl next (.boot connection paused)) := by
    apply Along.foldl_invariant _ (inv_boot connection paused) hcareful
    intro w a h hc
    exact inv_next h a hc
  exact hinv.safe

end Invariant

section Sample

/-- An await that is fulfilled, with the client's report matching or the child started. -/
def well : Outcome := ⟨true, true⟩

/-- A boot that starts a client, which crashes and is started again; then a pause. -/
def pausedActions : List Action :=
  [.control well, .control well, .control well, .control well, .control well, .control well,
    .exit 0, .event 0, .restart true, .fire, .start well,
    .request .pause true, .control well, .exit 1, .event 1, .control well, .control well]

theorem pausedActions_careful : Along next Careful (.boot true false) pausedActions := by
  decide +kernel

theorem one_client_paused :
    Safe (pausedActions.foldl next (.boot true false)) ∧
      (pausedActions.foldl next (.boot true false)).quiet = true ∧
      (pausedActions.foldl next (.boot true false)).spawned = 2 :=
  ⟨one_client pausedActions_careful, by decide +kernel, by decide +kernel⟩

/-- The client crashes; the restart timer and the interval each find no child, and then each start
one. -/
def doubledActions : List Action :=
  [.control well, .control well, .control well, .control well, .control well, .control well,
    .exit 0, .event 0, .restart true, .interval, .control well, .control well, .control well,
    .fire, .control well, .start well]

/-- Two clients are alive. -/
theorem restart_beside_interval :
    ¬Safe (doubledActions.foldl next (.boot true false)) := by
  intro hsafe
  have htwo := hsafe.one 1 2 (by decide +kernel) (by decide +kernel)
  cases htwo

end Sample

end Coppermind.ObsidianSync
