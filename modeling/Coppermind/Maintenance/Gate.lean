import Coppermind.Lib.Assoc
import Coppermind.Lib.Run

/-!
# The maintenance gate

`MaintenanceGate` over the condition of asyncio it is built on.  Tasks run one at a time, from
one suspension to the next, so a step of the model is what one task does between two of them.  A
task is suspended in the queue of the condition's lock or among the condition's waiters, and a
cancellation is delivered there.

The lock is never held across a suspension.  No task ever waits for it, on its way in or out,
which is why a release cannot be cancelled halfway.
-/

namespace Coppermind.Maintenance

open Coppermind.Lib

/-- The two context managers. -/
inductive Block where
  | shared | exclusive
deriving DecidableEq, Repr

/-- The future a suspended task waits for; a cancelled task raises when it resumes. -/
inductive Future where
  | pending | done | cancelled
deriving DecidableEq, Repr

/-- What a task takes the condition's lock for. -/
inductive Purpose where
  /-- `async with self.condition` on the way in. -/
  | admission (block : Block)
  /-- The end of `condition.wait`, with the cancellation it will raise. -/
  | recheck (block : Block) (cancelled : Bool)
  /-- `async with self.condition` on the way out. -/
  | release (block : Block)
deriving DecidableEq, Repr

/-- The gate, its condition, and the blocks each task is inside. -/
structure Gate (Task : Type) where
  locked : Bool
  /-- The tasks suspended in `Lock.acquire`. -/
  queue : List (Task × Purpose × Future)
  /-- The tasks suspended in `Condition.wait`. -/
  waiters : List (Task × Block × Future)
  holders : AList fun _ : Task => Nat
  owner : Option Task
  waiting : Int
  inside : Block → Task → Nat

variable {Task : Type}

namespace Gate

def initial : Gate Task where
  locked := false
  queue := []
  waiters := []
  holders := ∅
  owner := none
  waiting := 0
  inside := fun _ _ => 0

/-- `_wake_up_first`. -/
def wakeFirst : List (Task × Purpose × Future) → List (Task × Purpose × Future)
  | (t, purpose, .pending) :: rest => (t, purpose, .done) :: rest
  | queue => queue

def releaseLock (g : Gate Task) : Gate Task :=
  { g with locked := false, queue := wakeFirst g.queue }

def notified (waiter : Task × Block × Future) : Task × Block × Future :=
  if waiter.2.2 = .pending then (waiter.1, waiter.2.1, .done) else waiter

def notifyAll (g : Gate Task) : Gate Task := { g with waiters := g.waiters.map notified }

variable [DecidableEq Task]

def setInside (g : Gate Task) (block : Block) (t : Task) (n : Nat) : Gate Task :=
  { g with inside := Function.update g.inside block (Function.update (g.inside block) t n) }

def entered (g : Gate Task) (block : Block) (t : Task) : Gate Task :=
  g.setInside block t (g.inside block t + 1)

def left (g : Gate Task) (block : Block) (t : Task) : Gate Task :=
  g.setInside block t (g.inside block t - 1)

/-- `self.holders[task] = self.holders.get(task, 0) + 1`. -/
def hold (g : Gate Task) (t : Task) : Gate Task :=
  { g with holders := g.holders.insert t ((g.holders.lookup t).getD 0 + 1) }

/-- `self.holders[task] -= 1`, and the entry goes with its last hold; a missing entry raises. -/
def unhold (g : Gate Task) (t : Task) : Gate Task :=
  match g.holders.lookup t with
  | some n =>
    if n - 1 = 0 then { g with holders := g.holders.erase t }
    else { g with holders := g.holders.insert t (n - 1) }
  | none => g

/-- The predicate of `shared`. -/
def admitsShared (g : Gate Task) (t : Task) : Bool :=
  g.owner == some t || (g.holders.lookup t).isSome || (g.owner.isNone && g.waiting == 0)

/-- The predicate of `exclusive`. -/
def admitsExclusive (g : Gate Task) : Bool := g.holders.entries.isEmpty && g.owner.isNone

/-- `Condition.wait`, up to its suspension. -/
def wait (g : Gate Task) (block : Block) (t : Task) : Gate Task :=
  releaseLock { g with waiters := g.waiters ++ [(t, block, .pending)] }

/-- A turn of `wait_for` with the lock held: the task enters its block or waits. -/
def check (g : Gate Task) (block : Block) (t : Task) : Gate Task :=
  match block with
  | .shared =>
    if g.admitsShared t then releaseLock ((g.hold t).entered .shared t) else g.wait .shared t
  | .exclusive =>
    if g.admitsExclusive then
      releaseLock (notifyAll
        ({ g with owner := some t, waiting := g.waiting - 1 }.entered .exclusive t))
    else g.wait .exclusive t

/-- What a task does with the lock in its hands, to its next suspension or to the end of the
context manager's code. -/
def withLock (g : Gate Task) (t : Task) : Purpose → Gate Task
  | .admission .shared => g.check .shared t
  | .admission .exclusive => { g with waiting := g.waiting + 1 }.check .exclusive t
  | .recheck block false => g.check block t
  | .recheck .shared true => g.releaseLock
  | .recheck .exclusive true => releaseLock (notifyAll { g with waiting := g.waiting - 1 })
  | .release .shared => releaseLock (notifyAll ((g.unhold t).left .shared t))
  | .release .exclusive => releaseLock (notifyAll ({ g with owner := none }.left .exclusive t))

/-- `Lock.acquire`, and what follows where it does not suspend. -/
def acquire (g : Gate Task) (t : Task) (purpose : Purpose) : Gate Task :=
  if !g.locked && g.queue.all (·.2.2 == .cancelled) then
    { g with locked := true }.withLock t purpose
  else { g with queue := g.queue ++ [(t, purpose, .pending)] }

/-- The cancelled waiter of the lock leaves its queue. -/
def abandonQueue (g : Gate Task) (t : Task) : Gate Task :=
  let queue := g.queue.filter (·.1 != t)
  { g with queue := if g.locked then queue else wakeFirst queue }

def suspended (g : Gate Task) (t : Task) : Bool :=
  g.queue.any (·.1 == t) || g.waiters.any (·.1 == t)

/-- Resuming a task that is suspended in `Lock.acquire`. -/
def resumeQueued (g : Gate Task) (t : Task) : Purpose × Future → Option (Gate Task)
  | (_, .pending) => none
  | (purpose, .done) =>
    some ({ g with queue := g.queue.filter (·.1 != t), locked := true }.withLock t purpose)
  | (.recheck block _, .cancelled) => some ((g.abandonQueue t).acquire t (.recheck block true))
  | (.admission _, .cancelled) => some (g.abandonQueue t)
  -- The release is given up: the block is left with its hold in place.
  | (.release block, .cancelled) => some ((g.abandonQueue t).left block t)

end Gate

/-- What happens next: a task enters or leaves a block, a suspended task is cancelled, or a task
whose future is done runs on. -/
inductive Action (Task : Type) where
  | enter (block : Block) (t : Task)
  | leave (block : Block) (t : Task)
  | cancel (t : Task)
  | resume (t : Task)

variable [DecidableEq Task]

namespace Gate

def step (g : Gate Task) : Action Task → Option (Gate Task)
  | .enter block t => if g.suspended t then none else some (g.acquire t (.admission block))
  | .leave block t =>
    if g.suspended t || g.inside block t == 0 then none else some (g.acquire t (.release block))
  | .cancel t =>
    if g.suspended t then
      some { g with
        queue := g.queue.map fun q => if q.1 = t then (q.1, q.2.1, .cancelled) else q
        waiters := g.waiters.map fun w => if w.1 = t then (w.1, w.2.1, .cancelled) else w }
    else none
  | .resume t =>
    match g.waiters.find? (·.1 == t) with
    | some (_, _, .pending) => none
    | some (_, block, future) =>
      some ({ g with waiters := g.waiters.filter (·.1 != t) }.acquire t
        (.recheck block (future == Future.cancelled)))
    | none =>
      match g.queue.find? (·.1 == t) with
      | some (_, purpose, future) => g.resumeQueued t (purpose, future)
      | none => none

end Gate

/-- What holds of a gate while a task has its lock; `admitting` counts the tasks that are past
`waiting += 1` and not among the waiters. -/
structure Core (g : Gate Task) (admitting : Int) : Prop where
  queue : g.queue = []
  waiters : (g.waiters.map (·.1)).Nodup
  holders : ∀ t, view g.holders t =
    if g.inside .shared t = 0 then none else some (g.inside .shared t)
  owner : ∀ t, 0 < g.inside .exclusive t ↔ g.owner = some t
  once : ∀ t, g.inside .exclusive t ≤ 1
  alone : ∀ o, g.owner = some o → ∀ t, 0 < g.inside .shared t → t = o
  waiting : g.waiting = (g.waiters.countP (·.2.1 == .exclusive) : Nat) + admitting

/-- What holds whenever every task is suspended, inside a block or elsewhere. -/
structure Inv (g : Gate Task) : Prop where
  unlocked : g.locked = false
  core : Core g 0

theorem inv_initial : Inv (Gate.initial : Gate Task) where
  unlocked := rfl
  core :=
    { queue := rfl
      waiters := List.nodup_nil
      holders := fun t => view_empty t
      owner := fun t => ⟨fun h => absurd h (Nat.lt_irrefl 0), fun h => by cases h⟩
      once := fun _ => Nat.zero_le 1
      alone := by
        intro _ _ t h
        cases h
      waiting := rfl }

section Keep

variable {g : Gate Task} {t : Task} {admitting : Int}

theorem Core.releaseLock (h : Core g 0) : Inv g.releaseLock :=
  ⟨rfl, ⟨by rw [Gate.releaseLock, h.queue]; rfl, h.waiters, h.holders, h.owner, h.once, h.alone, h.waiting⟩⟩

omit [DecidableEq Task] in
theorem notified_fst (w : Task × Block × Future) : (Gate.notified w).1 = w.1 := by
  unfold Gate.notified
  split <;> rfl

omit [DecidableEq Task] in
theorem notified_block (w : Task × Block × Future) : (Gate.notified w).2.1 = w.2.1 := by
  unfold Gate.notified
  split <;> rfl

theorem Core.notifyAll (h : Core g admitting) : Core g.notifyAll admitting where
  queue := h.queue
  waiters := by
    rw [Gate.notifyAll, List.map_map, show (fun w : Task × Block × Future => w.1) ∘ Gate.notified =
      fun w => w.1 from funext notified_fst]
    exact h.waiters
  holders := h.holders
  owner := h.owner
  once := h.once
  alone := h.alone
  waiting := by
    rw [Gate.notifyAll, List.countP_map, show (fun w : Task × Block × Future =>
      w.2.1 == Block.exclusive) ∘ Gate.notified = fun w => w.2.1 == .exclusive from
        funext fun w => by rw [Function.comp_apply, notified_block]]
    exact h.waiting

/-- A task that waits is one more waiter. -/
theorem Core.wait (block : Block) (h : Core g (if block = .exclusive then 1 else 0))
    (hnew : t ∉ g.waiters.map (·.1)) : Inv (g.wait block t) := by
  apply Core.releaseLock
  refine ⟨h.queue, ?_, h.holders, h.owner, h.once, h.alone, ?_⟩
  · rw [List.map_append, List.map_singleton, List.nodup_append]
    refine ⟨h.waiters, List.nodup_singleton _, ?_⟩
    intro a ha b hb heq
    have hbt : b = t := List.mem_singleton.1 hb
    exact hnew (hbt ▸ heq ▸ ha)
  · have := h.waiting
    rw [List.countP_append, this]
    cases block <;> simp

theorem Core.lookup (h : Core g admitting) (t : Task) :
    (g.holders.lookup t).getD 0 = g.inside .shared t := by
  rw [← view_apply, h.holders]
  split
  · next hzero => rw [hzero, Option.getD_none]
  · rfl

theorem inside_setInside (block block' : Block) (u : Task) (n : Nat) :
    (g.setInside block t n).inside block' u =
      if block' = block ∧ u = t then n else g.inside block' u := by
  unfold Gate.setInside
  by_cases hblock : block' = block
  · subst hblock
    by_cases hu : u = t
    · subst hu
      simp
    · simp [hu]
  · simp [hblock]

theorem inside_entered_of_ne {block block' : Block} (h : block' ≠ block) (u : Task) :
    (g.entered block t).inside block' u = g.inside block' u := by
  rw [Gate.entered, inside_setInside, if_neg (fun heq => h heq.1)]

theorem inside_left_of_ne {block block' : Block} (h : block' ≠ block) (u : Task) :
    (g.left block t).inside block' u = g.inside block' u := by
  rw [Gate.left, inside_setInside, if_neg (fun heq => h heq.1)]

/-- A hold is counted as the block is entered. -/
theorem Core.hold (h : Core g admitting) (hadmits : g.admitsShared t = true) :
    Core ((g.hold t).entered .shared t) admitting where
  queue := h.queue
  waiters := h.waiters
  holders := by
    intro u
    rw [Gate.entered, inside_setInside]
    show view (g.holders.insert t _) u = _
    rw [view_insert, h.lookup t]
    by_cases hu : u = t
    · subst hu
      simp [Gate.hold]
    · simpa [hu, Gate.hold] using h.holders u
  owner := by
    intro u
    rw [inside_entered_of_ne (by decide)]
    exact h.owner u
  once := by
    intro u
    rw [inside_entered_of_ne (by decide)]
    exact h.once u
  alone := by
    intro o ho u hu
    replace ho : g.owner = some o := ho
    rw [Gate.entered, inside_setInside] at hu
    by_cases hut : u = t
    · subst hut
      simp only [Gate.admitsShared, ho, Bool.or_eq_true, beq_iff_eq, Option.some.injEq,
        Option.isNone_some, Bool.false_and, Bool.false_eq_true, or_false] at hadmits
      rcases hadmits with heq | hheld
      · exact heq.symm
      · apply h.alone o ho
        rw [← view_apply, h.holders] at hheld
        split at hheld
        · cases hheld
        · omega
    · rw [if_neg (by simp [hut])] at hu
      exact h.alone o ho u hu
  waiting := h.waiting

/-- Nobody holds the gate the task takes over. -/
theorem Core.own (h : Core g 1) (hadmits : g.admitsExclusive = true) :
    Core ({ g with owner := some t, waiting := g.waiting - 1 }.entered .exclusive t) 0 := by
  simp only [Gate.admitsExclusive, Bool.and_eq_true, List.isEmpty_iff, Option.isNone_iff_eq_none]
    at hadmits
  obtain ⟨hempty, hnone⟩ := hadmits
  have hnoOwner (u : Task) : g.inside .exclusive u = 0 := by
    by_contra hne
    have howner := (h.owner u).1 (by omega)
    rw [hnone] at howner
    cases howner
  have hnoHolder (u : Task) : g.inside .shared u = 0 := by
    have hview := h.holders u
    rw [view_apply, AList.lookup, hempty, List.dlookup_nil] at hview
    split at hview
    · assumption
    · cases hview
  exact
    { queue := h.queue
      waiters := h.waiters
      holders := by
        intro u
        rw [inside_entered_of_ne (by decide)]
        exact h.holders u
      owner := by
        intro u
        rw [Gate.entered, inside_setInside]
        by_cases hu : u = t
        · subst hu
          simp [Gate.setInside]
        · rw [if_neg (by simp [hu])]
          show 0 < g.inside .exclusive u ↔ some t = some u
          simp [hnoOwner, Ne.symm hu]
      once := by
        intro u
        rw [Gate.entered, inside_setInside]
        have := hnoOwner t
        have := hnoOwner u
        split
        · show g.inside .exclusive t + 1 ≤ 1
          omega
        · show g.inside .exclusive u ≤ 1
          omega
      alone := by
        intro o _ u hu
        rw [inside_entered_of_ne (by decide)] at hu
        replace hu : 0 < g.inside .shared u := hu
        rw [hnoHolder u] at hu
        omega
      waiting := by
        have := h.waiting
        show g.waiting - 1 = (g.waiters.countP _ : Int) + 0
        omega }

/-- A turn of `wait_for`. -/
theorem Core.check (block : Block) (h : Core g (if block = .exclusive then 1 else 0))
    (hnew : t ∉ g.waiters.map (·.1)) : Inv (g.check block t) := by
  unfold Gate.check
  cases block with
  | shared =>
    dsimp only
    by_cases hadmits : g.admitsShared t = true
    · rw [if_pos hadmits]
      exact (Core.hold h hadmits).releaseLock
    · rw [if_neg hadmits]
      exact Core.wait _ h hnew
  | exclusive =>
    dsimp only
    by_cases hadmits : g.admitsExclusive = true
    · rw [if_pos hadmits]
      exact (Core.own h hadmits).notifyAll.releaseLock
    · rw [if_neg hadmits]
      exact Core.wait _ h hnew

/-- A task that leaves a shared block gives its hold back. -/
theorem Core.unhold (h : Core g 0) (hinside : 0 < g.inside .shared t) :
    Core ((g.unhold t).left .shared t) 0 := by
  have hlookup : g.holders.lookup t = some (g.inside .shared t) := by
    rw [← view_apply, h.holders, if_neg (by omega)]
  have hunhold : g.unhold t =
      { g with
        holders := if g.inside .shared t - 1 = 0 then g.holders.erase t
          else g.holders.insert t (g.inside .shared t - 1) } := by
    unfold Gate.unhold
    rw [hlookup]
    dsimp only
    split <;> rfl
  rw [hunhold]
  exact
    { queue := h.queue
      waiters := h.waiters
      holders := by
        intro u
        rw [Gate.left, inside_setInside]
        show view (if _ then _ else _) u = _
        by_cases hu : u = t
        · subst hu
          by_cases hlast : g.inside .shared u - 1 = 0 <;> simp [hlast]
        · have hother := h.holders u
          by_cases hlast : g.inside .shared t - 1 = 0 <;> simpa [hlast, hu] using hother
      owner := by
        intro u
        rw [inside_left_of_ne (by decide)]
        exact h.owner u
      once := by
        intro u
        rw [inside_left_of_ne (by decide)]
        exact h.once u
      alone := by
        intro o ho u hu
        apply h.alone o ho
        by_cases hut : u = t
        · subst hut
          exact hinside
        · rwa [Gate.left, inside_setInside, if_neg (by simp [hut])] at hu
      waiting := h.waiting }

/-- The owner that leaves its block leaves no owner behind. -/
theorem Core.disown (h : Core g 0) (hinside : 0 < g.inside .exclusive t) :
    Core ({ g with owner := none }.left .exclusive t) 0 := by
  have howner : g.owner = some t := (h.owner t).1 hinside
  have hothers (u : Task) (hu : u ≠ t) : g.inside .exclusive u = 0 := by
    by_contra hne
    have := (h.owner u).1 (by omega)
    rw [howner] at this
    exact hu (Option.some.inj this).symm
  have hout (u : Task) :
      ({ g with owner := none }.left .exclusive t).inside .exclusive u = 0 := by
    have hone := h.once t
    rw [Gate.left, inside_setInside]
    split
    · show g.inside .exclusive t - 1 = 0
      omega
    · next hne => exact hothers u fun hu => hne ⟨rfl, hu⟩
  exact
    { queue := h.queue
      waiters := h.waiters
      holders := by
        intro u
        rw [inside_left_of_ne (by decide)]
        exact h.holders u
      owner := by
        intro u
        rw [hout]
        constructor
        · intro hlt
          omega
        · intro hsome
          cases hsome
      once := by
        intro u
        rw [hout]
        omega
      alone := by
        intro o ho
        cases ho
      waiting := h.waiting }

end Keep

section Step

variable {g g' : Gate Task} {t : Task}

/-- With its lock free and nobody queued for it, a task takes the condition's lock at once. -/
theorem Inv.acquire_eq (h : Inv g) (t : Task) (purpose : Purpose) :
    g.acquire t purpose = { g with locked := true }.withLock t purpose := by
  unfold Gate.acquire
  rw [h.unlocked, h.core.queue]
  rfl

theorem Core.locked {admitting : Int} (h : Core g admitting) :
    Core { g with locked := true } admitting :=
  ⟨h.queue, h.waiters, h.holders, h.owner, h.once, h.alone, h.waiting⟩

theorem Core.cancelled (block : Block) (h : Core g (if block = .exclusive then 1 else 0)) :
    Inv (g.withLock t (.recheck block true)) := by
  cases block with
  | shared => exact Core.releaseLock h
  | exclusive =>
    apply Core.releaseLock
    apply Core.notifyAll
    refine ⟨h.queue, h.waiters, h.holders, h.owner, h.once, h.alone, ?_⟩
    have := h.waiting
    rw [if_pos rfl] at this
    show g.waiting - 1 = (g.waiters.countP _ : Int) + 0
    omega

theorem not_suspended (h : g.suspended t = false) : t ∉ g.waiters.map (·.1) := by
  intro hmem
  obtain ⟨w, hw, rfl⟩ := List.mem_map.1 hmem
  rw [Gate.suspended, Bool.or_eq_false_iff] at h
  have := List.any_eq_false.1 h.2 w hw
  simp at this

theorem Inv.enter (h : Inv g) (block : Block) (hsuspended : g.suspended t = false) :
    Inv (g.acquire t (.admission block)) := by
  rw [h.acquire_eq]
  have hcore := h.core.locked
  cases block with
  | shared => exact Core.check .shared hcore (not_suspended hsuspended)
  | exclusive =>
    refine Core.check .exclusive ?_ (not_suspended hsuspended)
    refine ⟨hcore.queue, hcore.waiters, hcore.holders, hcore.owner, hcore.once, hcore.alone, ?_⟩
    have := h.core.waiting
    rw [if_pos rfl]
    show g.waiting + 1 = (g.waiters.countP _ : Int) + 1
    omega

theorem Inv.leave (h : Inv g) (block : Block) (hinside : 0 < g.inside block t) :
    Inv (g.acquire t (.release block)) := by
  rw [h.acquire_eq]
  cases block with
  | shared => exact (Core.unhold h.core.locked hinside).notifyAll.releaseLock
  | exclusive => exact (Core.disown h.core.locked hinside).notifyAll.releaseLock

theorem countP_waiters {waiters : List (Task × Block × Future)} {w : Task × Block × Future}
    (hnodup : (waiters.map (·.1)).Nodup) (hmem : w ∈ waiters) :
    waiters.countP (·.2.1 == .exclusive) =
      (waiters.filter (·.1 != w.1)).countP (·.2.1 == .exclusive) +
        if w.2.1 = .exclusive then 1 else 0 := by
  induction waiters with
  | nil => cases hmem
  | cons v waiters ih =>
    rw [List.map_cons, List.nodup_cons] at hnodup
    rcases List.mem_cons.1 hmem with rfl | hmem
    · have hrest : waiters.filter (·.1 != w.1) = waiters := by
        apply List.filter_eq_self.2
        intro v hv
        rw [bne_iff_ne]
        intro heq
        exact hnodup.1 (heq ▸ List.mem_map_of_mem hv)
      rw [List.filter_cons_of_neg (by simp), hrest, List.countP_cons]
      simp
    · have hne : v.1 ≠ w.1 := by
        intro heq
        exact hnodup.1 (heq ▸ List.mem_map_of_mem hmem)
      rw [List.filter_cons_of_pos (by simpa using hne), List.countP_cons, List.countP_cons,
        ih hnodup.2 hmem]
      omega

/-- A waiter that resumes is counted apart until it is admitted, waits again or raises. -/
theorem Inv.resumed (h : Inv g) {w : Task × Block × Future} (hmem : w ∈ g.waiters) :
    Core { g with waiters := g.waiters.filter (·.1 != w.1) }
      (if w.2.1 = .exclusive then 1 else 0) ∧
      w.1 ∉ (g.waiters.filter (·.1 != w.1)).map (·.1) := by
  refine ⟨⟨h.core.queue, ?_, h.core.holders, h.core.owner, h.core.once, h.core.alone, ?_⟩, ?_⟩
  · exact h.core.waiters.sublist (List.filter_sublist.map _)
  · have hwaiting := h.core.waiting
    rw [countP_waiters h.core.waiters hmem] at hwaiting
    show g.waiting = _
    rw [hwaiting]
    split <;> simp
  · intro hin
    obtain ⟨v, hv, heq⟩ := List.mem_map.1 hin
    have := (List.mem_filter.1 hv).2
    simp [heq] at this

/-- **One step** keeps the invariant. -/
theorem step_inv {a : Action Task} (h : Inv g) (hstep : g.step a = some g') : Inv g' := by
  cases a with
  | enter block t =>
    simp only [Gate.step, Option.ite_none_left_eq_some, Option.some.injEq] at hstep
    rw [← hstep.2]
    exact h.enter block (by simpa using hstep.1)
  | leave block t =>
    simp only [Gate.step, Option.ite_none_left_eq_some, Option.some.injEq, Bool.or_eq_true,
      beq_iff_eq, not_or] at hstep
    rw [← hstep.2]
    exact h.leave block (Nat.pos_of_ne_zero hstep.1.2)
  | cancel t =>
    simp only [Gate.step, Option.ite_none_right_eq_some, Option.some.injEq] at hstep
    rw [← hstep.2]
    have hcore := h.core
    refine ⟨h.unlocked, ?_, ?_, hcore.holders, hcore.owner, hcore.once, hcore.alone, ?_⟩
    · show g.queue.map _ = []
      rw [hcore.queue, List.map_nil]
    · show ((g.waiters.map _).map _).Nodup
      rw [List.map_map]
      refine (List.map_congr_left fun w _ => ?_) ▸ hcore.waiters
      rw [Function.comp_apply]
      split <;> rfl
    · show g.waiting = ((g.waiters.map _).countP _ : Int) + 0
      rw [List.countP_map, hcore.waiting]
      refine congrArg (fun n : Nat => (n : Int) + 0) (List.countP_congr fun w _ => ?_)
      rw [Function.comp_apply]
      split <;> rfl
  | resume t =>
    simp only [Gate.step] at hstep
    cases hfind : g.waiters.find? (·.1 == t) with
    | none =>
      rw [hfind, h.core.queue] at hstep
      cases hstep
    | some w =>
      have hmem := List.mem_of_find?_eq_some hfind
      obtain rfl : w.1 = t := by simpa using List.find?_some hfind
      obtain ⟨hcore, hnew⟩ := h.resumed hmem
      rw [hfind] at hstep
      obtain ⟨u, block, future⟩ := w
      have hacquire (purpose : Purpose) :
          { g with waiters := g.waiters.filter (·.1 != u) }.acquire u purpose =
            { g with waiters := g.waiters.filter (·.1 != u), locked := true }.withLock u purpose := by
        unfold Gate.acquire
        rw [h.unlocked, h.core.queue]
        rfl
      cases future with
      | pending => cases hstep
      | done =>
        cases hstep
        rw [hacquire]
        exact Core.check block hcore.locked hnew
      | cancelled =>
        cases hstep
        rw [hacquire]
        exact Core.cancelled block hcore.locked

/-- Every state a run reaches meets the invariant. -/
theorem inv_of_exec {actions : List (Action Task)}
    (h : exec Gate.step Gate.initial actions = some g) : Inv g :=
  exec_invariant (P := Inv) (fun _ _ _ => step_inv) inv_initial h

end Step

section Runs

variable {g : Gate Task} {actions : List (Action Task)}

/-- **The gate excludes**: at most one task is inside `exclusive`, nobody else is inside `shared`
meanwhile, and the holders count the shared blocks each task is inside. -/
theorem gate_excludes (h : exec Gate.step Gate.initial actions = some g) :
    (∀ t u, 0 < g.inside .exclusive t → 0 < g.inside .exclusive u → t = u) ∧
    (∀ t, 0 < g.inside .exclusive t → ∀ u, 0 < g.inside .shared u → u = t) ∧
    ∀ t, (g.holders.lookup t).getD 0 = g.inside .shared t := by
  have hcore := (inv_of_exec h).core
  refine ⟨?_, ?_, hcore.lookup⟩
  · intro t u ht hu
    rw [hcore.owner] at ht hu
    exact Option.some.inj (ht.symm.trans hu)
  · intro t ht u hu
    exact hcore.alone t ((hcore.owner t).1 ht) u hu

/-- The tasks that wait in `exclusive`. -/
def Gate.waitingInExclusive (g : Gate Task) : Nat :=
  g.waiters.countP (·.2.1 == .exclusive) +
    g.queue.countP fun q => match q.2.1 with
      | .recheck .exclusive _ => true
      | _ => false

/-- Leaving a block is not interrupted. -/
theorem Inv.leave_inside (h : Inv g) {block : Block} {t : Task} {g' : Gate Task}
    (hstep : g.step (.leave block t) = some g') : g'.inside block t = g.inside block t - 1 := by
  simp only [Gate.step, Option.ite_none_left_eq_some, Option.some.injEq] at hstep
  rw [← hstep.2, h.acquire_eq]
  have hleft (g : Gate Task) : (g.left block t).inside block t = g.inside block t - 1 := by
    rw [Gate.left, inside_setInside, if_pos ⟨rfl, rfl⟩]
  cases block with
  | shared =>
    refine (hleft _).trans ?_
    unfold Gate.unhold
    split
    · split <;> rfl
    · rfl
  | exclusive => exact hleft _

/-- **The gate leaks no hold**, wherever tasks are cancelled: a block that is left is given back
at once, and with nobody inside nothing is held. -/
theorem gate_leaks_no_hold (h : exec Gate.step Gate.initial actions = some g) :
    (∀ block t g', g.step (.leave block t) = some g' →
      g'.inside block t = g.inside block t - 1) ∧
    (∀ t, g.inside .shared t = 0 → g.holders.lookup t = none) ∧
    (∀ t, g.inside .exclusive t = 0 → g.owner ≠ some t) ∧
    ((∀ block t, g.inside block t = 0) →
      g.holders.entries = [] ∧ g.owner = none ∧ g.waiting = g.waitingInExclusive) := by
  have hinv := inv_of_exec h
  have hholders (t : Task) (ht : g.inside .shared t = 0) : g.holders.lookup t = none := by
    rw [← view_apply, hinv.core.holders, if_pos ht]
  have howner (t : Task) (ht : g.inside .exclusive t = 0) : g.owner ≠ some t := by
    intro hsome
    have := (hinv.core.owner t).2 hsome
    omega
  refine ⟨fun _ _ _ => hinv.leave_inside, hholders, howner, fun hout => ⟨?_, ?_, ?_⟩⟩
  · apply List.eq_nil_iff_forall_not_mem.2
    rintro ⟨t, n⟩ hmem
    have := mem_entries_iff_view.1 hmem
    rw [view_apply, hholders t (hout .shared t)] at this
    cases this
  · cases ho : g.owner with
    | none => rfl
    | some t => exact absurd ho (howner t (hout .exclusive t))
  · rw [Gate.waitingInExclusive, hinv.core.queue, hinv.core.waiting]
    rfl

end Runs

section Sample

/-- A purge arrives while a request is in the store; a second request and a nested block of the
first follow, and the purge is cancelled as it waits. -/
def cancelledPurge : List (Action Nat) :=
  [.enter .shared 1, .enter .exclusive 2, .enter .shared 3, .enter .shared 1, .cancel 2, .resume 2,
    .resume 3, .leave .shared 1]

theorem exists_gate (h : (exec Gate.step Gate.initial cancelledPurge).isSome = true) :
    ∃ g, exec Gate.step Gate.initial cancelledPurge = some g :=
  Option.isSome_iff_exists.1 h

theorem gate_excludes_sample :
    ∃ g : Gate Nat, exec Gate.step Gate.initial cancelledPurge = some g ∧
      (g.holders.lookup 3).getD 0 = g.inside .shared 3 := by
  obtain ⟨g, hg⟩ := exists_gate (by decide +kernel)
  exact ⟨g, hg, (gate_excludes hg).2.2 3⟩

theorem gate_leaks_no_hold_sample :
    ∃ g : Gate Nat, exec Gate.step Gate.initial cancelledPurge = some g ∧
      (g.inside .shared 2 = 0 → g.holders.lookup 2 = none) := by
  obtain ⟨g, hg⟩ := exists_gate (by decide +kernel)
  exact ⟨g, hg, (gate_leaks_no_hold hg).2.1 2⟩

end Sample

end Coppermind.Maintenance
