import Coppermind.Lib.Run

/-!
# Tasks that others interleave with

A task is a program cut into steps.  Each step is named by its site; it reads the state, changes
it, and goes on with what it read, unless it fails.  Between two steps the world may change, and
a task may be dropped before any step and never resumed: its process was killed.

`Task.wp` says of a task what holds where it pauses, where it has its answer and where it has
raised, under an assumption about what others do and which steps fail.  `Task.run` is a task that
nothing disturbs, and `turn` takes one turn of a world in which tasks and events take turns.
-/

namespace Coppermind.Lib

/-- A task has its answer, has raised, or stands before its next step. -/
inductive Task (ι σ ε α : Type) where
  | done (a : α)
  | raised (e : ε)
  | step (site : ι) (effect : σ → σ) (rest : σ → Task ι σ ε α) (failed : Task ι σ ε α)

namespace Task

variable {ι σ ε α β : Type}

def bind (t : Task ι σ ε α) (k : α → Task ι σ ε β) : Task ι σ ε β :=
  match t with
  | done a => k a
  | raised e => raised e
  | step site effect rest failed => step site effect (fun s => bind (rest s) k) (bind failed k)

instance : Monad (Task ι σ ε) where
  pure := done
  bind := bind

/-- `raise e`, where `failing`. -/
def raiseIf (failing : Bool) (e : ε) : Task ι σ ε Unit :=
  if failing then raised e else done ()

/-- What `f` reads of the state; `e` where the reading fails. -/
def look (site : ι) (e : ε) (f : σ → α) : Task ι σ ε α :=
  step site id (fun s => done (f s)) (raised e)

/-- A reading that may raise by itself. -/
def lookOr (site : ι) (e : ε) (f : σ → Except ε α) : Task ι σ ε α :=
  step site id
    (fun s =>
      match f s with
      | .ok a => done a
      | .error e' => raised e')
    (raised e)

/-- A change of the state; `e` where it fails. -/
def act (site : ι) (e : ε) (f : σ → σ) : Task ι σ ε Unit :=
  step site f (fun _ => done ()) (raised e)

/-- What an `Except` computed. -/
def ofExcept (x : Except ε α) : Task ι σ ε α :=
  match x with
  | .ok a => done a
  | .error e => raised e

/-- `except … as exc: raise … from exc`. -/
def mapRaised (f : ε → ε) : Task ι σ ε α → Task ι σ ε α
  | done a => done a
  | raised e => raised (f e)
  | step site effect rest failed =>
    step site effect (fun s => mapRaised f (rest s)) (mapRaised f failed)

/-- `except` with a handler of its own. -/
def catchRaised (t : Task ι σ ε α) (handler : ε → Task ι σ ε α) : Task ι σ ε α :=
  match t with
  | done a => done a
  | raised e => handler e
  | step site effect rest failed =>
    step site effect (fun s => catchRaised (rest s) handler) (catchRaised failed handler)

/-- The task where no other disturbs it and no step fails. -/
def run : Task ι σ ε α → σ → Except ε α × σ
  | done a, s => (.ok a, s)
  | raised e, s => (.error e, s)
  | step _ effect rest _, s => run (rest s) (effect s)

/-- Where such a run pauses, and the state it stands in there: what a kill leaves. -/
def pauses : Task ι σ ε α → σ → List (ι × σ)
  | done _, _ => []
  | raised _, _ => []
  | step site effect rest _, s => (site, s) :: pauses (rest s) (effect s)

end Task

/-- What a task has to expect: what others make of the state while it stands before a step, the
steps that are taken, from which state to which, and those that may fail. -/
structure Weather (ι σ : Type) where
  others : ι → σ → σ → Prop
  takes : ι → σ → σ → Prop
  fails : ι → Prop

/-- Nobody else acts and nothing fails. -/
def Weather.still {ι σ : Type} : Weather ι σ :=
  ⟨fun _ s s' => s' = s, fun _ _ _ => True, fun _ => False⟩

namespace Task

variable {ι σ ε α β : Type}

/-- In the weather `c`, a run of the task from `s` has `K` before each of its steps, and ends with
an answer and `Q` or raises with `E`. -/
def wp (c : Weather ι σ) (K : ι → σ → Prop) (Q : α → σ → Prop) (E : ε → σ → Prop) :
    Task ι σ ε α → σ → Prop
  | done a, s => Q a s
  | raised e, s => E e s
  | step site effect rest failed, s =>
    K site s ∧ ∀ s', c.others site s s' →
      (c.takes site s' (effect s') → wp c K Q E (rest s') (effect s')) ∧
        (c.fails site → wp c K Q E failed s')

section Rules

variable {c : Weather ι σ} {K K' : ι → σ → Prop} {Q Q' : α → σ → Prop} {E E' : ε → σ → Prop}
  {t : Task ι σ ε α} {s : σ}

@[simp] theorem wp_pure (a : α) : wp c K Q E (pure a) s ↔ Q a s := Iff.rfl

@[simp] theorem wp_done (a : α) : wp c K Q E (done a) s ↔ Q a s := Iff.rfl

@[simp] theorem wp_raised (e : ε) : wp c K Q E (raised e : Task ι σ ε α) s ↔ E e s := Iff.rfl

theorem wp_step {site : ι} {effect : σ → σ} {rest : σ → Task ι σ ε α} {failed : Task ι σ ε α} :
    wp c K Q E (step site effect rest failed) s ↔
      K site s ∧ ∀ s', c.others site s s' →
        (c.takes site s' (effect s') → wp c K Q E (rest s') (effect s')) ∧
          (c.fails site → wp c K Q E failed s') :=
  Iff.rfl

/-- **Consequence**: what a task is known to end in may be weakened. -/
theorem wp_mono (h : wp c K Q E t s) (hK : ∀ i s, K i s → K' i s) (hQ : ∀ a s, Q a s → Q' a s)
    (hE : ∀ e s, E e s → E' e s) : wp c K' Q' E' t s := by
  induction t generalizing s with
  | done a => exact hQ a s h
  | raised e => exact hE e s h
  | step site effect rest failed ihRest ihFailed =>
    refine ⟨hK site s h.1, fun s' hs' => ?_⟩
    obtain ⟨hrest, hfailed⟩ := h.2 s' hs'
    exact ⟨fun hm => ihRest s' (hrest hm), fun hf => ihFailed (hfailed hf)⟩

/-- **Sequencing**. -/
theorem wp_bind {Q : β → σ → Prop} {k : α → Task ι σ ε β} :
    wp c K Q E (t >>= k) s ↔ wp c K (fun a s' => wp c K Q E (k a) s') E t s := by
  change wp c K Q E (bind t k) s ↔ _
  induction t generalizing s with
  | done a => rfl
  | raised e => rfl
  | step site effect rest failed ihRest ihFailed =>
    rw [bind, wp_step, wp_step]
    exact and_congr_right fun _ => forall_congr' fun s' => imp_congr_right fun _ =>
      and_congr (imp_congr_right fun _ => ihRest s') (imp_congr_right fun _ => ihFailed)

/-- A task with a specification, and what follows on its answer. -/
theorem wp_seq {Q : β → σ → Prop} {R : α → σ → Prop} {k : α → Task ι σ ε β}
    (ht : wp c K R E t s) (hk : ∀ a s', R a s' → wp c K Q E (k a) s') :
    wp c K Q E (t >>= k) s :=
  wp_bind.2 (wp_mono ht (fun _ _ h => h) hk fun _ _ h => h)

@[simp] theorem wp_raiseIf {Q : Unit → σ → Prop} (failing : Bool) (e : ε) :
    wp c K Q E (raiseIf failing e) s ↔ if failing = true then E e s else Q () s := by
  cases failing <;> rfl

theorem wp_lookOr {site : ι} {e : ε} {f : σ → Except ε α} :
    wp c K Q E (lookOr site e f) s ↔
      K site s ∧ ∀ s', c.others site s s' →
        (c.takes site s' s' →
          match f s' with
          | .ok a => Q a s'
          | .error e' => E e' s') ∧ (c.fails site → E e s') := by
  rw [lookOr, wp_step]
  refine and_congr_right fun _ => forall_congr' fun s' => imp_congr_right fun _ => ?_
  cases f s' <;> rfl

theorem wp_ofExcept {x : Except ε α} (hok : ∀ a, x = .ok a → Q a s)
    (herror : ∀ e, x = .error e → E e s) : wp c K Q E (ofExcept x) s := by
  cases x with
  | ok a => exact hok a rfl
  | error e => exact herror e rfl

theorem wp_mapRaised {f : ε → ε} :
    wp c K Q E (mapRaised f t) s ↔ wp c K Q (fun e s' => E (f e) s') t s := by
  induction t generalizing s with
  | done a => rfl
  | raised e => rfl
  | step site effect rest failed ihRest ihFailed =>
    rw [mapRaised, wp_step, wp_step]
    exact and_congr_right fun _ => forall_congr' fun s' => imp_congr_right fun _ =>
      and_congr (imp_congr_right fun _ => ihRest s') (imp_congr_right fun _ => ihFailed)

theorem wp_catchRaised {handler : ε → Task ι σ ε α} :
    wp c K Q E (catchRaised t handler) s ↔
      wp c K Q (fun e s' => wp c K Q E (handler e) s') t s := by
  induction t generalizing s with
  | done a => rfl
  | raised e => rfl
  | step site effect rest failed ihRest ihFailed =>
    rw [catchRaised, wp_step, wp_step]
    exact and_congr_right fun _ => forall_congr' fun s' => imp_congr_right fun _ =>
      and_congr (imp_congr_right fun _ => ihRest s') (imp_congr_right fun _ => ihFailed)

end Rules

section Still

variable {K : ι → σ → Prop} {Q : α → σ → Prop} {E : ε → σ → Prop} {t : Task ι σ ε α} {s : σ}

@[simp] theorem still_others {site : ι} {s s' : σ} :
    (Weather.still : Weather ι σ).others site s s' ↔ s' = s := Iff.rfl

@[simp] theorem still_takes {site : ι} {s s' : σ} :
    (Weather.still : Weather ι σ).takes site s s' :=
  trivial

@[simp] theorem still_fails {site : ι} : ¬(Weather.still : Weather ι σ).fails site := id

/-- In still weather, a task runs to the end its specification names. -/
theorem run_of_wp (h : wp .still K Q E t s) :
    (∃ a s', run t s = (.ok a, s') ∧ Q a s') ∨ ∃ e s', run t s = (.error e, s') ∧ E e s' := by
  induction t generalizing s with
  | done a => exact Or.inl ⟨a, s, rfl, h⟩
  | raised e => exact Or.inr ⟨e, s, rfl, h⟩
  | step site effect rest failed ihRest ihFailed => exact ihRest s ((h.2 s rfl).1 trivial)

/-- In still weather, what a task is known to have where it pauses, it has there. -/
theorem pauses_of_wp (h : wp .still K Q E t s) {site : ι} {s' : σ}
    (hp : (site, s') ∈ pauses t s) : K site s' := by
  induction t generalizing s with
  | done a => cases hp
  | raised e => cases hp
  | step i effect rest failed ihRest ihFailed =>
    obtain hp | hp := List.mem_cons.1 hp
    · cases hp
      exact h.1
    · exact ihRest s ((h.2 s rfl).1 trivial) hp

end Still

section Run

variable {s : σ} {site : ι} {e : ε}

@[simp] theorem run_pure (a : α) : run (pure a : Task ι σ ε α) s = (.ok a, s) := rfl

@[simp] theorem run_raised : run (raised e : Task ι σ ε α) s = (.error e, s) := rfl

@[simp] theorem run_raiseIf (failing : Bool) :
    run (raiseIf failing e : Task ι σ ε Unit) s =
      (if failing = true then .error e else .ok (), s) := by
  cases failing <;> rfl

@[simp] theorem run_look (f : σ → α) : run (look site e f) s = (.ok (f s), s) := rfl

@[simp] theorem run_lookOr (f : σ → Except ε α) : run (lookOr site e f) s = (f s, s) := by
  rw [lookOr, run]
  cases f s <;> rfl

@[simp] theorem run_ofExcept (x : Except ε α) : run (ofExcept x : Task ι σ ε α) s = (x, s) := by
  cases x <;> rfl

@[simp] theorem run_act (f : σ → σ) : run (act site e f : Task ι σ ε Unit) s = (.ok (), f s) := rfl

/-- **Sequencing** of a task that nothing disturbs. -/
theorem run_bind (t : Task ι σ ε α) (k : α → Task ι σ ε β) :
    run (t >>= k) s =
      match run t s with
      | (.ok a, s') => run (k a) s'
      | (.error e, s') => (.error e, s') := by
  change run (bind t k) s = _
  induction t generalizing s with
  | done a => rfl
  | raised e => rfl
  | step site effect rest failed ihRest ihFailed => exact ihRest s

theorem run_catchRaised (t : Task ι σ ε α) (handler : ε → Task ι σ ε α) :
    run (catchRaised t handler) s =
      match run t s with
      | (.ok a, s') => (.ok a, s')
      | (.error e, s') => run (handler e) s' := by
  induction t generalizing s with
  | done a => rfl
  | raised e => rfl
  | step site effect rest failed ihRest ihFailed => exact ihRest s

end Run

end Task

section Turns

variable {ι σ ε α κ ξ : Type}

/-- A world, and the task that runs in it: which one it is, and where it stands. -/
structure Scene (ι σ ε α κ : Type) where
  world : σ
  running : Option (κ × Task ι σ ε α)

/-- Who takes the next turn: an event, a new task, or the running task, whose next step is taken
or fails, or which is killed. -/
inductive Turn (κ ξ : Type) where
  | event (e : ξ)
  | start (k : κ)
  | resume
  | fail
  | kill

/-- A task that has not ended. -/
def Task.live (k : κ) : Task ι σ ε α → Option (κ × Task ι σ ε α)
  | .step site effect rest failed => some (k, .step site effect rest failed)
  | _ => none

/-- The site a running task stands before. -/
def Scene.site? (scene : Scene ι σ ε α κ) : Option (κ × ι) :=
  match scene.running with
  | some (k, .step site _ _ _) => some (k, site)
  | _ => none

variable (apply : ξ → σ → σ) (enabled : Option (κ × ι) → ξ → Bool) (task : κ → Task ι σ ε α)

/-- One turn; a turn that is not possible changes nothing. -/
def turn (scene : Scene ι σ ε α κ) : Turn κ ξ → Scene ι σ ε α κ
  | .event e =>
    if enabled scene.site? e then { scene with world := apply e scene.world } else scene
  | .start k =>
    match scene.running with
    | none => { scene with running := (task k).live k }
    | some _ => scene
  | .resume =>
    match scene.running with
    | some (k, .step _ effect rest _) => ⟨effect scene.world, (rest scene.world).live k⟩
    | _ => scene
  | .fail =>
    match scene.running with
    | some (k, .step _ _ _ failed) => { scene with running := failed.live k }
    | _ => scene
  | .kill => { scene with running := none }

variable {apply enabled task}

/-- What the specifications of the tasks promise of a scene: `I` of the world, and of a running
task that it is on its way. -/
def OnTheWay (c : κ → Weather ι σ) (I : σ → Prop) (scene : Scene ι σ ε α κ) : Prop :=
  I scene.world ∧
    match scene.running with
    | some (k, .step site effect rest failed) =>
      ∃ s, (c k).others site s scene.world ∧
        Task.wp (c k) (fun _ => I) (fun _ => I) (fun _ => I) (.step site effect rest failed) s
    | _ => True

theorem onTheWay_live {c : κ → Weather ι σ} {I : σ → Prop} {k : κ} {t : Task ι σ ε α} {s : σ}
    (hrefl : ∀ site s, (c k).others site s s)
    (h : Task.wp (c k) (fun _ => I) (fun _ => I) (fun _ => I) t s) :
    OnTheWay c I ⟨s, t.live k⟩ := by
  cases t with
  | done a => exact ⟨h, trivial⟩
  | raised e => exact ⟨h, trivial⟩
  | step site effect rest failed => exact ⟨h.1, s, hrefl site s, h⟩

/-- **One turn**: it keeps every task on its way, where the events of the turn are what the
running task expects. -/
theorem onTheWay_turn {c : κ → Weather ι σ} {I : σ → Prop} {scene : Scene ι σ ε α κ}
    {t : Turn κ ξ} (hrefl : ∀ k site s, (c k).others site s s)
    (htrans : ∀ k site s s' s'', (c k).others site s s' → (c k).others site s' s'' →
      (c k).others site s s'')
    (htask : ∀ k, t = .start k → ∀ s, I s →
      Task.wp (c k) (fun _ => I) (fun _ => I) (fun _ => I) (task k) s)
    (hevent : ∀ e, t = .event e → enabled scene.site? e = true → I scene.world →
      I (apply e scene.world) ∧ ∀ k site, scene.site? = some (k, site) →
        (c k).others site scene.world (apply e scene.world))
    (hresume : t = .resume → ∀ k site, scene.site? = some (k, site) →
      (c k).takes site scene.world (turn apply enabled task scene .resume).world)
    (hfail : t = .fail → ∀ k site, scene.site? = some (k, site) → (c k).fails site)
    (h : OnTheWay c I scene) : OnTheWay c I (turn apply enabled task scene t) := by
  obtain ⟨world, running⟩ := scene
  obtain ⟨hI, hway⟩ := h
  cases t with
  | event e =>
    rw [turn]
    split
    · next henabled =>
      obtain ⟨hkeep, hothers⟩ := hevent e rfl henabled hI
      refine ⟨hkeep, ?_⟩
      dsimp only at hway ⊢
      split at hway
      · next k site effect rest failed =>
        obtain ⟨s, hs, hwp⟩ := hway
        exact ⟨s, htrans k site _ _ _ hs (hothers k site rfl), hwp⟩
      · trivial
    · exact ⟨hI, hway⟩
  | start k =>
    cases running with
    | none => exact onTheWay_live (hrefl k) (htask k rfl world hI)
    | some r => exact ⟨hI, hway⟩
  | resume =>
    match running with
    | none => exact ⟨hI, trivial⟩
    | some (k, .done a) => exact ⟨hI, trivial⟩
    | some (k, .raised e) => exact ⟨hI, trivial⟩
    | some (k, .step site effect rest failed) =>
      obtain ⟨s, hs, hwp⟩ := hway
      exact onTheWay_live (hrefl k) ((hwp.2 world hs).1 (hresume rfl k site rfl))
  | fail =>
    match running with
    | none => exact ⟨hI, trivial⟩
    | some (k, .done a) => exact ⟨hI, trivial⟩
    | some (k, .raised e) => exact ⟨hI, trivial⟩
    | some (k, .step site effect rest failed) =>
      obtain ⟨s, hs, hwp⟩ := hway
      exact onTheWay_live (hrefl k) ((hwp.2 world hs).2 (hfail rfl k site rfl))
  | kill => exact ⟨hI, trivial⟩

/-- **A run of turns**: tasks that are on their way stay so along a run whose turns are what the
running task expects, and `I` holds of every world it reaches. -/
theorem onTheWay_run {c : κ → Weather ι σ} {I : σ → Prop} {P : Scene ι σ ε α κ → Turn κ ξ → Prop}
    (hrefl : ∀ k site s, (c k).others site s s)
    (htrans : ∀ k site s s' s'', (c k).others site s s' → (c k).others site s' s'' →
      (c k).others site s s'')
    (htask : ∀ scene k, P scene (.start k) → ∀ s, I s →
      Task.wp (c k) (fun _ => I) (fun _ => I) (fun _ => I) (task k) s)
    (hevent : ∀ scene e, P scene (.event e) → enabled scene.site? e = true → I scene.world →
      I (apply e scene.world) ∧ ∀ k site, scene.site? = some (k, site) →
        (c k).others site scene.world (apply e scene.world))
    (hresume : ∀ scene, P scene .resume → ∀ k site, scene.site? = some (k, site) →
      (c k).takes site scene.world (turn apply enabled task scene .resume).world)
    (hfail : ∀ k site, (c k).fails site) {scene : Scene ι σ ε α κ} {turns : List (Turn κ ξ)}
    (hrun : Along (turn apply enabled task) P scene turns) (h : OnTheWay c I scene) :
    OnTheWay c I (turns.foldl (turn apply enabled task) scene) := by
  induction turns generalizing scene with
  | nil => exact h
  | cons t rest ih =>
    obtain ⟨ht, hrest⟩ := hrun
    apply ih hrest
    apply onTheWay_turn hrefl htrans ?_ ?_ ?_ (fun _ k site _ => hfail k site) h
    · intro k hk
      subst hk
      exact htask scene k ht
    · intro e he henabled hI
      subst he
      exact hevent scene e ht henabled hI
    · intro he k site hsite
      subst he
      exact hresume scene ht k site hsite

/-- What holds of a scene whose tasks each lead from `D` to `D`: `D` of the world between them,
and of a running task that it stands where its specification has `K`. -/
def Underway (c : κ → Weather ι σ) (K : κ → ι → σ → Prop) (D : σ → Prop)
    (scene : Scene ι σ ε α κ) : Prop :=
  match scene.running with
  | some (k, .step site effect rest failed) =>
    ∃ s, (c k).others site s scene.world ∧
      Task.wp (c k) (K k) (fun _ => D) (fun _ => D) (.step site effect rest failed) s
  | _ => D scene.world

theorem underway_live {c : κ → Weather ι σ} {K : κ → ι → σ → Prop} {D : σ → Prop} {k : κ}
    {t : Task ι σ ε α} {s : σ} (hrefl : ∀ site s, (c k).others site s s)
    (h : Task.wp (c k) (K k) (fun _ => D) (fun _ => D) t s) : Underway c K D ⟨s, t.live k⟩ := by
  cases t with
  | done a => exact h
  | raised e => exact h
  | step site effect rest failed => exact ⟨s, hrefl site s, h⟩

/-- **One turn** between worlds that satisfy `D` while no task runs. -/
theorem underway_turn {c : κ → Weather ι σ} {K : κ → ι → σ → Prop} {D : σ → Prop}
    {scene : Scene ι σ ε α κ} {t : Turn κ ξ} (hrefl : ∀ k site s, (c k).others site s s)
    (htrans : ∀ k site s s' s'', (c k).others site s s' → (c k).others site s' s'' →
      (c k).others site s s'')
    (htask : ∀ k, t = .start k → ∀ s, D s →
      Task.wp (c k) (K k) (fun _ => D) (fun _ => D) (task k) s)
    (hevent : ∀ e, t = .event e → enabled scene.site? e = true →
      (scene.site? = none → D scene.world → D (apply e scene.world)) ∧
        ∀ k site, scene.site? = some (k, site) →
          (c k).others site scene.world (apply e scene.world))
    (hresume : t = .resume → ∀ k site, scene.site? = some (k, site) →
      (c k).takes site scene.world (turn apply enabled task scene .resume).world)
    (hfail : t = .fail → ∀ k site, scene.site? = some (k, site) → (c k).fails site)
    (hkill : t = .kill → ∀ k site s, scene.site? = some (k, site) → K k site s →
      (c k).others site s scene.world → D scene.world)
    (h : Underway c K D scene) : Underway c K D (turn apply enabled task scene t) := by
  obtain ⟨world, running⟩ := scene
  cases t with
  | event e =>
    rw [turn]
    split
    · next henabled =>
      obtain ⟨hidle, hothers⟩ := hevent e rfl henabled
      match running with
      | none => exact hidle rfl h
      | some (k, .done a) => exact hidle rfl h
      | some (k, .raised x) => exact hidle rfl h
      | some (k, .step site effect rest failed) =>
        obtain ⟨s, hs, hwp⟩ := h
        exact ⟨s, htrans k site _ _ _ hs (hothers k site rfl), hwp⟩
    · exact h
  | start k =>
    match running with
    | none => exact underway_live (hrefl k) (htask k rfl world h)
    | some _ => exact h
  | resume =>
    match running with
    | none => exact h
    | some (k, .done a) => exact h
    | some (k, .raised e) => exact h
    | some (k, .step site effect rest failed) =>
      obtain ⟨s, hs, hwp⟩ := h
      exact underway_live (hrefl k) ((hwp.2 world hs).1 (hresume rfl k site rfl))
  | fail =>
    match running with
    | none => exact h
    | some (k, .done a) => exact h
    | some (k, .raised e) => exact h
    | some (k, .step site effect rest failed) =>
      obtain ⟨s, hs, hwp⟩ := h
      exact underway_live (hrefl k) ((hwp.2 world hs).2 (hfail rfl k site rfl))
  | kill =>
    match running with
    | none => exact h
    | some (k, .done a) => exact h
    | some (k, .raised e) => exact h
    | some (k, .step site effect rest failed) =>
      obtain ⟨s, hs, hwp⟩ := h
      exact hkill rfl k site s rfl hwp.1 hs

/-- **A run** from a world that satisfies `D`, none of whose turns is a kill: wherever no task
runs, the world satisfies `D`. -/
theorem underway_run {c : κ → Weather ι σ} {D : σ → Prop}
    {P : Scene ι σ ε α κ → Turn κ ξ → Prop} (hrefl : ∀ k site s, (c k).others site s s)
    (htrans : ∀ k site s s' s'', (c k).others site s s' → (c k).others site s' s'' →
      (c k).others site s s'')
    (htask : ∀ k s, D s → Task.wp (c k) (fun _ _ => True) (fun _ => D) (fun _ => D) (task k) s)
    (hevent : ∀ scene e, P scene (.event e) → enabled scene.site? e = true →
      (scene.site? = none → D scene.world → D (apply e scene.world)) ∧
        ∀ k site, scene.site? = some (k, site) →
          (c k).others site scene.world (apply e scene.world))
    (hresume : ∀ scene, P scene .resume → ∀ k site, scene.site? = some (k, site) →
      (c k).takes site scene.world (turn apply enabled task scene .resume).world)
    (hfail : ∀ scene, P scene .fail → ∀ k site, scene.site? = some (k, site) →
      (c k).fails site)
    (hkill : ∀ scene, ¬P scene .kill) {scene : Scene ι σ ε α κ} {turns : List (Turn κ ξ)}
    (hrun : Along (turn apply enabled task) P scene turns)
    (h : Underway c (fun _ _ _ => True) D scene) :
    Underway c (fun _ _ _ => True) D (turns.foldl (turn apply enabled task) scene) := by
  induction turns generalizing scene with
  | nil => exact h
  | cons t rest ih =>
    obtain ⟨ht, hrest⟩ := hrun
    apply ih hrest
    apply underway_turn hrefl htrans ?_ ?_ ?_ ?_ ?_ h
    · intro k _
      exact htask k
    · intro e he
      subst he
      exact hevent scene e ht
    · intro he
      subst he
      exact hresume scene ht
    · intro he
      subst he
      exact hfail scene ht
    · intro he
      subst he
      exact absurd ht (hkill scene)

end Turns

section Alone

variable {ι σ ε α κ ξ : Type}

/-- Nobody else acts, and the steps at these sites may fail. -/
def Weather.alone (fails : ι → Prop) : Weather ι σ :=
  ⟨fun _ s s' => s' = s, fun _ _ _ => True, fails⟩

/-- A step of a task that is alone. -/
theorem Task.wp_alone {fails : ι → Prop} {K : ι → σ → Prop} {Q : α → σ → Prop} {E : ε → σ → Prop}
    {site : ι} {effect : σ → σ} {rest : σ → Task ι σ ε α} {failed : Task ι σ ε α} {s : σ} :
    Task.wp (.alone fails) K Q E (.step site effect rest failed) s ↔
      K site s ∧ Task.wp (.alone fails) K Q E (rest s) (effect s) ∧
        (fails site → Task.wp (.alone fails) K Q E failed s) := by
  rw [Task.wp_step]
  constructor
  · intro h
    obtain ⟨hK, hs⟩ := h
    obtain ⟨hrest, hfailed⟩ := hs s rfl
    exact ⟨hK, hrest trivial, hfailed⟩
  · intro h
    obtain ⟨hK, hrest, hfailed⟩ := h
    refine ⟨hK, ?_⟩
    intro s' hs'
    obtain rfl : s' = s := hs'
    exact ⟨fun _ => hrest, hfailed⟩

/-- A task that is alone and meets no failure runs to the end its specification names. -/
theorem Task.run_of_alone {K : ι → σ → Prop} {Q : α → σ → Prop} {E : ε → σ → Prop}
    {t : Task ι σ ε α} {s : σ} (h : Task.wp (.alone fun _ => False) K Q E t s) :
    (∃ a s', run t s = (.ok a, s') ∧ Q a s') ∨ ∃ e s', run t s = (.error e, s') ∧ E e s' :=
  Task.run_of_wp h

variable (apply : ξ → σ → σ) (enabled : Option (κ × ι) → ξ → Bool) (task : κ → Task ι σ ε α)

/-- What the specifications of tasks that run one at a time promise of a scene: `I` of the world
between them, and of a running task that it stands as specified. -/
def OneAtATime (fails : κ → ι → Prop) (K : κ → ι → σ → Prop) (I : σ → Prop)
    (scene : Scene ι σ ε α κ) : Prop :=
  match scene.running with
  | some (k, .step site effect rest failed) =>
    Task.wp (.alone (fails k)) (K k) (fun _ => I) (fun _ => I) (.step site effect rest failed)
      scene.world
  | _ => I scene.world

variable {apply enabled task} {fails : κ → ι → Prop} {K : κ → ι → σ → Prop} {I : σ → Prop}

theorem oneAtATime_iff {scene : Scene ι σ ε α κ} :
    OneAtATime fails K I scene ↔ Underway (fun k => .alone (fails k)) K I scene := by
  unfold OneAtATime Underway
  split
  · constructor
    · intro h
      exact ⟨scene.world, rfl, h⟩
    · intro h
      obtain ⟨s, hs, h⟩ := h
      obtain rfl : scene.world = s := hs
      exact h
  · rfl

/-- **One turn** of tasks that run one at a time, with events between them. -/
theorem oneAtATime_turn {scene : Scene ι σ ε α κ} {t : Turn κ ξ}
    (htask : ∀ k, t = .start k → ∀ s, I s →
      Task.wp (.alone (fails k)) (K k) (fun _ => I) (fun _ => I) (task k) s)
    (hidle : ∀ e k site, t = .event e → enabled (some (k, site)) e = false)
    (hevent : ∀ e, t = .event e → I scene.world → I (apply e scene.world))
    (hfail : t = .fail → ∀ k site, scene.site? = some (k, site) → fails k site)
    (hkill : t = .kill → ∀ k site, scene.site? = some (k, site) → K k site scene.world →
      I scene.world)
    (h : OneAtATime fails K I scene) : OneAtATime fails K I (turn apply enabled task scene t) := by
  rw [oneAtATime_iff] at h ⊢
  apply underway_turn (fun _ _ _ => rfl) ?_ htask ?_ (fun _ _ _ _ => trivial) hfail ?_ h
  · intro k site s s' s'' hs hs'
    exact hs'.trans hs
  · intro e he henabled
    refine ⟨fun _ => hevent e he, ?_⟩
    intro k site hsite
    rw [hsite, hidle e k site he] at henabled
    cases henabled
  · intro he k site s hsite hK hs
    obtain rfl : scene.world = s := hs
    exact hkill he k site hsite hK

/-- **A run** of tasks one at a time: it stays as specified where its turns are the ones that the
specifications allow. -/
theorem oneAtATime_run {P : Scene ι σ ε α κ → Turn κ ξ → Prop}
    (htask : ∀ k s, I s →
      Task.wp (.alone (fails k)) (K k) (fun _ => I) (fun _ => I) (task k) s)
    (hidle : ∀ e k site, enabled (some (k, site)) e = false)
    (hevent : ∀ scene e, P scene (.event e) → I scene.world → I (apply e scene.world))
    (hfail : ∀ scene, P scene .fail → ∀ k site, scene.site? = some (k, site) → fails k site)
    (hkill : ∀ scene, P scene .kill → ∀ k site, scene.site? = some (k, site) →
      K k site scene.world → I scene.world)
    {scene : Scene ι σ ε α κ} {turns : List (Turn κ ξ)}
    (hrun : Along (turn apply enabled task) P scene turns) (h : OneAtATime fails K I scene) :
    OneAtATime fails K I (turns.foldl (turn apply enabled task) scene) := by
  induction turns generalizing scene with
  | nil => exact h
  | cons t rest ih =>
    obtain ⟨ht, hrest⟩ := hrun
    apply ih hrest
    apply oneAtATime_turn ?_ ?_ ?_ ?_ ?_ h
    · intro k _
      exact htask k
    · intro e k site _
      exact hidle e k site
    · intro e he
      subst he
      exact hevent scene e ht
    · intro he
      subst he
      exact hfail scene ht
    · intro he
      subst he
      exact hkill scene ht

end Alone

section Keeping

variable {ι σ ε α β : Type}

/-- Whatever happens, the task keeps `I`: before each of its steps, in its answer and where it
raises. -/
def Task.Keeps (c : Weather ι σ) (I : σ → Prop) (t : Task ι σ ε α) : Prop :=
  ∀ s, I s → Task.wp c (fun _ => I) (fun _ => I) (fun _ => I) t s

variable {c : Weather ι σ} {I : σ → Prop}

theorem Task.keeps_done (a : α) : Keeps c I (done a : Task ι σ ε α) := fun _ h => h

theorem Task.keeps_pure (a : α) : Keeps c I (pure a : Task ι σ ε α) := fun _ h => h

theorem Task.keeps_raised (e : ε) : Keeps c I (raised e : Task ι σ ε α) := fun _ h => h

/-- One step: its effect keeps `I` where it is taken, and so does what follows. -/
theorem Task.keeps_step {site : ι} {effect : σ → σ} {rest : σ → Task ι σ ε α}
    {failed : Task ι σ ε α} (hothers : ∀ s s', I s → c.others site s s' → I s')
    (heffect : ∀ s, I s → c.takes site s (effect s) → I (effect s))
    (hrest : ∀ s, Keeps c I (rest s)) (hfailed : Keeps c I failed) :
    Keeps c I (step site effect rest failed) := by
  intro s hs
  refine ⟨hs, fun s' hs' => ?_⟩
  have hI := hothers s s' hs hs'
  exact ⟨fun htakes => hrest s' _ (heffect s' hI htakes), fun _ => hfailed s' hI⟩

theorem Task.keeps_bind {t : Task ι σ ε α} {k : α → Task ι σ ε β} (ht : Keeps c I t)
    (hk : ∀ a, Keeps c I (k a)) : Keeps c I (t >>= k) := by
  intro s hs
  exact Task.wp_seq (ht s hs) fun a s' hs' => hk a s' hs'

theorem Task.keeps_catchRaised {t : Task ι σ ε α} {handler : ε → Task ι σ ε α}
    (ht : Keeps c I t) (hh : ∀ e, Keeps c I (handler e)) : Keeps c I (catchRaised t handler) := by
  intro s hs
  rw [Task.wp_catchRaised]
  exact Task.wp_mono (ht s hs) (fun _ _ h => h) (fun _ _ h => h) fun e s' hs' => hh e s' hs'

theorem Task.keeps_raiseIf (failing : Bool) (e : ε) :
    Keeps c I (raiseIf failing e : Task ι σ ε Unit) := by
  cases failing
  · exact keeps_done ()
  · exact keeps_raised e

variable (hothers : ∀ site s s', I s → c.others site s s' → I s')

include hothers

/-- A reading keeps what the others keep. -/
theorem Task.keeps_look (site : ι) (e : ε) (f : σ → α) : Keeps c I (look site e f) :=
  keeps_step (hothers site) (fun _ h _ => h) (fun _ => keeps_done _) (keeps_raised e)

theorem Task.keeps_lookOr (site : ι) (e : ε) (f : σ → Except ε α) :
    Keeps c I (lookOr site e f) := by
  apply keeps_step (hothers site) (fun _ h _ => h) _ (keeps_raised e)
  intro s
  cases f s with
  | ok a => exact keeps_done a
  | error e' => exact keeps_raised e'

theorem Task.keeps_act {site : ι} {e : ε} {f : σ → σ}
    (h : ∀ s, I s → c.takes site s (f s) → I (f s)) :
    Keeps c I (act site e f : Task ι σ ε Unit) :=
  keeps_step (hothers site) h (fun _ => keeps_done ()) (keeps_raised e)

end Keeping

end Coppermind.Lib
