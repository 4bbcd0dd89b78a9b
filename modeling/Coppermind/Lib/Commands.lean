import Coppermind.Lib.Task

/-!
# Tasks whose steps are commands

Where the site of a step says what the step does, what a specification knows before the step is
known of the change the step makes: `turn_commanded` reads it off a scene.  `Traced` says what a
task may do after what it has read, in a world that may become anything between two of its steps.
`forEach` is a loop over a list, with the rule for an invariant of what it has gone through.
-/

namespace Coppermind.Lib

variable {ι σ ε α β γ κ ξ : Type}

namespace Task

/-- `P` holds of the site and the effect of every step. -/
def Steps (P : ι → (σ → σ) → Prop) : Task ι σ ε α → Prop
  | done _ => True
  | raised _ => True
  | step site f rest failed => P site f ∧ (∀ s, Steps P (rest s)) ∧ Steps P failed

/-- The command at a site; `e` where it fails. -/
def perform (effect : ι → σ → σ) (site : ι) (e : ε) : Task ι σ ε Unit := act site e (effect site)

/-- `for x in xs`. -/
def forEach (f : γ → Task ι σ ε Unit) : List γ → Task ι σ ε Unit
  | [] => done ()
  | x :: xs => bind (f x) fun _ => forEach f xs

section Steps

variable {P : ι → (σ → σ) → Prop} {t : Task ι σ ε α} {site : ι}

theorem steps_pure (a : α) : Steps P (pure a : Task ι σ ε α) := trivial

theorem steps_raised (e : ε) : Steps P (raised e : Task ι σ ε α) := trivial

theorem steps_raiseIf (failing : Bool) (e : ε) :
    Steps P (raiseIf failing e : Task ι σ ε Unit) := by
  cases failing <;> trivial

theorem steps_bind {k : α → Task ι σ ε β} (ht : Steps P t) (hk : ∀ a, Steps P (k a)) :
    Steps P (t >>= k) := by
  change Steps P (bind t k)
  induction t with
  | done a => exact hk a
  | raised e => trivial
  | step site f rest failed ihRest ihFailed =>
    obtain ⟨hf, hrest, hfailed⟩ := ht
    exact ⟨hf, fun s => ihRest s (hrest s), ihFailed hfailed⟩

theorem steps_catchRaised {handler : ε → Task ι σ ε α} (ht : Steps P t)
    (hh : ∀ e, Steps P (handler e)) : Steps P (catchRaised t handler) := by
  induction t with
  | done a => trivial
  | raised e => exact hh e
  | step site f rest failed ihRest ihFailed =>
    obtain ⟨hf, hrest, hfailed⟩ := ht
    exact ⟨hf, fun s => ihRest s (hrest s), ihFailed hfailed⟩

theorem steps_perform {effect : ι → σ → σ} (h : P site (effect site)) (e : ε) :
    Steps P (perform effect site e : Task ι σ ε Unit) :=
  ⟨h, fun _ => trivial, trivial⟩

theorem steps_look (h : P site id) (e : ε) (f : σ → α) : Steps P (look site e f) :=
  ⟨h, fun _ => trivial, trivial⟩

theorem steps_lookOr (h : P site id) (e : ε) (f : σ → Except ε α) :
    Steps P (lookOr site e f) := by
  refine ⟨h, fun s => ?_, trivial⟩
  dsimp only
  cases f s <;> trivial

theorem steps_forEach {f : γ → Task ι σ ε Unit} {xs : List γ} (hf : ∀ x ∈ xs, Steps P (f x)) :
    Steps P (forEach f xs) := by
  induction xs with
  | nil => trivial
  | cons x xs ih =>
    obtain ⟨hx, hxs⟩ := List.forall_mem_cons.1 hf
    exact steps_bind hx fun _ => ih hxs

/-- A task that takes only steps for which `K` always holds. -/
theorem wp_of_steps {fails : ι → Prop} {K : ι → σ → Prop} {s : σ}
    (h : Steps (fun site _ => ∀ s, K site s) t) :
    wp (.alone fails) K (fun _ _ => True) (fun _ _ => True) t s := by
  induction t generalizing s with
  | done a => trivial
  | raised e => trivial
  | step site f rest failed ihRest ihFailed =>
    obtain ⟨hK, hrest, hfailed⟩ := h
    exact wp_alone.2 ⟨hK s, ihRest s (hrest s), fun _ => ihFailed hfailed⟩

/-- A task whose every effect keeps `I` keeps it. -/
theorem wp_of_keeping {fails : ι → Prop} {I : σ → Prop} {s : σ}
    (h : Steps (fun _ f => ∀ s, I s → I (f s)) t) (hs : I s) :
    wp (.alone fails) (fun _ => I) (fun _ => I) (fun _ => I) t s := by
  induction t generalizing s with
  | done a => exact hs
  | raised e => exact hs
  | step site f rest failed ihRest ihFailed =>
    obtain ⟨hf, hrest, hfailed⟩ := h
    exact wp_alone.2 ⟨hs, ihRest s (hrest s) (hf s hs), fun _ => ihFailed hfailed hs⟩

end Steps

/-- **Loops**: an invariant of what the loop has gone through. -/
theorem wp_forEach {c : Weather ι σ} {K : ι → σ → Prop} {E : ε → σ → Prop}
    {f : γ → Task ι σ ε Unit} {I : List γ → σ → Prop} {xs : List γ} {s : σ}
    (hstep : ∀ past x rest, xs = past ++ x :: rest → ∀ s, I past s →
      wp c K (fun _ s' => I (past ++ [x]) s') E (f x) s)
    (h : I [] s) : wp c K (fun _ s' => I xs s') E (forEach f xs) s := by
  suffices hloop : ∀ rest past, xs = past ++ rest → ∀ s, I past s →
      wp c K (fun _ s' => I xs s') E (forEach f rest) s from hloop xs [] rfl s h
  intro rest
  induction rest with
  | nil =>
    intro past hxs s hs
    rw [List.append_nil] at hxs
    subst hxs
    exact hs
  | cons x rest ih =>
    intro past hxs s hs
    apply wp_seq (hstep past x rest hxs s hs)
    intro _ s' hs'
    exact ih (past ++ [x]) (by rw [hxs, List.append_assoc]; rfl) s' hs'

/-- Whatever goes on beside the task: `P` of every step it may take, with the steps it took before,
each with the state it found, and `Q` of what it returns. -/
def Traced (P : List (ι × σ) → ι → (σ → σ) → Prop) (Q : α → List (ι × σ) → Prop) :
    Task ι σ ε α → List (ι × σ) → Prop
  | done a, past => Q a past
  | raised _, _ => True
  | step site f rest failed, past =>
    P past site f ∧ (∀ s, Traced P Q (rest s) (past ++ [(site, s)])) ∧ Traced P Q failed past

section Traced

variable {P : List (ι × σ) → ι → (σ → σ) → Prop} {Q R : α → List (ι × σ) → Prop}
  {t : Task ι σ ε α} {past : List (ι × σ)} {site : ι}

theorem traced_pure {a : α} (h : Q a past) : Traced P Q (pure a : Task ι σ ε α) past := h

theorem traced_mono (h : Traced P R t past) (hQ : ∀ a now, past <+: now → R a now → Q a now) :
    Traced P Q t past := by
  induction t generalizing past with
  | done a => exact hQ a past List.prefix_rfl h
  | raised e => trivial
  | step site f rest failed ihRest ihFailed =>
    obtain ⟨hf, hrest, hfailed⟩ := h
    refine ⟨hf, fun s => ihRest s (hrest s) fun a now hnow => ?_, ihFailed hfailed hQ⟩
    exact hQ a now ((List.prefix_append _ _).trans hnow)

theorem traced_bind {Q : β → List (ι × σ) → Prop} {k : α → Task ι σ ε β}
    (h : Traced P (fun a now => Traced P Q (k a) now) t past) : Traced P Q (t >>= k) past := by
  change Traced P Q (bind t k) past
  induction t generalizing past with
  | done a => exact h
  | raised e => trivial
  | step site f rest failed ihRest ihFailed =>
    obtain ⟨hf, hrest, hfailed⟩ := h
    exact ⟨hf, fun s => ihRest s (hrest s), ihFailed hfailed⟩

/-- What a task returns, and that it took its steps after those before it, carries over to the
next. -/
theorem traced_seq {Q : β → List (ι × σ) → Prop} {k : α → Task ι σ ε β} (h : Traced P R t past)
    (hk : ∀ a now, past <+: now → R a now → Traced P Q (k a) now) :
    Traced P Q (t >>= k) past :=
  traced_bind (traced_mono h hk)

theorem traced_of_steps (h : Steps (fun site f => ∀ past, P past site f) t) :
    Traced P (fun _ _ => True) t past := by
  induction t generalizing past with
  | done a => trivial
  | raised e => trivial
  | step site f rest failed ihRest ihFailed =>
    obtain ⟨hf, hrest, hfailed⟩ := h
    exact ⟨hf past, fun s => ihRest s (hrest s), ihFailed hfailed⟩

theorem traced_look {e : ε} {f : σ → α} (h : P past site id)
    (hQ : ∀ s, Q (f s) (past ++ [(site, s)])) : Traced P Q (look site e f) past :=
  ⟨h, hQ, trivial⟩

theorem traced_lookOr {e : ε} {f : σ → Except ε α} (h : P past site id)
    (hQ : ∀ s a, f s = .ok a → Q a (past ++ [(site, s)])) : Traced P Q (lookOr site e f) past := by
  refine ⟨h, fun s => ?_, trivial⟩
  dsimp only
  cases hf : f s with
  | ok a => exact hQ s a hf
  | error e => trivial

end Traced

/-- A task that only looks leaves a still world alone. -/
theorem wp_still_looks {K : ι → σ → Prop} {E : ε → σ → Prop} {t : Task ι σ ε α} {s : σ}
    (h : Steps (fun _ f => f = id) t) (hK : ∀ site, K site s) (hE : ∀ e, E e s) :
    wp .still K (fun a s' => s' = s ∧ run t s = (.ok a, s)) E t s := by
  induction t with
  | done a => exact ⟨rfl, rfl⟩
  | raised e => exact hE e
  | step site f rest failed ihRest ihFailed =>
    obtain ⟨rfl, hrest, -⟩ := h
    refine ⟨hK site, fun s' hs' => ⟨fun _ => ?_, fun hfails => hfails.elim⟩⟩
    obtain rfl : s' = s := hs'
    exact ihRest s' (hrest s')

theorem wp_look_still {K : ι → σ → Prop} {Q : α → σ → Prop} {E : ε → σ → Prop} {site : ι} {e : ε}
    {f : σ → α} {s : σ} (hK : K site s) (hQ : Q (f s) s) : wp .still K Q E (look site e f) s :=
  wp_alone.2 ⟨hK, hQ, fun hfails => hfails.elim⟩

section Alone

variable {fails : ι → Prop} {K : ι → σ → Prop} {E : ε → σ → Prop} {effect : ι → σ → σ} {site : ι}
  {e : ε} {s : σ}

theorem wp_look_alone {Q : α → σ → Prop} {f : σ → α} :
    wp (.alone fails) K Q E (look site e f) s ↔ K site s ∧ Q (f s) s ∧ (fails site → E e s) :=
  wp_alone

theorem wp_lookOr_alone {Q : α → σ → Prop} {f : σ → Except ε α} (hK : K site s)
    (hok : ∀ a, f s = .ok a → Q a s) (herror : ∀ e', f s = .error e' → E e' s)
    (hfails : fails site → E e s) : wp (.alone fails) K Q E (lookOr site e f) s := by
  refine wp_alone.2 ⟨hK, ?_, hfails⟩
  cases hf : f s with
  | ok a => exact hok a hf
  | error e' => exact herror e' hf

theorem wp_perform_alone {Q : Unit → σ → Prop} :
    wp (.alone fails) K Q E (perform effect site e) s ↔
      K site s ∧ Q () (effect site s) ∧ (fails site → E e s) :=
  wp_alone

end Alone

end Task

section Turns

variable {apply : ξ → σ → σ} {enabled : Option (κ × ι) → ξ → Bool} {task : κ → Task ι σ ε α}
  {effect : ι → σ → σ} {scene : Scene ι σ ε α κ} {t : Turn κ ξ}

/-- `P` holds of the site and the effect of every step of what runs in a scene. -/
def Stepping (P : ι → (σ → σ) → Prop) (scene : Scene ι σ ε α κ) : Prop :=
  ∀ r ∈ scene.running, r.2.Steps P

/-- What runs in a scene consists of commands. -/
abbrev Performing (effect : ι → σ → σ) (scene : Scene ι σ ε α κ) : Prop :=
  Stepping (fun site f => f = effect site) scene

variable {P : ι → (σ → σ) → Prop}

theorem stepping_live {k : κ} {t : Task ι σ ε α} {s : σ} (h : t.Steps P) :
    Stepping P ⟨s, t.live k⟩ := by
  cases t with
  | done a => exact fun r hr => absurd hr (Option.not_mem_none r)
  | raised e => exact fun r hr => absurd hr (Option.not_mem_none r)
  | step site f rest failed =>
    intro r hr
    obtain rfl := Option.mem_some_iff.1 hr
    exact h

theorem stepping_turn (htask : ∀ k, (task k).Steps P) (h : Stepping P scene) :
    Stepping P (turn apply enabled task scene t) := by
  obtain ⟨world, running⟩ := scene
  cases t with
  | event e =>
    rw [turn]
    split
    · exact h
    · exact h
  | start k =>
    cases running with
    | none => exact stepping_live (htask k)
    | some r => exact h
  | resume =>
    rcases running with _ | ⟨k, _ | _ | ⟨site, f, rest, failed⟩⟩
    · exact h
    · exact h
    · exact h
    · exact stepping_live ((h _ rfl).2.1 world)
  | fail =>
    rcases running with _ | ⟨k, _ | _ | ⟨site, f, rest, failed⟩⟩
    · exact h
    · exact h
    · exact h
    · exact stepping_live (h _ rfl).2.2
  | kill => exact fun r hr => absurd hr (Option.not_mem_none r)

theorem stepping_run (htask : ∀ k, (task k).Steps P) (h : Stepping P scene)
    (turns : List (Turn κ ξ)) :
    Stepping P (turns.foldl (turn apply enabled task) scene) := by
  induction turns generalizing scene with
  | nil => exact h
  | cons t rest ih => exact ih (stepping_turn htask h)

/-- **One turn of commands**: but for an event, it leaves the world alone or is the command at a
site, taken where the specification of the running task has `K`. -/
theorem turn_commanded {fails : κ → ι → Prop} {K : κ → ι → σ → Prop} {I : σ → Prop}
    (hone : OneAtATime fails K I scene) (hperforms : Performing effect scene)
    (ht : ∀ e, t ≠ .event e) :
    (turn apply enabled task scene t).world = scene.world ∨
      ∃ k site, K k site scene.world ∧
        (turn apply enabled task scene t).world = effect site scene.world := by
  obtain ⟨world, running⟩ := scene
  cases t with
  | event e => exact absurd rfl (ht e)
  | start k => cases running <;> exact Or.inl rfl
  | resume =>
    rcases running with _ | ⟨k, _ | _ | ⟨site, f, rest, failed⟩⟩
    · exact Or.inl rfl
    · exact Or.inl rfl
    · exact Or.inl rfl
    · refine Or.inr ⟨k, site, (Task.wp_alone.1 hone).1, ?_⟩
      exact congrFun (hperforms _ rfl).1 world
  | fail => rcases running with _ | ⟨k, _ | _ | ⟨site, f, rest, failed⟩⟩ <;> exact Or.inl rfl
  | kill => exact Or.inl rfl

/-- A turn, and the steps that what runs after it has taken, each with the state it found. -/
def tracedTurn (apply : ξ → σ → σ) (enabled : Option (κ × ι) → ξ → Bool)
    (task : κ → Task ι σ ε α) (p : Scene ι σ ε α κ × List (ι × σ)) (t : Turn κ ξ) :
    Scene ι σ ε α κ × List (ι × σ) :=
  (turn apply enabled task p.1 t,
    match t, p.1.running with
    | .start _, none => []
    | .resume, some (_, .step site _ _ _) => p.2 ++ [(site, p.1.world)]
    | _, _ => p.2)

theorem tracedTurn_scene (p : Scene ι σ ε α κ × List (ι × σ)) (turns : List (Turn κ ξ)) :
    (turns.foldl (tracedTurn apply enabled task) p).1 =
      turns.foldl (turn apply enabled task) p.1 := by
  induction turns generalizing p with
  | nil => rfl
  | cons t rest ih => exact ih _

section Tracing

variable {P : List (ι × σ) → ι → (σ → σ) → Prop} {p : Scene ι σ ε α κ × List (ι × σ)}

/-- `P` holds of every step that what runs may take, after those it has taken. -/
def Tracing (P : List (ι × σ) → ι → (σ → σ) → Prop) (p : Scene ι σ ε α κ × List (ι × σ)) : Prop :=
  ∀ r ∈ p.1.running, r.2.Traced P (fun _ _ => True) p.2

theorem tracing_live {k : κ} {t : Task ι σ ε α} {s : σ} {past : List (ι × σ)}
    (h : t.Traced P (fun _ _ => True) past) : Tracing P (⟨s, t.live k⟩, past) := by
  cases t with
  | done a => exact fun r hr => absurd hr (Option.not_mem_none r)
  | raised e => exact fun r hr => absurd hr (Option.not_mem_none r)
  | step site f rest failed =>
    intro r hr
    obtain rfl := Option.mem_some_iff.1 hr
    exact h

theorem tracing_turn (htask : ∀ k, (task k).Traced P (fun _ _ => True) []) (h : Tracing P p) :
    Tracing P (tracedTurn apply enabled task p t) := by
  obtain ⟨⟨world, running⟩, past⟩ := p
  cases t with
  | event e =>
    unfold tracedTurn
    rw [turn]
    split
    · exact h
    · exact h
  | start k =>
    cases running with
    | none => exact tracing_live (htask k)
    | some r => exact h
  | resume =>
    rcases running with _ | ⟨k, _ | _ | ⟨site, f, rest, failed⟩⟩
    · exact h
    · exact h
    · exact h
    · exact tracing_live ((h _ rfl).2.1 world)
  | fail =>
    rcases running with _ | ⟨k, _ | _ | ⟨site, f, rest, failed⟩⟩
    · exact h
    · exact h
    · exact h
    · exact tracing_live (h _ rfl).2.2
  | kill => exact fun r hr => absurd hr (Option.not_mem_none r)

theorem tracing_run (htask : ∀ k, (task k).Traced P (fun _ _ => True) []) (h : Tracing P p)
    (turns : List (Turn κ ξ)) :
    Tracing P (turns.foldl (tracedTurn apply enabled task) p) := by
  induction turns generalizing p with
  | nil => exact h
  | cons t rest ih => exact ih (tracing_turn htask h)

/-- **One turn after a trace**: but for an event, it leaves the world alone or is a step of which
`P` holds after those that were taken, whatever the world became since. -/
theorem turn_traced (h : Tracing P p) (ht : ∀ e, t ≠ .event e) :
    (turn apply enabled task p.1 t).world = p.1.world ∨
      ∃ site f, P p.2 site f ∧ (turn apply enabled task p.1 t).world = f p.1.world := by
  obtain ⟨⟨world, running⟩, past⟩ := p
  cases t with
  | event e => exact absurd rfl (ht e)
  | start k => cases running <;> exact Or.inl rfl
  | resume =>
    rcases running with _ | ⟨k, _ | _ | ⟨site, f, rest, failed⟩⟩
    · exact Or.inl rfl
    · exact Or.inl rfl
    · exact Or.inl rfl
    · exact Or.inr ⟨site, f, (h _ rfl).1, rfl⟩
  | fail => rcases running with _ | ⟨k, _ | _ | ⟨site, f, rest, failed⟩⟩ <;> exact Or.inl rfl
  | kill => exact Or.inl rfl

end Tracing

/-- **A run** of tasks one at a time whose turns meet `P`; the tasks that `P` allows to start keep
`I` before each of their steps, and the events that it allows keep it too. -/
theorem oneAtATime_along {fails : κ → ι → Prop} {I : σ → Prop}
    {P : Scene ι σ ε α κ → Turn κ ξ → Prop}
    (htask : ∀ scene k, P scene (.start k) → ∀ s, I s →
      Task.wp (.alone (fails k)) (fun _ => I) (fun _ => I) (fun _ => I) (task k) s)
    (hidle : ∀ e k site, enabled (some (k, site)) e = false)
    (hevent : ∀ scene e, P scene (.event e) → ∀ s, I s → I (apply e s))
    (hfails : ∀ k site, fails k site) {turns : List (Turn κ ξ)}
    (hrun : Along (turn apply enabled task) P scene turns)
    (h : OneAtATime fails (fun _ _ => I) I scene) :
    OneAtATime fails (fun _ _ => I) I (turns.foldl (turn apply enabled task) scene) := by
  induction turns generalizing scene with
  | nil => exact h
  | cons t rest ih =>
    obtain ⟨ht, hrest⟩ := hrun
    apply ih hrest
    apply oneAtATime_turn ?_ ?_ ?_ ?_ ?_ h
    · intro k hk
      subst hk
      exact htask scene k ht
    · intro e k site _
      exact hidle e k site
    · intro e he
      subst he
      exact hevent scene e ht scene.world
    · intro _ k site _
      exact hfails k site
    · intro _ k site _ hK
      exact hK

/-- What holds between tasks and before each of their steps holds of every world. -/
theorem OneAtATime.world {fails : κ → ι → Prop} {I : σ → Prop}
    (h : OneAtATime fails (fun _ _ => I) I scene) : I scene.world := by
  obtain ⟨world, running⟩ := scene
  rcases running with _ | ⟨k, _ | _ | ⟨site, f, rest, failed⟩⟩
  · exact h
  · exact h
  · exact h
  · have hwp : Task.wp (.alone (fails k)) (fun _ => I) (fun _ => I) (fun _ => I)
        (.step site f rest failed) world := h
    exact (Task.wp_alone.1 hwp).1

end Turns

/-- What the actions have in every state, they have along a run. -/
theorem Along.of_forall {next : σ → α → σ} {P : σ → α → Prop} {s : σ} {actions : List α}
    (h : ∀ a ∈ actions, ∀ s, P s a) : Along next P s actions := by
  induction actions generalizing s with
  | nil => trivial
  | cons a rest ih =>
    obtain ⟨ha, hrest⟩ := List.forall_mem_cons.1 h
    exact ⟨ha s, ih hrest⟩

end Coppermind.Lib
