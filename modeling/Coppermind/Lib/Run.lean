/-!
# Runs of a step function

A system takes one action after another; `step` is none where an action is not enabled.  `exec`
runs a list of actions, and an invariant of single steps is one of runs.
-/

namespace Coppermind.Lib

variable {σ α : Type} (step : σ → α → Option σ)

/-- The state a run of actions leads to, if every action was enabled. -/
def exec (s : σ) : List α → Option σ
  | [] => some s
  | a :: rest => (step s a).bind fun s' => exec s' rest

variable {step} {s s' s'' : σ} {a : α} {before rest : List α}

@[simp] theorem exec_nil : exec step s [] = some s := rfl

theorem exec_cons_eq_some :
    exec step s (a :: rest) = some s'' ↔ ∃ s', step s a = some s' ∧ exec step s' rest = some s'' := by
  simp only [exec, Option.bind_eq_some_iff]

theorem exec_append_eq_some :
    exec step s (before ++ rest) = some s'' ↔
      ∃ s', exec step s before = some s' ∧ exec step s' rest = some s'' := by
  induction before generalizing s with
  | nil => simp
  | cons a before ih =>
    simp only [List.cons_append, exec_cons_eq_some, ih]
    constructor
    · rintro ⟨s₁, h₁, s₂, h₂, h⟩
      exact ⟨s₂, ⟨s₁, h₁, h₂⟩, h⟩
    · rintro ⟨s₂, ⟨s₁, h₁, h₂⟩, h⟩
      exact ⟨s₁, h₁, s₂, h₂, h⟩

/-- **Invariance**: what every enabled action preserves, every run preserves. -/
theorem exec_invariant {P : σ → Prop} (hstep : ∀ s a s', P s → step s a = some s' → P s')
    (hs : P s) (h : exec step s rest = some s') : P s' := by
  induction rest generalizing s with
  | nil =>
    obtain rfl : s = s' := by simpa using h
    exact hs
  | cons a rest ih =>
    obtain ⟨s₁, h₁, h⟩ := exec_cons_eq_some.1 h
    exact ih (hstep s a s₁ hs h₁) h

/-- `P` holds of every action of a run, at the state the run takes it in. -/
def Along (next : σ → α → σ) (P : σ → α → Prop) : σ → List α → Prop
  | _, [] => True
  | s, a :: rest => P s a ∧ Along next P (next s a) rest

instance decidableAlong {next : σ → α → σ} {P : σ → α → Prop} [∀ s a, Decidable (P s a)] :
    (s : σ) → (actions : List α) → Decidable (Along next P s actions)
  | _, [] => .isTrue trivial
  | s, a :: rest =>
    @instDecidableAnd _ _ _ (decidableAlong (next s a) rest)

/-- **Runs, step by step**: what an action meeting `P` has in a state of the invariant `I`, every
action of a run meeting `P` has. -/
theorem Along.imp {next : σ → α → σ} {I : σ → Prop} {P Q : σ → α → Prop} {actions : List α}
    (hnext : ∀ s a, I s → P s a → I (next s a)) (hstep : ∀ s a, I s → P s a → Q s a) (hs : I s)
    (h : Along next P s actions) : Along next Q s actions := by
  induction actions generalizing s with
  | nil => trivial
  | cons a rest ih => exact ⟨hstep s a hs h.1, ih (hnext s a hs h.1) h.2⟩

/-- **Invariance along a run**: what the actions meeting `P` preserve, a run meeting `P` does. -/
theorem Along.foldl_invariant {next : σ → α → σ} {I : σ → Prop} {P : σ → α → Prop}
    {actions : List α} (hstep : ∀ s a, I s → P s a → I (next s a)) (hs : I s)
    (h : Along next P s actions) : I (actions.foldl next s) := by
  induction actions generalizing s with
  | nil => exact hs
  | cons a rest ih => exact ih (hstep s a hs h.1) h.2

/-- **Folds that may raise**: what every item preserves where it does not raise, the fold does. -/
theorem foldlM_invariant {ε : Type} {f : σ → α → Except ε σ} {P : σ → Prop}
    (hstep : ∀ s a s', P s → f s a = .ok s' → P s') (hs : P s) (h : rest.foldlM f s = .ok s') :
    P s' := by
  induction rest generalizing s with
  | nil =>
    obtain rfl := Except.ok.inj h
    exact hs
  | cons a rest ih =>
    rw [List.foldlM_cons] at h
    cases hf : f s a with
    | error e =>
      rw [hf] at h
      cases h
    | ok s₁ =>
      rw [hf] at h
      exact ih (hstep s a s₁ hs hf) h

end Coppermind.Lib
