import Mathlib.Data.List.Forall2

/-!
# Programs that change a state and may raise

A program is an `EStateM ε σ α`: it runs in a state, and whether it returns or raises, the
state it leaves behind stays.  `wp x Q E s` says of a run of `x` from `s` that it returns
with `Q` or raises with `E`; the rules compute it through sequencing, `finally` clauses,
handlers and transactions, so that one specification of each operation is enough for its
callers.  `Frame f x` is the special case that `x` leaves the part `f` of the state alone, and
`Calms x y` says that `y` does what `x` does wherever `x` returns.
-/

namespace Coppermind.Lib

variable {σ ε α β γ : Type}

/-- `x` run from `s` returns `a` with `Q a`, or raises `e` with `E e`. -/
def wp (x : EStateM ε σ α) (Q : α → σ → Prop) (E : ε → σ → Prop) (s : σ) : Prop :=
  match x s with
  | .ok a s' => Q a s'
  | .error e s' => E e s'

/-- The state a run leaves behind, returned or raised. -/
def finalState : EStateM.Result ε σ α → σ
  | .ok _ s => s
  | .error _ s => s

def returned : EStateM.Result ε σ α → Bool
  | .ok _ _ => true
  | .error _ _ => false

theorem exists_of_returned {r : EStateM.Result ε σ α} (h : returned r = true) :
    ∃ a s, r = .ok a s := by
  cases r with
  | ok a s => exact ⟨a, s, rfl⟩
  | error => cases h

/-- `raise e`, where `failing`. -/
def raiseIf (failing : Bool) (e : ε) : EStateM ε σ Unit :=
  if failing then throw e else pure ()

/-- A `finally` clause that only acts when the body did not complete. -/
def onRaise (x : EStateM ε σ α) (undo : σ → σ) : EStateM ε σ α := fun s =>
  match x s with
  | .ok a s' => .ok a s'
  | .error e s' => .error e (undo s')

/-- A `finally` clause that only acts when the body did not complete, and may raise itself. -/
def onRaiseRun (x : EStateM ε σ α) (undo : EStateM ε σ Unit) : EStateM ε σ α := fun s =>
  match x s with
  | .ok a s' => .ok a s'
  | .error e s' =>
    match undo s' with
    | .ok _ s'' => .error e s''
    | .error e' s'' => .error e' s''

/-- `except … as exc: raise … from exc`. -/
def mapRaised (f : ε → ε) (x : EStateM ε σ α) : EStateM ε σ α := fun s =>
  match x s with
  | .ok a s' => .ok a s'
  | .error e s' => .error (f e) s'

/-- A transaction over the part of the state that `rollback before after` restores: a body
that raises and a commit that fails both roll back. -/
def transaction (rollback : σ → σ → σ) (commit : EStateM ε σ Unit) (x : EStateM ε σ α) :
    EStateM ε σ α := fun s =>
  match x s with
  | .error e s' => .error e (rollback s s')
  | .ok a s' =>
    match commit s' with
    | .error e s'' => .error e (rollback s s'')
    | .ok _ s'' => .ok a s''

section Rules

variable {x : EStateM ε σ α} {Q Q' : α → σ → Prop} {E E' : ε → σ → Prop} {s : σ}

@[simp] theorem wp_pure (a : α) : wp (pure a : EStateM ε σ α) Q E s ↔ Q a s := Iff.rfl

@[simp] theorem wp_throw (e : ε) : wp (throw e : EStateM ε σ α) Q E s ↔ E e s := Iff.rfl

@[simp] theorem wp_get {Q : σ → σ → Prop} : wp (get : EStateM ε σ σ) Q E s ↔ Q s s := Iff.rfl

@[simp] theorem wp_set {Q : PUnit → σ → Prop} (s' : σ) :
    wp (set s' : EStateM ε σ PUnit) Q E s ↔ Q ⟨⟩ s' := Iff.rfl

@[simp] theorem wp_modify {Q : PUnit → σ → Prop} (f : σ → σ) :
    wp (modify f : EStateM ε σ PUnit) Q E s ↔ Q ⟨⟩ (f s) := Iff.rfl

@[simp] theorem wp_bind {Q : β → σ → Prop} (f : α → EStateM ε σ β) :
    wp (x >>= f) Q E s ↔ wp x (fun a s' => wp (f a) Q E s') E s := by
  show wp (EStateM.bind x f) Q E s ↔ _
  unfold wp EStateM.bind
  cases x s <;> rfl

@[simp] theorem wp_map {Q : β → σ → Prop} (f : α → β) :
    wp (f <$> x) Q E s ↔ wp x (fun a s' => Q (f a) s') E s := by
  show wp (EStateM.map f x) Q E s ↔ _
  unfold wp EStateM.map
  cases x s <;> rfl

@[simp] theorem wp_raiseIf {Q : Unit → σ → Prop} (failing : Bool) (e : ε) :
    wp (raiseIf failing e) Q E s ↔ if failing = true then E e s else Q () s := by
  cases failing <;> rfl

@[simp] theorem wp_onRaise (undo : σ → σ) :
    wp (onRaise x undo) Q E s ↔ wp x Q (fun e s' => E e (undo s')) s := by
  unfold wp onRaise
  cases x s <;> rfl

@[simp] theorem wp_onRaiseRun (undo : EStateM ε σ Unit) :
    wp (onRaiseRun x undo) Q E s ↔ wp x Q (fun e s' => wp undo (fun _ s'' => E e s'') E s') s := by
  unfold wp onRaiseRun
  cases x s with
  | ok a s' => rfl
  | error e s' =>
    dsimp only
    cases undo s' <;> rfl

@[simp] theorem wp_mapRaised (f : ε → ε) :
    wp (mapRaised f x) Q E s ↔ wp x Q (fun e s' => E (f e) s') s := by
  unfold wp mapRaised
  cases x s <;> rfl

@[simp] theorem wp_transaction (rollback : σ → σ → σ) (commit : EStateM ε σ Unit) :
    wp (transaction rollback commit x) Q E s ↔
      wp x (fun a s' => wp commit (fun _ s'' => Q a s'') (fun e s'' => E e (rollback s s'')) s')
        (fun e s' => E e (rollback s s')) s := by
  unfold wp transaction
  cases x s with
  | error e s' => rfl
  | ok a s' =>
    dsimp only
    cases commit s' <;> rfl

/-- **Consequence**: the postconditions of a run may be weakened. -/
theorem wp_mono (h : wp x Q E s) (hQ : ∀ a s', Q a s' → Q' a s')
    (hE : ∀ e s', E e s' → E' e s') : wp x Q' E' s := by
  unfold wp at h ⊢
  cases hx : x s with
  | ok a s' => exact hQ a s' (by simpa [hx] using h)
  | error e s' => exact hE e s' (by simpa [hx] using h)

theorem wp_and (h : wp x Q E s) (h' : wp x Q' E' s) :
    wp x (fun a s' => Q a s' ∧ Q' a s') (fun e s' => E e s' ∧ E' e s') s := by
  unfold wp at h h' ⊢
  cases hx : x s with
  | ok a s' => exact ⟨by simpa [hx] using h, by simpa [hx] using h'⟩
  | error e s' => exact ⟨by simpa [hx] using h, by simpa [hx] using h'⟩

theorem wp_final {P : σ → Prop} (h : wp x (fun _ s' => P s') (fun _ s' => P s') s) :
    P (finalState (x s)) := by
  unfold wp at h
  cases hx : x s <;> simpa [hx, finalState] using h

theorem wp_of_eq {s' : σ} (hs : s = s') (h : wp x Q E s') : wp x Q E s := by
  rwa [hs]

theorem wp_if_pos {p : Prop} [Decidable p] {y : EStateM ε σ α} (hp : p) (h : wp x Q E s) :
    wp (if p then x else y) Q E s := by
  rwa [if_pos hp]

theorem wp_if_neg {p : Prop} [Decidable p] {y : EStateM ε σ α} (hp : ¬ p) (h : wp y Q E s) :
    wp (if p then x else y) Q E s := by
  rwa [if_neg hp]

/-- What a run is known to end in, it ends in. -/
theorem wp_run : wp x (fun a s' => x s = .ok a s') (fun e s' => x s = .error e s') s := by
  unfold wp
  cases x s <;> rfl

theorem wp_ok {a : α} {s' : σ} (h : wp x Q E s) (hx : x s = .ok a s') : Q a s' := by
  unfold wp at h
  simpa [hx] using h

theorem wp_error {e : ε} {s' : σ} (h : wp x Q E s) (hx : x s = .error e s') : E e s' := by
  unfold wp at h
  simpa [hx] using h

/-- A run that cannot raise returns. -/
theorem wp_returns (h : wp x Q (fun _ _ => False) s) : ∃ a s', x s = .ok a s' ∧ Q a s' := by
  unfold wp at h
  cases hx : x s with
  | ok a s' => exact ⟨a, s', rfl, by simpa [hx] using h⟩
  | error e s' => simp [hx] at h

end Rules

/-- Where `x` returns, so does `y`, with the same answer and the same state. -/
structure Calms (x y : EStateM ε σ α) : Prop where
  run : ∀ s a s', x s = .ok a s' → y s = .ok a s'

section Calms

variable {x y : EStateM ε σ α}

theorem calms_refl (x : EStateM ε σ α) : Calms x x := ⟨fun _ _ _ h => h⟩

/-- What never returns is calmed by anything. -/
theorem calms_of_raises (h : ∀ s, wp x (fun _ _ => False) (fun _ _ => True) s) : Calms x y :=
  ⟨fun s _ _ hx => (wp_ok (h s) hx).elim⟩

theorem bind_eq_ok {f : α → EStateM ε σ β} {s s'' : σ} {b : β} :
    (x >>= f) s = .ok b s'' ↔ ∃ a s', x s = .ok a s' ∧ f a s' = .ok b s'' := by
  change EStateM.bind x f s = _ ↔ _
  unfold EStateM.bind
  cases x s with
  | ok a s' => simp
  | error e s' => simp

theorem calms_bind {f g : α → EStateM ε σ β} (hx : Calms x y) (hf : ∀ a, Calms (f a) (g a)) :
    Calms (x >>= f) (y >>= g) := by
  constructor
  intro s b s'' h
  obtain ⟨a, s', hxa, hfb⟩ := bind_eq_ok.1 h
  exact bind_eq_ok.2 ⟨a, s', hx.run _ _ _ hxa, (hf a).run _ _ _ hfb⟩

theorem calms_mapRaised {f : ε → ε} (hx : Calms x y) : Calms (mapRaised f x) (mapRaised f y) := by
  constructor
  intro s a s' h
  unfold mapRaised at h ⊢
  cases hr : x s with
  | ok b t =>
    rw [hr] at h
    rw [hx.run _ _ _ hr]
    exact h
  | error e t =>
    rw [hr] at h
    cases h

theorem calms_onRaiseRun {undo undo' : EStateM ε σ Unit} (hx : Calms x y) :
    Calms (onRaiseRun x undo) (onRaiseRun y undo') := by
  constructor
  intro s a s' h
  unfold onRaiseRun at h ⊢
  cases hr : x s with
  | ok b t =>
    rw [hr] at h
    rw [hx.run _ _ _ hr]
    exact h
  | error e t =>
    simp only [hr] at h
    cases hu : undo t <;> simp [hu] at h

end Calms

/-- `x` leaves the part `f` of the state as it is, whether it returns or raises. -/
structure Frame (f : σ → γ) (x : EStateM ε σ α) : Prop where
  run : ∀ s, wp x (fun _ s' => f s' = f s) (fun _ s' => f s' = f s) s

section Frame

variable {f : σ → γ} {x : EStateM ε σ α}

theorem frame_pure (a : α) : Frame f (pure a : EStateM ε σ α) := ⟨fun _ => rfl⟩

theorem frame_throw (e : ε) : Frame f (throw e : EStateM ε σ α) := ⟨fun _ => rfl⟩

theorem frame_get : Frame f (get : EStateM ε σ σ) := ⟨fun _ => rfl⟩

theorem frame_raiseIf (failing : Bool) (e : ε) :
    Frame f (raiseIf failing e : EStateM ε σ Unit) := by
  constructor
  intro s
  cases failing <;> rfl

theorem frame_modify {g : σ → σ} (h : ∀ s, f (g s) = f s) :
    Frame f (modify g : EStateM ε σ PUnit) := ⟨fun s => h s⟩

/-- A framed program may be run in the middle of another: what is known of the part `f`
still holds after it. -/
theorem Frame.wp {s : σ} (hx : Frame f x) {Q : α → σ → Prop} {E : ε → σ → Prop}
    (hQ : ∀ a s', f s' = f s → Q a s') (hE : ∀ e s', f s' = f s → E e s') :
    Lib.wp x Q E s :=
  wp_mono (hx.run s) hQ hE

theorem frame_bind {g : α → EStateM ε σ β} (hx : Frame f x) (hg : ∀ a, Frame f (g a)) :
    Frame f (x >>= g) := by
  constructor
  intro s
  rw [wp_bind]
  exact hx.wp
    (fun a s' h => (hg a).wp (fun _ _ h' => h'.trans h) (fun _ _ h' => h'.trans h))
    (fun _ _ h => h)

theorem frame_mapRaised {r : ε → ε} (hx : Frame f x) : Frame f (mapRaised r x) := by
  constructor
  intro s
  rw [wp_mapRaised]
  exact hx.run s

theorem frame_onRaise {undo : σ → σ} (hx : Frame f x) (hu : ∀ s, f (undo s) = f s) :
    Frame f (onRaise x undo) := by
  constructor
  intro s
  rw [wp_onRaise]
  exact hx.wp (fun _ _ h => h) (fun _ s' h => (hu s').trans h)

theorem frame_ite {p : Prop} [Decidable p] {y : EStateM ε σ α} (hx : Frame f x)
    (hy : Frame f y) : Frame f (if p then x else y) := by
  by_cases h : p
  · rwa [if_pos h]
  · rwa [if_neg h]

end Frame

section Except

theorem forall₂_mem_left {R : α → β → Prop} {xs : List α} {ys : List β} (h : List.Forall₂ R xs ys)
    {x : α} (hx : x ∈ xs) : ∃ y ∈ ys, R x y := by
  induction h with
  | nil => cases hx
  | cons hxy _ ih =>
    rcases List.mem_cons.1 hx with rfl | hx
    · exact ⟨_, List.mem_cons_self, hxy⟩
    · obtain ⟨y, hy, hr⟩ := ih hx
      exact ⟨y, List.mem_cons_of_mem _ hy, hr⟩

/-- A list is mapped when each of its elements is. -/
theorem mapM_eq_ok {f : α → Except ε β} {xs : List α} {ys : List β} :
    xs.mapM f = .ok ys ↔ List.Forall₂ (fun x y => f x = .ok y) xs ys := by
  induction xs generalizing ys with
  | nil =>
    rw [List.mapM_nil, List.forall₂_nil_left_iff]
    exact ⟨fun h => (Except.ok.inj h).symm, fun h => congrArg Except.ok h.symm⟩
  | cons x xs ih =>
    rw [List.mapM_cons, List.forall₂_cons_left_iff]
    cases hx : f x with
    | error e =>
      constructor
      · intro h
        cases h
      · rintro ⟨y, ys', hy, -, -⟩
        cases hy
    | ok y =>
      cases hxs : xs.mapM f with
      | error e =>
        constructor
        · intro h
          cases h
        · rintro ⟨y', ys', -, hys', -⟩
          rw [ih.2 hys'] at hxs
          cases hxs
      | ok ys' =>
        change Except.ok (y :: ys') = .ok ys ↔ _
        constructor
        · intro h
          exact ⟨y, ys', rfl, ih.1 hxs, (Except.ok.inj h).symm⟩
        · rintro ⟨y', ys'', hy, hys'', rfl⟩
          obtain rfl := Except.ok.inj hy
          obtain rfl := Except.ok.inj ((ih.2 hys'').symm.trans hxs)
          rfl

end Except

end Coppermind.Lib
