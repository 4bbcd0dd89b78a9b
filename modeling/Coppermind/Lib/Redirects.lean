import Mathlib.Data.List.Perm.Subperm
import Mathlib.Data.Set.Basic
import Mathlib.Logic.Function.Basic

/-!
# Redirects

Elements that may redirect to another one. `Ends` says that following the redirects from an element
comes to one that redirects nowhere. Pointing such a root at another root keeps that of every
element, and so does dropping redirects. Where the elements on the way are among finitely many, as
many steps are enough.

Pairs of roots may also be pointed one after another without a look at what the earlier ones did;
what the first of a pair has then comes to the second. `Settles` says of the pairs that this leaves
every way finite and brings nothing to two roots.
-/

namespace Coppermind.Lib.Redirects

variable {κ : Type}

/-- Following the redirects from `x` ends. -/
inductive Ends (next : κ → Option κ) : κ → Prop
  | root {x : κ} : next x = none → Ends next x
  | step {x y : κ} : next x = some y → Ends next y → Ends next x

/-- The elements from `x` to where its redirects end. -/
inductive Path (next : κ → Option κ) : κ → List κ → Prop
  | root {x : κ} : next x = none → Path next x [x]
  | step {x y : κ} {path : List κ} : next x = some y → Path next y path → Path next x (x :: path)

/-- Where the redirects end, found in at most `fuel` steps. -/
def follow (next : κ → Option κ) : Nat → κ → Option κ
  | 0, _ => none
  | fuel + 1, x =>
    match next x with
    | none => some x
    | some y => follow next fuel y

variable {next next' : κ → Option κ} {x y : κ} {path : List κ}

theorem Ends.exists_path (h : Ends next x) : ∃ path, Path next x path := by
  induction h with
  | root hx => exact ⟨_, .root hx⟩
  | step hx _ ih =>
    obtain ⟨path, hpath⟩ := ih
    exact ⟨_, .step hx hpath⟩

/-- There is one way to follow the redirects. -/
theorem Path.unique {path' : List κ} (h : Path next x path) (h' : Path next x path') :
    path = path' := by
  induction h generalizing path' with
  | root hx =>
    cases h' with
    | root _ => rfl
    | step hx' _ =>
      rw [hx] at hx'
      cases hx'
  | step hx _ ih =>
    cases h' with
    | root hx' =>
      rw [hx'] at hx
      cases hx
    | step hx' hpath =>
      obtain rfl := Option.some.inj (hx.symm.trans hx')
      rw [ih hpath]

/-- From an element on the way, the rest of the way is followed. -/
theorem Path.of_mem (h : Path next x path) (hy : y ∈ path) :
    ∃ rest, Path next y rest ∧ rest.length ≤ path.length := by
  induction h with
  | root hx =>
    obtain rfl := List.mem_singleton.1 hy
    exact ⟨_, .root hx, Nat.le_refl _⟩
  | step hx hpath ih =>
    obtain rfl | hy := List.mem_cons.1 hy
    · exact ⟨_, .step hx hpath, Nat.le_refl _⟩
    · obtain ⟨rest, hrest, hle⟩ := ih hy
      exact ⟨rest, hrest, Nat.le_succ_of_le hle⟩

/-- No element comes twice on the way. -/
theorem Path.nodup (h : Path next x path) : path.Nodup := by
  induction h with
  | root _ => exact List.nodup_cons.2 ⟨List.not_mem_nil, List.nodup_nil⟩
  | @step x y path hx hpath ih =>
    refine List.nodup_cons.2 ⟨fun hmem => ?_, ih⟩
    obtain ⟨rest, hrest, hle⟩ := hpath.of_mem hmem
    rw [hrest.unique (.step hx hpath), List.length_cons] at hle
    exact Nat.not_succ_le_self _ hle

theorem Path.mem_of_named {known : List κ} (hnamed : ∀ z w, next z = some w → w ∈ known)
    (h : Path next x path) (hx : x ∈ known) : ∀ z ∈ path, z ∈ known := by
  induction h with
  | root _ =>
    intro z hz
    rwa [List.mem_singleton.1 hz]
  | step hstep _ ih =>
    intro z hz
    obtain rfl | hz := List.mem_cons.1 hz
    · exact hx
    · exact ih (hnamed _ _ hstep) z hz

theorem Path.follow (h : Path next x path) :
    ∀ fuel, path.length ≤ fuel → ∃ y, Redirects.follow next fuel x = some y ∧ next y = none := by
  induction h with
  | root hx =>
    intro fuel hfuel
    obtain ⟨fuel, rfl⟩ := Nat.exists_eq_add_of_le' hfuel
    refine ⟨_, ?_, hx⟩
    simp only [List.length_singleton, Redirects.follow, hx]
  | step hx _ ih =>
    intro fuel hfuel
    rw [List.length_cons] at hfuel
    obtain ⟨fuel, rfl⟩ : ∃ n, fuel = n + 1 := ⟨fuel - 1, by omega⟩
    obtain ⟨y, hy, hroot⟩ := ih fuel (by omega)
    refine ⟨y, ?_, hroot⟩
    simp only [Redirects.follow, hx, hy]

/-- **Finitely many elements**: as many steps follow a redirect to its end. -/
theorem Ends.follow {known : List κ} (h : Ends next x)
    (hnamed : ∀ z w, next z = some w → w ∈ known) (hx : x ∈ known) {fuel : Nat}
    (hfuel : known.length ≤ fuel) :
    ∃ y, Redirects.follow next fuel x = some y ∧ next y = none := by
  obtain ⟨path, hpath⟩ := h.exists_path
  apply hpath.follow
  have hsub := List.subperm_of_subset hpath.nodup (hpath.mem_of_named hnamed hx)
  exact Nat.le_trans hsub.length_le hfuel

/-- **Dropping redirects** keeps every way finite. -/
theorem Ends.of_fewer (h : Ends next x) (hfewer : ∀ z, next' z = none ∨ next' z = next z) :
    Ends next' x := by
  induction h with
  | @root x hx =>
    obtain hnone | hsame := hfewer x
    · exact .root hnone
    · exact .root (hsame.trans hx)
  | @step x y hx _ ih =>
    obtain hnone | hsame := hfewer x
    · exact .root hnone
    · exact .step (hsame.trans hx) ih

/-- **Pointing one root at another** keeps every way finite. -/
theorem Ends.redirect [DecidableEq κ] {e t : κ} (h : Ends next x) (he : next e = none)
    (ht : next t = none) (hne : t ≠ e) : Ends (Function.update next e (some t)) x := by
  have hroot : Ends (Function.update next e (some t)) t :=
    .root (by rw [Function.update_of_ne hne, ht])
  induction h with
  | @root x hx =>
    by_cases hxe : x = e
    · subst hxe
      exact .step (Function.update_self _ _ _) hroot
    · exact .root (by rw [Function.update_of_ne hxe, hx])
  | @step x y hx _ ih =>
    have hxe : x ≠ e := by
      rintro rfl
      rw [he] at hx
      cases hx
    exact .step (by rw [Function.update_of_ne hxe, hx]) ih

/-- What is followed to an end ends. -/
theorem Ends.of_follow {fuel : Nat} (h : Redirects.follow next fuel x = some y) : Ends next x := by
  induction fuel generalizing x with
  | zero => cases h
  | succ fuel ih =>
    rw [Redirects.follow] at h
    cases hx : next x with
    | none => exact .root hx
    | some z =>
      rw [hx] at h
      exact .step hx (ih h)

section Pointing

variable [DecidableEq κ] {α : Type}

/-- Pairs pointed one after another: an element redirects to the last one it was paired with. -/
def point (next : κ → Option κ) (pairs : List (κ × κ)) : κ → Option κ :=
  pairs.foldl (fun next pair => Function.update next pair.1 (some pair.2)) next

/-- What the elements have, where each pair hands what its first one has to its second. -/
def hand (has : κ → Set α) (pairs : List (κ × κ)) : κ → Set α :=
  pairs.foldl (fun has pair => Function.update has pair.2 (has pair.2 ∪ has pair.1)) has

/-- What `x` has at first, `y` has after the pairs. -/
def reaches : List (κ × κ) → κ → κ → Bool
  | [], x, y => x = y
  | (e, t) :: pairs, x, y => reaches pairs x y || (x = e && reaches pairs t y)

/-- The elements that a pair points elsewhere. -/
def sources (pairs : List (κ × κ)) : List κ := pairs.map (·.1)

/-- The pairs leave every way finite, and what an element has comes to one root only. -/
structure Settles (pairs : List (κ × κ)) : Prop where
  ends : ∀ p ∈ pairs, (follow (point (fun _ => none) pairs) (pairs.length + 1) p.1).isSome
  single : ∀ p ∈ pairs, ∀ q ∈ pairs, ∀ r ∈ pairs, q.2 ∉ sources pairs → r.2 ∉ sources pairs →
    reaches pairs p.1 q.2 → reaches pairs p.1 r.2 → q.2 = r.2

instance (pairs : List (κ × κ)) : Decidable (Settles pairs) :=
  decidable_of_iff
    ((∀ p ∈ pairs, (follow (point (fun _ => none) pairs) (pairs.length + 1) p.1).isSome) ∧
      ∀ p ∈ pairs, ∀ q ∈ pairs, ∀ r ∈ pairs, q.2 ∉ sources pairs → r.2 ∉ sources pairs →
        reaches pairs p.1 q.2 → reaches pairs p.1 r.2 → q.2 = r.2)
    ⟨fun h => ⟨h.1, h.2⟩, fun h => ⟨h.1, h.2⟩⟩

variable {pairs : List (κ × κ)}

theorem point_cons (next : κ → Option κ) (p : κ × κ) :
    point next (p :: pairs) = point (Function.update next p.1 (some p.2)) pairs := rfl

theorem hand_cons (has : κ → Set α) (p : κ × κ) :
    hand has (p :: pairs) = hand (Function.update has p.2 (has p.2 ∪ has p.1)) pairs := rfl

theorem point_of_not_mem (h : x ∉ sources pairs) : point next pairs x = next x := by
  induction pairs generalizing next with
  | nil => rfl
  | cons p pairs ih =>
    obtain ⟨hne, hrest⟩ := List.ne_and_not_mem_of_not_mem_cons h
    rw [point_cons, ih hrest, Function.update_of_ne hne]

/-- A source redirects to the second element of one of its pairs, wherever it redirected before. -/
theorem point_of_mem (h : x ∈ sources pairs) :
    ∃ p ∈ pairs, p.1 = x ∧ ∀ next : κ → Option κ, point next pairs x = some p.2 := by
  induction pairs with
  | nil => cases h
  | cons p pairs ih =>
    by_cases hrest : x ∈ sources pairs
    · obtain ⟨q, hq, hqx, hpoint⟩ := ih hrest
      exact ⟨q, List.mem_cons_of_mem _ hq, hqx, fun next => hpoint _⟩
    · obtain hx | hx := List.mem_cons.1 h
      · refine ⟨p, List.mem_cons_self, hx.symm, ?_⟩
        intro next
        rw [point_cons, point_of_not_mem hrest, hx, Function.update_self]
      · exact absurd hx hrest

theorem Settles.ends_all (h : Settles pairs) (x : κ) : Ends (point (fun _ => none) pairs) x := by
  by_cases hx : x ∈ sources pairs
  · obtain ⟨p, hp, rfl⟩ := List.mem_map.1 hx
    obtain ⟨y, hy⟩ := Option.isSome_iff_exists.1 (h.ends p hp)
    exact .of_follow hy
  · exact .root (point_of_not_mem hx)

/-- **Pairs of roots that settle** keep every way finite. -/
theorem Ends.point (h : Ends next x) (hroots : ∀ p ∈ pairs, next p.1 = none ∧ next p.2 = none)
    (hsettles : Settles pairs) : Ends (point next pairs) x := by
  have hfrom : ∀ y, next y = none → Ends (Redirects.point next pairs) y := by
    intro y hy
    have hends := hsettles.ends_all y
    induction hends with
    | @root y hnone =>
      apply Ends.root
      by_cases hmem : y ∈ sources pairs
      · obtain ⟨p, -, -, hpoint⟩ := point_of_mem hmem
        rw [hpoint] at hnone
        cases hnone
      · rw [point_of_not_mem hmem, hy]
    | @step y z hz _ ih =>
      by_cases hmem : y ∈ sources pairs
      · obtain ⟨p, hp, -, hpoint⟩ := point_of_mem hmem
        rw [hpoint] at hz
        obtain rfl := Option.some.inj hz
        exact .step (hpoint next) (ih (hroots p hp).2)
      · rw [point_of_not_mem hmem] at hz
        cases hz
  induction h with
  | root hx => exact hfrom _ hx
  | @step x y hx _ ih =>
    have hmem : x ∉ sources pairs := by
      intro hmem
      obtain ⟨p, hp, rfl⟩ := List.mem_map.1 hmem
      rw [(hroots p hp).1] at hx
      cases hx
    exact .step (by rw [point_of_not_mem hmem, hx]) ih

/-- **Where things come from**: an element has what has come to it. -/
theorem mem_hand {has : κ → Set α} {a : α} :
    a ∈ hand has pairs y ↔ ∃ x, a ∈ has x ∧ reaches pairs x y = true := by
  induction pairs generalizing has with
  | nil =>
    constructor
    · intro ha
      exact ⟨y, ha, decide_eq_true rfl⟩
    · rintro ⟨x, ha, hx⟩
      obtain rfl := of_decide_eq_true hx
      exact ha
  | cons p pairs ih =>
    obtain ⟨e, t⟩ := p
    rw [hand_cons, ih]
    simp only [reaches, Bool.or_eq_true, Bool.and_eq_true, decide_eq_true_eq]
    constructor
    · rintro ⟨x, ha, hx⟩
      by_cases hxt : x = t
      · subst hxt
        rw [Function.update_self] at ha
        obtain ha | ha := ha
        · exact ⟨x, ha, Or.inl hx⟩
        · exact ⟨e, ha, Or.inr ⟨rfl, hx⟩⟩
      · rw [Function.update_of_ne hxt] at ha
        exact ⟨x, ha, Or.inl hx⟩
    · rintro ⟨x, ha, hx | ⟨rfl, hx⟩⟩
      · refine ⟨x, ?_, hx⟩
        by_cases hxt : x = t
        · subst hxt
          rw [Function.update_self]
          exact Or.inl ha
        · rwa [Function.update_of_ne hxt]
      · refine ⟨t, ?_, hx⟩
        rw [Function.update_self]
        exact Or.inr ha

theorem reaches_of_not_mem (hx : x ∉ sources pairs) (h : reaches pairs x y = true) : x = y := by
  induction pairs with
  | nil => exact of_decide_eq_true h
  | cons p pairs ih =>
    obtain ⟨hne, hrest⟩ := List.ne_and_not_mem_of_not_mem_cons hx
    simp only [reaches, Bool.or_eq_true, Bool.and_eq_true, decide_eq_true_eq] at h
    obtain h | ⟨h, -⟩ := h
    · exact ih hrest h
    · exact absurd h hne

theorem reaches_target (h : reaches pairs x y = true) : x = y ∨ ∃ p ∈ pairs, p.2 = y := by
  induction pairs generalizing x with
  | nil => exact Or.inl (of_decide_eq_true h)
  | cons p pairs ih =>
    simp only [reaches, Bool.or_eq_true, Bool.and_eq_true, decide_eq_true_eq] at h
    obtain h | ⟨-, h⟩ := h
    · exact (ih h).imp_right fun h => h.imp fun _ hq => ⟨List.mem_cons_of_mem _ hq.1, hq.2⟩
    · obtain rfl | ⟨q, hq, hqy⟩ := ih h
      · exact Or.inr ⟨p, List.mem_cons_self, rfl⟩
      · exact Or.inr ⟨q, List.mem_cons_of_mem _ hq, hqy⟩

/-- **What comes to a root** of pairs that settle comes to no other. -/
theorem Settles.one (h : Settles pairs) {z : κ} (hy : y ∉ sources pairs) (hz : z ∉ sources pairs)
    (hxy : reaches pairs x y = true) (hxz : reaches pairs x z = true) : y = z := by
  by_cases hx : x ∈ sources pairs
  · obtain ⟨p, hp, rfl⟩ := List.mem_map.1 hx
    obtain rfl | ⟨q, hq, rfl⟩ := reaches_target hxy
    · exact absurd hx hy
    · obtain rfl | ⟨r, hr, rfl⟩ := reaches_target hxz
      · exact absurd hx hz
      · exact h.single p hp q hq r hr hy hz hxy hxz
  · rw [← reaches_of_not_mem hx hxy, ← reaches_of_not_mem hx hxz]

/-- Where every way is finite after the pairs, each key is followed to its end. -/
theorem follow_of_ends (h : ∀ x, Ends (point next pairs) x) (x : κ) :
    (follow (point (fun _ => none) pairs) (pairs.length + 1) x).isSome = true := by
  have hends : Ends (point (fun _ => none) pairs) x := by
    apply (h x).of_fewer
    intro z
    by_cases hz : z ∈ sources pairs
    · obtain ⟨q, -, -, hpoint⟩ := point_of_mem hz
      exact Or.inr ((hpoint _).trans (hpoint next).symm)
    · exact Or.inl (point_of_not_mem hz)
  have hnamed : ∀ z w, point (fun _ => none) pairs z = some w → w ∈ x :: pairs.map (·.2) := by
    intro z w hw
    by_cases hz : z ∈ sources pairs
    · obtain ⟨q, hq, -, hpoint⟩ := point_of_mem hz
      rw [hpoint] at hw
      obtain rfl := Option.some.inj hw
      exact List.mem_cons_of_mem _ (List.mem_map_of_mem hq)
    · rw [point_of_not_mem hz] at hw
      cases hw
  have hlength : (x :: pairs.map (·.2)).length ≤ pairs.length + 1 := by
    rw [List.length_cons, List.length_map]
  obtain ⟨y, hy, -⟩ := hends.follow hnamed List.mem_cons_self hlength
  rw [hy]
  rfl

end Pointing

end Coppermind.Lib.Redirects
