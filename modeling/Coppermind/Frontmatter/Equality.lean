import Coppermind.Frontmatter.Value

/-!
# Equality of loaded values

`==` compares values that hold no others by one datum, the number behind a boolean for instance,
and lists and mappings member by member.  It is transitive; only NaN is not equal to itself.
-/

namespace Coppermind.Frontmatter

open Coppermind.Lib

/-- What `==` looks at in a value that holds no other. -/
inductive Scalar where
  | null
  | number (n : Number)
  | str (s : Text)
  | surrogates (points : List Nat)
  | date (d : Date)
  | datetime (d : DateTime)
  | other (text : Text)

def Value.scalar? : Value → Option Scalar
  | .null => some .null
  | .str s => some (.str s)
  | .surrogateStr points => some (.surrogates points)
  | .date d => some (.date d)
  | .datetime d | .timestamp d => some (.datetime d)
  | .other text => some (.other text)
  | v => v.number?.map .number

/-- The cases of `==`. -/
inductive PyEq : Value → Value → Prop where
  | scalar {v w : Value} {k : Scalar} (hv : v.scalar? = some k) (hw : w.scalar? = some k) : PyEq v w
  | seq {flow flow' : Bool} {xs ys : List Value} (h : pyEqItems xs ys = true) :
    PyEq (.seq flow xs) (.seq flow' ys)
  | map {xs ys : List (Value × Value)} (hlength : xs.length = ys.length)
    (h : pyEqEntries xs ys = true) : PyEq (.map xs) (.map ys)

/-- A number is compared by its value, with a number only. -/
theorem pyEq_number {v : Value} {m : Number} (hv : v.number? = some m) (w : Value) :
    v.pyEq w = true ↔ w.number? = some m := by
  have heq : v.pyEq w = w.number?.any fun n => m == n := by
    cases v with
    | bool _ | int _ | float _ =>
      cases w <;> unfold Value.pyEq <;> rw [hv] <;> generalize Value.number? _ = n <;>
        cases n <;> rfl
    | _ => cases hv
  rw [heq]
  cases w.number? with
  | none => simp
  | some n => rw [Option.any_some, beq_iff_eq, Option.some.injEq, eq_comm]

theorem scalar?_eq_number {w : Value} {m : Number} :
    w.scalar? = some (.number m) ↔ w.number? = some m := by
  cases w with
  | bool _ | int _ | float _ =>
    unfold Value.scalar?
    simp only [Option.map_eq_some_iff, Scalar.number.injEq, exists_eq_right]
  | _ =>
    constructor
    · intro h
      cases h
    · intro h
      cases h

theorem pyEq_iff {v w : Value} : v.pyEq w = true ↔ PyEq v w := by
  constructor
  · intro h
    cases hnumber : v.number? with
    | some m =>
      rw [pyEq_number hnumber] at h
      exact .scalar (scalar?_eq_number.2 hnumber) (scalar?_eq_number.2 h)
    | none =>
      cases v with
      | bool _ | int _ => cases hnumber
      | float f =>
        have heq : (Value.float f).pyEq w = false := by
          cases w <;> unfold Value.pyEq <;> rw [hnumber]
        rw [heq] at h
        cases h
      | seq flow xs =>
        cases w with
        | seq flow' ys => exact .seq h
        | _ => cases h
      | map xs =>
        cases w with
        | map ys =>
          unfold Value.pyEq at h
          rw [Bool.and_eq_true, beq_iff_eq] at h
          exact .map h.1 h.2
        | _ => cases h
      | _ =>
        cases w <;> first
          | cases h; done
          | exact .scalar rfl rfl
          | (obtain rfl := eq_of_beq h; exact .scalar rfl rfl)
  · rintro (⟨hv, hw⟩ | h | ⟨hlength, h⟩)
    · cases hnumber : v.number? with
      | some m =>
        rw [pyEq_number hnumber]
        have hk := scalar?_eq_number.2 hnumber
        rw [hv] at hk
        obtain rfl := Option.some.inj hk
        exact scalar?_eq_number.1 hw
      | none =>
        cases v with
        | bool _ | int _ | seq _ _ | map _ => cases hv <;> cases hnumber
        | float f =>
          change (Value.float f).number?.map Scalar.number = _ at hv
          rw [hnumber] at hv
          cases hv
        | _ =>
          obtain rfl := Option.some.inj hv
          cases w with
          | float f =>
            change (Value.float f).number?.map Scalar.number = _ at hw
            obtain ⟨n, -, hn⟩ := Option.map_eq_some_iff.1 hw
            cases hn
          | _ =>
            cases hw <;> first
              | rfl
              | exact beq_self_eq_true _
    · exact h
    · unfold Value.pyEq
      rw [Bool.and_eq_true, beq_iff_eq]
      exact ⟨hlength, h⟩

variable {v w : Value}

theorem exists_of_pyEqEntries {xs ys : List (Value × Value)} (h : pyEqEntries xs ys = true)
    {e : Value × Value} (he : e ∈ xs) :
    ∃ f ∈ ys, e.1.pyEq f.1 = true ∧ e.2.pyEq f.2 = true := by
  induction xs with
  | nil => cases he
  | cons x xs ih =>
    obtain ⟨key, value⟩ := x
    simp only [pyEqEntries, pyEqEntry, Bool.and_eq_true, List.any_eq_true] at h
    obtain rfl | he := List.mem_cons.1 he
    · exact h.1
    · exact ih h.2 he

mutual

theorem pyEq_trans (u : Value) : ∀ v w, u.pyEq v = true → v.pyEq w = true → u.pyEq w = true := by
  intro v w huv hvw
  rw [pyEq_iff] at huv hvw
  cases huv with
  | scalar hu hv =>
    cases hvw with
    | scalar hv' hw =>
      rw [hv] at hv'
      obtain rfl := Option.some.inj hv'
      exact pyEq_iff.2 (.scalar hu hw)
    | seq h => cases hv
    | map hlength h => cases hv
  | @seq _ _ xs ys h =>
    cases hvw with
    | scalar hv hw => cases hv
    | seq h' => exact pyEq_iff.2 (.seq (pyEqItems_trans xs _ _ h h'))
  | @map xs ys hlength h =>
    cases hvw with
    | scalar hv hw => cases hv
    | map hlength' h' =>
      exact pyEq_iff.2 (.map (hlength.trans hlength') (pyEqEntries_trans xs _ _ h h'))
termination_by structural u

theorem pyEqItems_trans (xs : List Value) :
    ∀ ys zs, pyEqItems xs ys = true → pyEqItems ys zs = true → pyEqItems xs zs = true := by
  intro ys zs hxy hyz
  cases xs with
  | nil =>
    cases ys with
    | nil => exact hyz
    | cons _ _ => cases hxy
  | cons x xs =>
    cases ys with
    | nil => cases hxy
    | cons y ys =>
      cases zs with
      | nil => cases hyz
      | cons z zs =>
        simp only [pyEqItems, Bool.and_eq_true] at hxy hyz ⊢
        exact ⟨pyEq_trans x y z hxy.1 hyz.1, pyEqItems_trans xs ys zs hxy.2 hyz.2⟩
termination_by structural xs

theorem pyEqEntries_trans (xs : List (Value × Value)) :
    ∀ ys zs, pyEqEntries xs ys = true → pyEqEntries ys zs = true → pyEqEntries xs zs = true := by
  intro ys zs hxy hyz
  cases xs with
  | nil => rfl
  | cons e xs =>
    simp only [pyEqEntries, Bool.and_eq_true] at hxy ⊢
    exact ⟨pyEqEntry_trans e ys zs hxy.1 hyz, pyEqEntries_trans xs ys zs hxy.2 hyz⟩
termination_by structural xs

theorem pyEqEntry_trans (e : Value × Value) :
    ∀ ys zs, pyEqEntry e ys = true → pyEqEntries ys zs = true → pyEqEntry e zs = true := by
  intro ys zs hey hyz
  obtain ⟨key, value⟩ := e
  simp only [pyEqEntry, List.any_eq_true, Bool.and_eq_true] at hey ⊢
  obtain ⟨f, hf, hkey, hvalue⟩ := hey
  obtain ⟨g, hg, hkey', hvalue'⟩ := exists_of_pyEqEntries hyz hf
  exact ⟨g, hg, pyEq_trans key f.1 g.1 hkey hkey', pyEq_trans value f.2 g.2 hvalue hvalue'⟩
termination_by structural e

end

end Coppermind.Frontmatter
