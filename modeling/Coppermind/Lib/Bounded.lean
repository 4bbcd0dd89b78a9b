import Mathlib.Data.List.Basic

/-!
# Deciding what holds of every member

What is said of every member of a list or of an option is decided member by member, also where
the type of the members is finite and could be gone through instead; an implication is decided by
its two sides.
-/

namespace Coppermind.Lib.Bounded

variable {α : Type} {p : α → Prop} [DecidablePred p]

scoped instance (priority := high) decidableList (l : List α) : Decidable (∀ a ∈ l, p a) :=
  List.decidableBAll p l

scoped instance (priority := high) decidableOption (o : Option α) : Decidable (∀ a ∈ o, p a) :=
  Option.decidableForallMem o

scoped instance (priority := high) decidableImplies {q r : Prop} [Decidable q] [Decidable r] :
    Decidable (q → r) :=
  instDecidableForall

end Coppermind.Lib.Bounded
