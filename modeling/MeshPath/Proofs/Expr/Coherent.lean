import MeshPath.Proofs.Expr.Bound
import MeshPath.Proofs.Expr.WellFormed

/-!
# Coherent expressions

An expression is coherent if its formulas and their operands agree on the set of a name: each end
of an operand has the set of the variable of that name of the formula. What a name stands for then
does not depend on where in the expression it is read.

* `CoherentBy f`: agreement on what `f` says of the sets; `Coherent` is agreement on the identity.
* `coherentBy_toOpen`: the open form of an expression is coherent exactly if the expression is.
-/

namespace MeshPath.PathTree

variable {S : Type} {α : Type}

/-- In every formula, the ends of the operands agree with its variables of the same name on what
`f` says of the set. -/
def CoherentBy (f : S → α) : PathExpr S → Prop
  | link _ _ _ => True
  | formula _ x y q lhs rhs =>
    (∀ v ∈ x :: y :: q.toList, ∀ e,
      (lhs.endName e = v.name → f (lhs.endpoint e).set = f v.set) ∧
        (rhs.endName e = v.name → f (rhs.endpoint e).set = f v.set)) ∧
      lhs.CoherentBy f ∧ rhs.CoherentBy f

instance decidableCoherentBy [DecidableEq α] (f : S → α) :
    (x : PathExpr S) → Decidable (x.CoherentBy f)
  | link _ _ _ => isTrue trivial
  | formula _ x y q lhs rhs =>
    have := decidableCoherentBy f lhs
    have := decidableCoherentBy f rhs
    inferInstanceAs (Decidable ((∀ v ∈ x :: y :: q.toList, ∀ e,
      (lhs.endName e = v.name → f (lhs.endpoint e).set = f v.set) ∧
        (rhs.endName e = v.name → f (rhs.endpoint e).set = f v.set)) ∧ _ ∧ _))

/-- In every formula, each end of an operand has the same set as the free or quantified variable of
that name. -/
def Coherent [Identified S] (x : OpenExpr S) : Prop :=
  x.CoherentBy fun set => set.map Identified.id

instance [Identified S] (x : OpenExpr S) : Decidable x.Coherent := decidableCoherentBy _ x

/-- Every expression is coherent if its sets are not told apart. -/
theorem coherentBy_const (a : α) (x : PathExpr S) : x.CoherentBy fun _ => a := by
  induction x with
  | link => trivial
  | formula c x y q lhs rhs ihl ihr => exact ⟨fun v _ e => ⟨fun _ => rfl, fun _ => rfl⟩, ihl, ihr⟩

/-- Whether an open form is coherent depends on the sets of its bound expression. -/
theorem coherentBy_toOpen {f : Option S → α} {y : BoundExpr S} :
    y.toOpen.CoherentBy f ↔ y.CoherentBy fun set => f (some set) := by
  induction y with
  | link => exact Iff.rfl
  | formula c x y q lhs rhs ihl ihr =>
    rw [toOpen_formula, CoherentBy, CoherentBy, ihl, ihr]
    -- What is left are the conditions at this formula, which name the same ends and sets.
    refine and_congr_left' ?_
    simp only [endName_toOpen, set_endpoint_toOpen]
    cases q <;> simp

end MeshPath.PathTree
