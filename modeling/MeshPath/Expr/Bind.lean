import MeshPath.Expr.Bindings
import MeshPath.Expr.Shape

/-!
# Binding expressions

* `PathTree.checkBound`: whether all variables of an expression have a set, or none has.
* `PathTree.mapVars`: an expression with every variable replaced. Variables are visited in
  preorder, and each formula is checked again once its operands are rebuilt.
* `PathTree.bind`: an expression with every variable bound by its name from a table.
-/

namespace MeshPath.PathTree

variable {S : Type} [Identified S]

/-- Whether all variables have a set. An expression in which some have one and some have not is an
error. -/
def checkBound (x : OpenExpr S) : Except PathError Bool :=
  if x.vars.all (!·.isBound) then .ok false
  else if x.vars.all (·.isBound) then .ok true
  else .error (.partiallyBound x.text)

/-- Whether all variables have a set. -/
def isBound (x : OpenExpr S) : Bool :=
  match x.checkBound with
  | .ok b => b
  | .error _ => false

/-- The expression with every variable passed through `f`, in preorder. The first failure of `f`
ends the visit. A formula whose operands are rebuilt has to be free of defects again. -/
def mapVars {m : Type → Type} [Monad m] (f : OpenVar S → ExceptT PathError m (OpenVar S)) :
    OpenExpr S → ExceptT PathError m (OpenExpr S)
  | link kind source sink => do
    let source ← f source
    let sink ← f sink
    return link kind source sink
  | formula c x y quantified lhs rhs => do
    let x ← f x
    let y ← f y
    let quantified ← quantified.mapM f
    let lhs ← lhs.mapVars f
    let rhs ← rhs.mapVars f
    ExceptT.mk (pure (checked (formula c x y quantified lhs rhs)))

/-- The variable of the same name over the set that the table assigns to it. -/
def bindVar (table : Bindings S) (v : OpenVar S) : Except PathError (OpenVar S) :=
  match table.get? v.name with
  | some set => .ok (v.rebind set)
  | none => .error (.unboundVar v.name)

/-- The expression with every variable bound by its name. -/
def bind (table : Bindings S) (x : OpenExpr S) : Except PathError (OpenExpr S) :=
  Id.run (x.mapVars fun v => ExceptT.mk (pure (bindVar table v))).run

end MeshPath.PathTree
