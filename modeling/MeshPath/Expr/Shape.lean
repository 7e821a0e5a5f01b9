import MeshPath.Expr.Tree

/-!
# The shape of a formula

The operands of a formula have to fit its variables. Without a quantifier each operand relates the
two free variables. With the quantified variable `q` one operand relates `q` to one free variable,
and the other operand relates `q` to the other free variable.

* `PathTree.defect?`: what is wrong with the outermost formula of an expression.
* `PathTree.WellFormed`: no formula of the expression has a defect.
* `PathTree.text`: the written form of an expression.
* `PathTree.formula?`: a formula from its parts, if they have a shape that is supported.
-/

namespace MeshPath.PathTree

variable {S : Type}

/-- Whether the ends of `x` are named `a` and `b`, in some order. -/
def relates (x : PathExpr S) (a b : String) : Bool :=
  (x.endName .first = a && x.endName .second = b) ||
    (x.endName .first = b && x.endName .second = a)

/-- The name at the other end of `x`, if exactly one end is named `q`. -/
def farEnd? (x : PathExpr S) (q : String) : Option String :=
  if x.endName .first = q ∧ x.endName .second ≠ q then some (x.endName .second)
  else if x.endName .second = q ∧ x.endName .first ≠ q then some (x.endName .first)
  else none

/-- What is wrong with the outermost formula of an expression. A link has no defect. -/
def defect? : PathExpr S → Option Defect
  | link _ _ _ => none
  | formula _ x y quantified lhs rhs =>
    if x.name = y.name then some .equalFreeVars
    else match quantified with
      | none =>
        if lhs.relates x.name y.name && rhs.relates x.name y.name then none
        else some .operandsOffFreeVars
      | some q =>
        if q.name = x.name ∨ q.name = y.name then some .quantifiedFreeVar
        else match lhs.farEnd? q.name, rhs.farEnd? q.name with
          | some l, some r =>
            if (l = x.name ∧ r = y.name) ∨ (l = y.name ∧ r = x.name) then none
            else some .sameFarEnd
          | _, _ => some .operandsOffQuantifiedVar

/-- No formula of the expression has a defect. -/
def WellFormed : PathExpr S → Prop
  | link _ _ _ => True
  | formula c x y quantified lhs rhs =>
    defect? (formula c x y quantified lhs rhs) = none ∧ WellFormed lhs ∧ WellFormed rhs

/-- The sign of a connective. -/
def sign : Connective → String
  | .and => "∧"
  | .or => "∨"

/-- The name of a kind of link. Stencils are not written out. -/
def kindName : LinkKind → String
  | .edgeToVertex => "ev"
  | .vertexToEdge => "ve"
  | .stencil _ => "vv"

variable [Identified S]

/-- The written form of an expression: `ev(e,v)` for a link, `(x,y) exist q | (lhs) ∧ (rhs)` for a
formula. -/
def text : OpenExpr S → String
  | link kind source sink => kindName kind ++ "(" ++ source.text ++ "," ++ sink.text ++ ")"
  | formula c x y quantified lhs rhs =>
    let quantifier := match quantified with
      | none => ""
      | some q => " " ++ q.quantifiedText
    "(" ++ x.text ++ "," ++ y.text ++ ")" ++ quantifier ++ " | (" ++ lhs.text ++ ") " ++
      sign c ++ " (" ++ rhs.text ++ ")"

/-- An expression whose outermost formula has no defect, or the error that names the defect. -/
def checked (x : OpenExpr S) : Except PathError (OpenExpr S) :=
  match x.defect? with
  | none => .ok x
  | some defect => .error (.malformedFormula x.text defect)

/-- The formula of the given parts. Exactly two free variables and at most one quantified variable
are supported. -/
def formula? (c : Connective) (free quantified : List (OpenVar S)) (lhs rhs : OpenExpr S) :
    Except PathError (OpenExpr S) :=
  match free, quantified with
  | [x, y], [] => checked (formula c x y none lhs rhs)
  | [x, y], [q] => checked (formula c x y (some q) lhs rhs)
  | [_, _], qs => .error (.unsupportedQuantifiedVars qs.length)
  | xs, _ => .error (.unsupportedFreeVars xs.length)

/-- The vertices `u` and `w` that share the edge `e`. -/
def sharedEdge? (u e w : OpenVar S) : Except PathError (OpenExpr S) :=
  formula? .and [u, w] [e] (link .vertexToEdge u e) (link .edgeToVertex e w)

/-- The edges `d` and `e` that share the vertex `v`. -/
def sharedVertex? (d v e : OpenVar S) : Except PathError (OpenExpr S) :=
  formula? .and [d, e] [v] (link .edgeToVertex d v) (link .vertexToEdge v e)

/-- The check of a formula accepts it without a defect, and then gives it back as it is. -/
theorem checked_eq_ok_iff {x y : OpenExpr S} :
    checked x = .ok y ↔ x.defect? = none ∧ y = x := by
  unfold checked
  cases x.defect? with
  | none => simp [eq_comm]
  | some defect => simp

end MeshPath.PathTree
