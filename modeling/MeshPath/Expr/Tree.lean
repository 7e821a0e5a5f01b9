import MeshPath.Expr.Stencil
import MeshPath.Expr.Var

/-!
# Expression trees

A path expression describes a binary relation between the elements of two sets, its two *ends*.

* A *link* is one hop from a source to a sink: from an edge to its vertices, from a vertex to its
  edges, or from a lattice element to its stencil neighbours.
* A *formula* combines two operands over two free variables by `∧` or `∨`, and may eliminate one
  existentially quantified variable that both operands reach:
  `(x,y) exist e | (ve(x,e)) ∧ (ev(e,y))`.

`PathTree V` holds the shape of an expression with something of type `V` at every variable
occurrence. Expressions have variables there, and their keys have slots. `PathTree.vars` lists the
occurrences in preorder, the order in which `map` and `traverse` visit them.
-/

namespace MeshPath

/-- The ends of a relation. -/
inductive End where
  /-- End `0`. -/
  | first
  /-- End `1`. -/
  | second
deriving DecidableEq, Repr

namespace End

/-- The end of the given ordinal. -/
def ofNat? : Nat → Option End
  | 0 => some first
  | 1 => some second
  | _ => none

/-- The ordinal of an end. -/
def toNat : End → Nat
  | first => 0
  | second => 1

/-- The opposite end. -/
def other : End → End
  | first => second
  | second => first

/-- Of two things, one for each end, the one for this end. -/
def pick {α : Type} (e : End) (atFirst atSecond : α) : α :=
  match e with
  | first => atFirst
  | second => atSecond

theorem ofNat?_toNat (e : End) : ofNat? e.toNat = some e := by cases e <;> rfl

end End

/-- The kinds of a link. -/
inductive LinkKind where
  /-- From an edge to the vertices it connects. -/
  | edgeToVertex
  /-- From a vertex to the edges that connect it. -/
  | vertexToEdge
  /-- From a lattice element to its neighbours under a stencil. -/
  | stencil (s : Stencil)
deriving DecidableEq

/-- How a formula combines its operands. -/
inductive Connective where
  /-- Both operands hold. -/
  | and
  /-- One of the operands holds. -/
  | or
deriving DecidableEq, Repr

/-- The shape of a path expression over variables of type `V`. -/
inductive PathTree (V : Type) where
  /-- One hop from `source` to `sink`. -/
  | link (kind : LinkKind) (source sink : V)
  /-- Two operands over the free variables `x` and `y`, with or without a quantified one. -/
  | formula (connective : Connective) (x y : V) (quantified : Option V) (lhs rhs : PathTree V)
deriving DecidableEq

namespace PathTree

variable {V W : Type}

/-- The variable at an end: source and sink of a link, the free variables of a formula. -/
def endpoint (t : PathTree V) (e : End) : V :=
  match t with
  | link _ source sink => e.pick source sink
  | formula _ x y _ _ _ => e.pick x y

/-- The connective of a formula. -/
def connective? : PathTree V → Option Connective
  | link _ _ _ => none
  | formula c _ _ _ _ _ => some c

/-- All variable occurrences in preorder: the ends, the quantified variable, then the operands. -/
def vars : PathTree V → List V
  | link _ source sink => [source, sink]
  | formula _ x y q lhs rhs => x :: y :: (q.toList ++ (lhs.vars ++ rhs.vars))

/-- The number of quantified variables of all formulas. -/
def quantifierCount : PathTree V → Nat
  | link _ _ _ => 0
  | formula _ _ _ q lhs rhs => q.toList.length + (lhs.quantifierCount + rhs.quantifierCount)

/-- The tree with every occurrence replaced. -/
def map (f : V → W) : PathTree V → PathTree W
  | link kind source sink => link kind (f source) (f sink)
  | formula c x y q lhs rhs => formula c (f x) (f y) (q.map f) (lhs.map f) (rhs.map f)

/-- The tree with every occurrence replaced, in preorder, by an operation with effects. -/
def traverse {m : Type → Type} [Monad m] (f : V → m W) : PathTree V → m (PathTree W)
  | link kind source sink => do
    let source ← f source
    let sink ← f sink
    return link kind source sink
  | formula c x y q lhs rhs => do
    let x ← f x
    let y ← f y
    let q ← q.mapM f
    let lhs ← lhs.traverse f
    let rhs ← rhs.traverse f
    return formula c x y q lhs rhs

@[simp]
theorem vars_map (f : V → W) (t : PathTree V) : (t.map f).vars = t.vars.map f := by
  induction t with
  | link kind source sink => rfl
  | formula c x y q lhs rhs ihl ihr => cases q <;> simp [map, vars, ihl, ihr]

/-- The ends of a mapped expression are those of the expression, mapped. -/
@[simp]
theorem endpoint_map (f : V → W) (t : PathTree V) (e : End) :
    (t.map f).endpoint e = f (t.endpoint e) := by
  cases t <;> cases e <;> rfl

@[simp]
theorem map_id (t : PathTree V) : t.map (fun v => v) = t := by
  induction t with
  | link kind source sink => rfl
  | formula c x y q lhs rhs ihl ihr => cases q <;> simp [map, ihl, ihr]

end PathTree

/-- A path expression over variables with the data `S`. -/
abbrev PathExpr (S : Type) := PathTree (Var S)

/-- A path expression in which each variable may or may not have a set. -/
abbrev OpenExpr (S : Type := SetView) := PathExpr (Option S)

/-- A path expression in which every variable has a set. -/
abbrev BoundExpr (S : Type := SetView) := PathExpr S

namespace PathTree

variable {S : Type}

/-- The name of the variable at an end. -/
def endName (x : PathExpr S) (e : End) : String := (x.endpoint e).name

/-- The end named `name`; the first one if both ends are. -/
def endNamed? (x : PathExpr S) (name : String) : Option End :=
  if x.endName .first = name then some .first
  else if x.endName .second = name then some .second
  else none

/-- An expression with bound variables as one with open variables. -/
def toOpen (x : BoundExpr S) : OpenExpr S := x.map fun v => ⟨v.name, some v.set⟩

/-- An expression whose variables all have sets as a bound expression; otherwise the error of the
first variable without a set. -/
def close (x : OpenExpr S) : Except PathError (BoundExpr S) := x.traverse Var.close

end PathTree

end MeshPath
