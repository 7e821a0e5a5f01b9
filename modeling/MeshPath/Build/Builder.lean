import MeshPath.Build.Memo
import MeshPath.Expr.Bind

/-!
# Builders

A `Builder` realizes path expressions. It holds the options, a table of bindings for expressions
without sets, and the memo of what it has realized.

* `Builder.bind`: adds a binding. A name is never bound to another set.
* `Builder.build`: the index of an expression.
-/

namespace MeshPath

/-- A builder of path indices. -/
structure Builder (O : Type := BuildOptions) (S : Type := SetView) (I : Type := PathIndex) where
  /-- How links and formulas are realized. -/
  options : O
  /-- The sets of variables without a set of their own. -/
  bindings : Bindings S
  /-- What has been realized. -/
  memo : Memo I

namespace Builder

variable {O S I ε : Type} [Identified S]

/-- A builder without bindings that has realized nothing. -/
def new (options : O) : Builder O S I := ⟨options, .empty, .empty⟩

/-- Binds `name` to `set`. A second binding to the same set changes nothing, and one to another
set is an error. -/
def bind (b : Builder O S I) (name : String) (set : S) : Except PathError (Builder O S I) :=
  match b.bindings.get? name with
  | none => .ok { b with bindings := b.bindings.insert name set }
  | some existing =>
    if Identified.id existing = Identified.id set then .ok b
    else .error (.rebound name (Identified.name existing))

/-- The bound form of an expression: itself if all its variables have sets, and bound from the
table if none has. -/
def boundForm (b : Builder O S I) (x : OpenExpr S) : Except PathError (BoundExpr S) := do
  if ← x.checkBound then x.close
  else (← x.bind b.bindings).close

/-- The bound form of an expression and the end of the given ordinal. -/
def resolve (b : Builder O S I) (x : OpenExpr S) (ordinal : Nat) :
    Except PathError (BoundExpr S × End) :=
  match End.ofNat? ordinal with
  | none => .error (.invalidSourceEndpoint x.text ordinal)
  | some rows => (b.boundForm x).map fun bound => (bound, rows)

/-- The index of an expression, with its end `ordinal` as the source of the rows. A request that
cannot be resolved leaves the builder as it was. -/
def build [PathFailure ε] [Realizer O S I ε] (b : Builder O S I) (x : OpenExpr S) (ordinal : Nat) :
    Except ε (Built I) × Builder O S I :=
  match b.resolve x ordinal with
  | .error e => (.error (PathFailure.rejected e), b)
  | .ok (bound, rows) =>
    let (result, memo) := (bound.realize b.options rows).run.run b.memo
    (result, { b with memo := memo })

end Builder

end MeshPath
