import MeshPath.Expr.Shape

/-!
# Renaming the ends of an expression

`PathTree.rename` substitutes new variables for the ends of an expression. Substitution is by
name and respects the scope of quantifiers: an occurrence under a quantifier of its name stays, and
a quantified variable that would capture a new variable first moves to an unused name.
-/

namespace MeshPath

/-- New variables for names. Of several entries for one name the first holds. -/
abbrev Substitution (S : Type := SetView) := List (String × OpenVar S)

namespace Substitution

variable {S : Type}

/-- The variable that takes the place of `v`. -/
def apply (σ : Substitution S) (v : OpenVar S) : OpenVar S := (σ.lookup v.name).getD v

/-- The substitution in the scope of a quantifier of `name`. -/
def without (σ : Substitution S) (name : String) : Substitution S := σ.filter (·.1 ≠ name)

/-- Whether some new variable is named `name`. -/
def introduces (σ : Substitution S) (name : String) : Bool := σ.any (·.2.name = name)

/-- All old and new names. -/
def names (σ : Substitution S) : List String := σ.flatMap fun e => [e.1, e.2.name]

end Substitution

/-- The first of `base1`, `base2`, … that is not in `taken`. -/
def unusedName (base : String) (taken : List String) : String :=
  let candidates := (List.range (taken.length + 1)).map fun n => base ++ toString (n + 1)
  (candidates.find? (· ∉ taken)).getD (base ++ "'")

namespace PathTree

variable {S : Type} [Identified S]

/-- The expression with `σ` applied to its free occurrences. -/
def substitute (σ : Substitution S) : OpenExpr S → Except PathError (OpenExpr S)
  | link kind source sink => .ok (link kind (σ.apply source) (σ.apply sink))
  | formula c x y none lhs rhs => do
    let newLhs ← lhs.substitute σ
    let newRhs ← rhs.substitute σ
    checked (formula c (σ.apply x) (σ.apply y) none newLhs newRhs)
  | formula c x y (some q) lhs rhs =>
    -- Below the quantifier its name no longer stands for the outer variable.
    let inner := σ.without q.name
    if σ.introduces q.name then do
      -- The quantified variable would capture a new one, so it moves away first. Its new name is
      -- unused in the whole formula, not only in the operands.
      let names := (formula c x y (some q) lhs rhs).vars.map (·.name)
      let fresh := q.rename (unusedName q.name (names ++ σ.names))
      let newLhs ← lhs.substitute (inner ++ [(q.name, fresh)])
      let newRhs ← rhs.substitute (inner ++ [(q.name, fresh)])
      checked (formula c (σ.apply x) (σ.apply y) (some fresh) newLhs newRhs)
    else do
      let newLhs ← lhs.substitute inner
      let newRhs ← rhs.substitute inner
      checked (formula c (σ.apply x) (σ.apply y) (some q) newLhs newRhs)

/-- The variable that takes the place of the end `old`: `new`, over the set of `old` if `new` has
none of its own. -/
def replacement (old new : OpenVar S) : OpenVar S :=
  match old.set with
  | some set => if new.isBound then new else new.rebind set
  | none => new

/-- The expression with its ends replaced by `new`, one variable for each end. -/
def rename (x : OpenExpr S) (new : List (OpenVar S)) : Except PathError (OpenExpr S) :=
  match new with
  | [p, q] =>
    let source := x.endpoint .first
    let sink := x.endpoint .second
    x.substitute [(source.name, replacement source p), (sink.name, replacement sink q)]
  | _ => .error (.renameArity x.text 2 new.length)

end PathTree

end MeshPath
