import MeshPath.Expr.Tree
import MeshPath.Index.PathIndex

/-!
# Realized formulas

A formula is realized from the indices of its operands, row by row. All rows are ascending and
without repetition.

* `combine`: without a quantified variable, intersection or union of the rows of the operands.
* `join`: the elements that two hops reach, one through each operand.
* `broadcast`: every element of the sink set, for each source whose first hop reaches anything.
-/

namespace MeshPath.Formula

/-- The rows of two indices over the same elements, combined by a connective. The elements are
those of `lhs`. -/
def combine (c : Connective) (lhs rhs : PathIndex) : PathIndex :=
  .segmented <| .ofRows <| lhs.elements.map fun e =>
    match c with
    | .and => Row.inter (lhs.row e) (rhs.row e)
    | .or => Row.union (lhs.row e) (rhs.row e)

/-- The elements reached by a hop of `near` followed by a hop of `far`. -/
def join (near far : PathIndex) : PathIndex :=
  .segmented <| .ofRows <| near.elements.map fun e => Row.distinct ((near.row e).flatMap far.row)

/-- The elements `0 … numSinks - 1`, for each source with a hop of `near`. -/
def broadcast (near : PathIndex) (numSinks : Nat) : PathIndex :=
  .segmented <| .ofRows <| near.elements.map fun e =>
    if (near.row e).isEmpty then [] else List.range numSinks

/-- The relation of a quantified formula, from its hop `near` at the source of the rows, its hop
`far` and the set at the other end. -/
def eliminate (c : Connective) (near far : PathIndex) (sinks : SetView) : PathIndex :=
  match c with
  | .and => join near far
  | .or => broadcast near (Word.low32 sinks.size)

end MeshPath.Formula
