import MeshPath.Build.Formula
import MeshPath.Build.Link

/-!
# Realizers

A builder realizes an expression from its links upwards and remembers what it realizes. What it
remembers, and under which key, does not depend on how a link or a formula is realized, nor on what
a set or an index is made of.

* `Realizer`: the realization of links, and of formulas from the indices of their operands. It may
  fail at any of them.
* The realizer that `BuildOptions` choose: links between `SetView`s and formulas over `PathIndex`es.
-/

namespace MeshPath

/-- How links between sets `S` and formulas over indices `I` are realized under options `O`. Each
realization may fail with a failure `ε`. -/
class Realizer (O : Type) (S I ε : outParam Type) where
  /-- The relation of a link between two sets, with the end `rows` as the source of the rows. -/
  link (options : O) (kind : LinkKind) (source sink : S) (rows : End) : Except ε I
  /-- The relation of a formula without a quantified variable, from those of its operands. -/
  combine (options : O) (c : Connective) (lhs rhs : I) : Except ε I
  /-- The relation of a quantified formula, from its hop `near` at the source of the rows, its hop
  `far` and the set at the other end. -/
  eliminate (options : O) (c : Connective) (near far : I) (sinks : S) : Except ε I

instance : Realizer BuildOptions SetView PathIndex Failure where
  link := Link.realize
  combine _ c lhs rhs := .ok (Formula.combine c lhs rhs)
  eliminate _ c near far sinks := .ok (Formula.eliminate c near far sinks)

end MeshPath
