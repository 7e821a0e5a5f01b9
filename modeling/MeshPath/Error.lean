import MeshPath.Text.Bracketed

/-!
# Errors of path expressions

* `Defect`: what is wrong with the shape of a formula.
* `PathError`: the causes for which building, binding, renaming or realizing a path expression
  fails; `PathError.message` is the text of each.
* `Failure`: what can end a realization, a `PathError` or a read past the end of the endpoint
  array of a set that came from outside the library.
* `PathFailure`: kinds of failures that include the path errors.
-/

namespace MeshPath

/-- What is wrong with the shape of a formula. -/
inductive Defect where
  /-- Both free variables have one name. -/
  | equalFreeVars
  /-- Without a quantifier, some operand does not relate the two free variables. -/
  | operandsOffFreeVars
  /-- The quantified variable is named like a free variable. -/
  | quantifiedFreeVar
  /-- Some operand does not have the quantified variable at exactly one end. -/
  | operandsOffQuantifiedVar
  /-- The operands do not reach the two free variables, one each. -/
  | sameFarEnd
  /-- The operand has no end named `var`. -/
  | unmentioned (var : String)
deriving DecidableEq, Repr

/-- The text of a defect. -/
def Defect.reason : Defect → String
  | equalFreeVars => "free variables must be distinct"
  | operandsOffFreeVars => "both operands must relate exactly the two free variables"
  | quantifiedFreeVar => "a free variable cannot also be quantified"
  | operandsOffQuantifiedVar =>
    "each operand must relate the quantified variable to one free variable"
  | sameFarEnd =>
    "operands must reach different free variables through the quantified one"
  | unmentioned var => s!"operand does not mention `{var}`"

/-- The causes for which work on a path expression fails. Expressions are reported by their
text. -/
inductive PathError where
  /-- The variable `name` has no set. -/
  | unboundVar (name : String)
  /-- Some but not all variables of the expression have a set. -/
  | partiallyBound (expr : String)
  /-- The name is in the table already, for the set named `existing`. -/
  | rebound (name existing : String)
  /-- A formula was given `count` free variables. -/
  | unsupportedFreeVars (count : Nat)
  /-- A formula was given `count` quantified variables. -/
  | unsupportedQuantifiedVars (count : Nat)
  /-- The formula has a defect. -/
  | malformedFormula (expr : String) (defect : Defect)
  /-- The ends of the expression were to be renamed to `found` variables. -/
  | renameArity (expr : String) (expected found : Nat)
  /-- The expression has no end `ordinal`. -/
  | invalidSourceEndpoint (expr : String) (ordinal : Nat)
  /-- The edge side of a link has no endpoints. -/
  | notAnEdgeSet (set : String)
  /-- The edge side of a link has no endpoint in its vertex side. -/
  | endpointSetMismatch (edgeSet vertexSet : String)
  /-- The endpoints of the edge set lie in different sets. -/
  | notHomogeneous (set : String)
  /-- A stencil was applied to a set that is no lattice. -/
  | notALattice (set : String)
  /-- The ends of a stencil link are different sets. -/
  | gridMismatch (sourceSet sinkSet : String)
  /-- An offset does not have one component per dimension of the lattice. -/
  | stencilArity (set : String) (offset : List Int) (expected found : Nat)
  /-- An offset differs in length from the first one. -/
  | raggedStencil (offset : List Int) (expected found : Nat)
  /-- The stencil has no offset. -/
  | emptyStencil
  /-- The element lies outside an index over `numElements` elements. -/
  | elementOutOfRange (element numElements : Nat)
deriving DecidableEq, Repr

/-- The text of an error. -/
def PathError.message : PathError → String
  | unboundVar name => s!"no binding for variable `{name}`"
  | partiallyBound expr => s!"some but not all variables of `{expr}` are bound"
  | rebound name existing => s!"`{name}` is already bound to set `{existing}`"
  | unsupportedFreeVars count =>
    s!"path expressions relate exactly 2 free variables, got {count}"
  | unsupportedQuantifiedVars count =>
    s!"at most 1 quantified variable is supported, got {count}"
  | malformedFormula expr defect => s!"malformed formula `{expr}`: {defect.reason}"
  | renameArity expr expected found =>
    s!"rename of `{expr}` expects {expected} variables, got {found}"
  | invalidSourceEndpoint expr ordinal =>
    s!"source endpoint {ordinal} is out of range for `{expr}`"
  | notAnEdgeSet set => s!"`{set}` is not an edge set"
  | endpointSetMismatch edgeSet vertexSet =>
    s!"edge set `{edgeSet}` has no endpoint in `{vertexSet}`"
  | notHomogeneous set => s!"edge set `{set}` is not homogeneous"
  | notALattice set => s!"`{set}` is not a lattice"
  | gridMismatch sourceSet sinkSet =>
    s!"stencil link relates `{sourceSet}` and `{sinkSet}`; both ends must be the same lattice"
  | stencilArity set offset expected found =>
    s!"stencil offset {Text.intList offset} has {found} components, " ++
      s!"lattice `{set}` has {expected} dimensions"
  | raggedStencil offset expected found =>
    s!"stencil offset {Text.intList offset} has {found} components, " ++
      s!"the first offset has {expected}"
  | emptyStencil => "stencil is empty"
  | elementOutOfRange element numElements =>
    s!"element {element} is out of range for an index over {numElements} elements"

/-- What can end a realization. -/
inductive Failure where
  /-- The expression or its sets are at fault. -/
  | rejected (error : PathError)
  /-- An end was read past the end of an endpoint array. -/
  | missingEnd
deriving DecidableEq, Repr

/-- A kind of failures that includes the path errors. -/
class PathFailure (ε : Type) where
  /-- The failure by a path error. -/
  rejected : PathError → ε

instance : PathFailure Failure := ⟨.rejected⟩

/-- A path error where a realization may fail. -/
def Failure.ofPath {α : Type} : Except PathError α → Except Failure α :=
  Except.mapError rejected

end MeshPath
