/-!
# Identity of sets and elements

* `SetId`: the number that identifies a set. Edge sets refer to other sets by it, and bound path
  expressions compare sets by it, never by name.
* `ElementRef`: a reference to one element of one set.
* `Identified`: kinds of sets that are told apart by their identity.
-/

namespace MeshPath

/-- The number that identifies a set. -/
structure SetId where
  /-- Sets are numbered in the order in which they are made. -/
  number : Nat
deriving DecidableEq, Repr

/-- Sets are ordered by their numbers. -/
instance : Ord SetId where
  compare a b := compare a.number b.number

/-- A reference to the element numbered `ident` of the set `set`. -/
structure ElementRef where
  /-- The set that the element belongs to. -/
  set : SetId
  /-- The stored number of the element. -/
  ident : Nat
deriving DecidableEq, Repr

/-- A kind of sets with an identity and a name. Variables, tables of bindings and keys need no more
of a set. -/
class Identified (S : Type) where
  /-- The identity of a set. -/
  id : S → SetId
  /-- The name of a set. -/
  name : S → String

end MeshPath
