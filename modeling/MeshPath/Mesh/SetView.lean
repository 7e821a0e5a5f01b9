import MeshPath.Lattice
import MeshPath.Mesh.Identity

/-!
# Set views

A `SetView` is what path expressions and path indices see of a set: its identity, name and size,
the sets behind its endpoint positions, the flat endpoint array and, for a lattice, the extents.

Nothing ties the size to the length of the endpoint array: a view may come from outside the
library, with an array that is too short, too long or holds elements that do not exist. The sets
that `MeshSet` grows keep these consistent.
-/

namespace MeshPath

/-- A read-only view of a set. -/
structure SetView where
  /-- The identity of the set. -/
  id : SetId
  /-- The name of the set. -/
  name : String
  /-- The number of elements. -/
  size : Nat
  /-- The set behind each endpoint position; empty for vertex sets and lattices. -/
  endpointSets : List SetId
  /-- The ends of all elements, element after element. -/
  endpoints : Array Nat
  /-- The extents of a lattice. -/
  extents : Option Lattice.Extents
deriving DecidableEq

namespace SetView

instance : Identified SetView := ⟨id, name⟩

@[simp]
theorem identified_id (s : SetView) : Identified.id s = s.id := rfl

@[simp]
theorem identified_name (s : SetView) : Identified.name s = s.name := rfl

/-- The number of ends of each element. -/
def cardinality (s : SetView) : Nat := s.endpointSets.length

/-- The identity of the set behind endpoint `position`. -/
def endpointSet? (s : SetView) (position : Nat) : Option SetId := s.endpointSets[position]?

/-- The end at `position` of `element`, read from the flat array. A position at or above the
cardinality reads on into the following elements; past the array there is no end. -/
def endpoint? (s : SetView) (element position : Nat) : Option Nat :=
  s.endpoints[element * s.cardinality + position]?

/-- The ends of `element` if the array holds all of them, and no end otherwise. -/
def ends (s : SetView) (element : Nat) : List Nat :=
  let start := element * s.cardinality
  if start + s.cardinality ≤ s.endpoints.size then
    (s.endpoints.extract start (start + s.cardinality)).toList
  else []

/-- Whether there is an endpoint position and all positions refer to one set. -/
def isHomogeneous (s : SetView) : Bool :=
  match s.endpointSets with
  | [] => false
  | first :: rest => rest.all (· = first)

/-- The extents of a lattice as a list. -/
def dimensions? (s : SetView) : Option (List Nat) := s.extents.map (·.dims)

/-- Whether the set is a lattice. -/
def isLattice (s : SetView) : Bool := s.extents.isSome

/-- The coordinates of `element` in a lattice. -/
def latticeCoords? (s : SetView) (element : Nat) : Option (List Nat) :=
  s.extents.map fun e => Lattice.coords e.dims element

/-- The stored number of the lattice element at `coords`. -/
def latticeId? (s : SetView) (coords : List Nat) : Option Nat :=
  s.extents.bind fun e => (Lattice.id? e.dims coords).map Word.low32

/-- A set is homogeneous if it has an endpoint position and all positions refer to one set. -/
theorem isHomogeneous_iff {s : SetView} :
    s.isHomogeneous = true ↔
      s.cardinality ≠ 0 ∧ ∀ a ∈ s.endpointSets, ∀ b ∈ s.endpointSets, a = b := by
  unfold isHomogeneous cardinality
  cases s.endpointSets with
  | nil => simp
  | cons first rest =>
    have split : ∀ a, a ∈ first :: rest ↔ a = first ∨ a ∈ rest := fun a => List.mem_cons
    constructor
    · intro h
      have same : ∀ a ∈ first :: rest, a = first := fun a ha =>
        ((split a).1 ha).elim (fun h => h) fun ha => of_decide_eq_true (List.all_eq_true.1 h a ha)
      exact ⟨Nat.succ_ne_zero _, fun a ha b hb => (same a ha).trans (same b hb).symm⟩
    · rintro ⟨-, h⟩
      exact List.all_eq_true.2 fun a ha =>
        decide_eq_true (h a ((split a).2 (.inr ha)) first ((split first).2 (.inl rfl)))

end SetView

end MeshPath
