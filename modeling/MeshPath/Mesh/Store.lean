import MeshPath.Mesh.Box

/-!
# Meshes

A `Mesh` holds all sets under construction and numbers them `1, 2, 3, …` in the order in which
they are made. Sets refer to each other by these numbers.

* `Mesh.addVertexSet`, `Mesh.addEdgeSet`, `Mesh.addLattice`: a new set under the next number.
* `Mesh.reserve`: the next number for a set that is kept elsewhere.
* `Mesh.find?`, `Mesh.put`: look a set up, store its next state. A set is never removed.
* `Mesh.grow?`: one step of construction on a stored set.
-/

namespace MeshPath

/-- The sets of a mesh. -/
structure Mesh where
  /-- The sets in the order in which they were made. -/
  sets : List MeshSet
  /-- How many numbers have been given out. -/
  numbered : Nat

namespace Mesh

/-- The mesh without sets. -/
def empty : Mesh := ⟨[], 0⟩

/-- The identity that the next set takes. -/
def nextId (m : Mesh) : SetId := ⟨m.numbered + 1⟩

/-- Gives out the next number without storing a set. -/
def reserve (m : Mesh) : SetId × Mesh := (m.nextId, { m with numbered := m.numbered + 1 })

/-- Stores a new set, which carries the next number. -/
def insert (m : Mesh) (s : MeshSet) : MeshSet × Mesh := (s, ⟨m.sets ++ [s], m.numbered + 1⟩)

/-- A new vertex set. -/
def addVertexSet (m : Mesh) (name : String) : MeshSet × Mesh :=
  m.insert (MeshSet.vertexSet m.nextId name)

/-- A new edge set over the sets `targets`. -/
def addEdgeSet (m : Mesh) (name : String) (targets : List MeshSet) : MeshSet × Mesh :=
  m.insert (MeshSet.edgeSet m.nextId name targets)

/-- A new lattice. A refused lattice takes no number. -/
def addLattice (m : Mesh) (name : String) (dims : List Nat) : Except MeshError (MeshSet × Mesh) :=
  (MeshSet.lattice m.nextId name dims).map m.insert

/-- The set of identity `id`. -/
def find? (m : Mesh) (id : SetId) : Option MeshSet := m.sets.find? (·.id = id)

/-- Stores the next state of the set that carries the identity of `s`. -/
def put (m : Mesh) (s : MeshSet) : Mesh :=
  { m with sets := m.sets.map fun t => if t.id = s.id then s else t }

/-- Runs a step of construction on the set of identity `id` and stores the state it leaves. -/
def grow? {α : Type} (m : Mesh) (id : SetId)
    (step : MeshSet → Except MeshError α × MeshSet) : Option (Except MeshError α × Mesh) :=
  (m.find? id).map fun s =>
    let (result, s) := step s
    (result, m.put s)

/-- Builds a box over two different stored sets and stores the states it leaves. -/
def createBox? (m : Mesh) (vertices edges : SetId) (nx ny nz : Nat) :
    Option (Except MeshError Box × Mesh) :=
  (m.find? vertices).bind fun v => (m.find? edges).map fun e =>
    let outcome := createBox v e nx ny nz
    (outcome.result, (m.put outcome.edges).put outcome.vertices)

end Mesh

end MeshPath
