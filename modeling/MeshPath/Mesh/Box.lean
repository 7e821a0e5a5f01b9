import MeshPath.Mesh.MeshSet

/-!
# Box meshes

A `Box` is a block of `nx * ny * nz` vertices, numbered with `x` varying fastest. `createBox` adds
such a block to a vertex set and connects the vertices that are neighbours along an axis by edges:
first all edges along `x`, then along `y`, then along `z`, each group in the order of its lower
vertices.
-/

namespace MeshPath

/-- A block of vertices. -/
structure Box where
  /-- The number of vertices along `x`. -/
  nx : Nat
  /-- The number of vertices along `y`. -/
  ny : Nat
  /-- The number of vertices along `z`. -/
  nz : Nat
  /-- The vertices, `x` varying fastest. -/
  vertices : Array ElementRef
deriving DecidableEq

namespace Box

/-- The vertex at `(x, y, z)`, if it lies in the box. -/
def at? (b : Box) (x y z : Nat) : Option ElementRef :=
  if x < b.nx ∧ y < b.ny ∧ z < b.nz then b.vertices[x + b.nx * (y + b.ny * z)]? else none

/-- The pairs of vertices of the box that are `(dx, dy, dz)` apart, in the order of the first. -/
def pairs (b : Box) (dx dy dz : Nat) : List (List ElementRef) :=
  (List.range (b.nx * b.ny * b.nz)).filterMap fun k =>
    -- Vertex `k` of the box has these coordinates.
    let x := k % b.nx
    let y := k / b.nx % b.ny
    let z := k / b.nx / b.ny
    (b.at? x y z).bind fun low => (b.at? (x + dx) (y + dy) (z + dz)).map fun high => [low, high]

/-- The ends of all edges of the box, axis by axis. -/
def axisPairs (b : Box) : List (List ElementRef) :=
  b.pairs 1 0 0 ++ b.pairs 0 1 0 ++ b.pairs 0 0 1

end Box

/-- The outcome of `createBox`: the box or the first refusal, and the two sets afterwards. -/
structure BoxOutcome where
  /-- The box, or the refusal that ended its construction. -/
  result : Except MeshError Box
  /-- The vertex set afterwards. -/
  vertices : MeshSet
  /-- The edge set afterwards. -/
  edges : MeshSet

/-- Adds a block of vertices to `vertices` and its edges to `edges`. What was added before a
refusal stays. -/
def createBox (vertices edges : MeshSet) (nx ny nz : Nat) : BoxOutcome :=
  match vertices.addVertices (nx * ny * nz) with
  | (.error e, vertices) => ⟨.error e, vertices, edges⟩
  | (.ok created, vertices) =>
    let box : Box := ⟨nx, ny, nz, created.toArray⟩
    match edges.addEdges box.axisPairs with
    | (.error e, edges) => ⟨.error e, vertices, edges⟩
    | (.ok _, edges) => ⟨.ok box, vertices, edges⟩

end MeshPath
