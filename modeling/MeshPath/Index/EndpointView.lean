import MeshPath.Error
import MeshPath.Mesh.SetView

/-!
# Endpoint views

An `EndpointView` reads a homogeneous edge set as an index from its edges to their ends, without
a copy of the endpoint array: row `e` holds the ends of edge `e`.
-/

namespace MeshPath

/-- An edge set whose endpoints all lie in one set, read as an index. -/
structure EndpointView where
  /-- The edge set. -/
  edges : SetView
  /-- The endpoints lie in one set. -/
  homogeneous : edges.isHomogeneous = true
deriving DecidableEq

namespace EndpointView

/-- The view of `edges`, which has to be a homogeneous edge set. -/
def ofSet (edges : SetView) : Except PathError EndpointView :=
  if edges.cardinality = 0 then .error (.notAnEdgeSet edges.name)
  else if h : edges.isHomogeneous = true then .ok ⟨edges, h⟩
  else .error (.notHomogeneous edges.name)

/-- The number of edges. -/
def numElements (v : EndpointView) : Nat := v.edges.size

/-- The number of ends of all edges. -/
def numNeighbors (v : EndpointView) : Nat := v.edges.size * v.edges.cardinality

/-- The number of ends of each edge. -/
def rowWidth (v : EndpointView) : Nat := v.edges.cardinality

/-- The ends of edge `element`, empty where the array does not hold all of them. -/
def row (v : EndpointView) (element : Nat) : List Nat := v.edges.ends element

end EndpointView

end MeshPath
