import MeshPath.Build.Options
import MeshPath.Expr.Tree
import MeshPath.Index.PathIndex

/-!
# Realized links

A link is realized from the sets at its ends, read with one of them as the source of the rows.

* From edges to vertices, row `e` lists the ends of edge `e` that lie in the vertex set. If all of
  them do, the row can be read from the endpoint array itself.
* From vertices to edges, row `v` lists the edges with an end `v`, once per such end.
* Under a stencil, row `u` lists the shifts of `u` by the offsets, in the order of the stencil.

The endpoint array of a set from outside the library may be too short or name vertices that do not
exist; the ends are read edge by edge and position by position, and the first fault is reported.
-/

namespace MeshPath.Link

/-- The lists that `f` gives for `start`, `start + 1`, … (`count` of them), one after another. The
first failure ends the run. -/
def gather {ε α : Type} (f : Nat → Except ε (List α)) (start : Nat) : Nat → Except ε (List α)
  | 0 => .ok []
  | count + 1 => do
    let head ← f start
    let tail ← gather f (start + 1) count
    return head ++ tail

/-- The end at `position` of the edge `element`. -/
def readEnd (edges : SetView) (element position : Nat) : Except Failure Nat :=
  match edges.endpoint? element position with
  | some v => .ok v
  | none => .error .missingEnd

/-- The endpoint positions of `edges` that lie in `vertices`. There has to be one. -/
def incidentPositions (edges vertices : SetView) : Except PathError (List Nat) :=
  if edges.cardinality = 0 then .error (.notAnEdgeSet edges.name)
  else
    let positions := (List.range edges.cardinality).filter fun p =>
      edges.endpointSet? p = some vertices.id
    if positions = [] then .error (.endpointSetMismatch edges.name vertices.name)
    else .ok positions

/-- From the edges of `edges` to their ends in `vertices`. -/
def edgesToVertices (options : BuildOptions) (edges vertices : SetView) :
    Except Failure PathIndex := do
  let positions ← Failure.ofPath (incidentPositions edges vertices)
  if positions.length = edges.cardinality ∧ options.shareEndpoints = true then
    -- Every position lies in one set, so the edge set is homogeneous.
    let view ← Failure.ofPath (EndpointView.ofSet edges)
    return .endpoints view
  else
    let sinks ← gather (fun e => positions.mapM (readEnd edges e)) 0 (Word.low32 edges.size)
    return .segmented (.ofWidth edges.size positions.length sinks)

/-- The edge `element` as the entry for its end at `position`, which has to lie in `vertices`. -/
def incidence (vertices edges : SetView) (element position : Nat) :
    Except Failure (Nat × List Nat) := do
  let v ← readEnd edges element position
  if v < vertices.size then return (v, [element])
  else throw (.rejected (.elementOutOfRange v vertices.size))

/-- From the elements of `vertices` to the edges of `edges` that have them as an end. -/
def verticesToEdges (options : BuildOptions) (vertices edges : SetView) :
    Except Failure PathIndex := do
  let positions ← Failure.ofPath (incidentPositions edges vertices)
  let entries ← gather (fun e => positions.mapM (incidence vertices edges e)) 0
    (Word.low32 edges.size)
  let rows ← Failure.ofPath (Segmented.pack vertices.size entries options.sortRows)
  return .segmented rows

/-- From the elements of a lattice to their neighbours under a stencil. Both ends have to be the
same lattice, with one dimension for each component of the offsets. -/
def stencilNeighbors (source sink : SetView) (s : Stencil) : Except PathError PathIndex :=
  match source.extents with
  | none => .error (.notALattice source.name)
  | some extents =>
    if source.id ≠ sink.id then .error (.gridMismatch source.name sink.name)
    else match s.offsets.find? (·.length ≠ extents.dims.length) with
      | some bad => .error (.stencilArity source.name bad extents.dims.length bad.length)
      | none =>
        let sinks := (List.range source.size).flatMap fun v =>
          s.offsets.map fun o => Word.low32 (Lattice.shift extents.dims v o)
        .ok (.segmented (.ofWidth source.size s.offsets.length sinks))

/-- The relation of a link between the sets `source` and `sink`, read with the end `rows` as the
source of the rows. -/
def realize (options : BuildOptions) (kind : LinkKind) (source sink : SetView) (rows : End) :
    Except Failure PathIndex :=
  match kind, rows with
  | .edgeToVertex, .first => edgesToVertices options source sink
  | .edgeToVertex, .second => verticesToEdges options sink source
  | .vertexToEdge, .first => verticesToEdges options source sink
  | .vertexToEdge, .second => edgesToVertices options sink source
  | .stencil s, .first => Failure.ofPath (stencilNeighbors source sink s)
  | .stencil s, .second => Failure.ofPath (stencilNeighbors sink source s.inverse)

end MeshPath.Link
