import MeshPath.Mesh.Error
import MeshPath.Mesh.SetView

/-!
# Growing sets

A `MeshSet` is a set under construction: a vertex set, an edge set whose elements connect one
element of each of a fixed list of sets, or a periodic lattice, whose elements are fixed.

* `vertexSet`, `edgeSet`, `lattice`: a new set.
* `add`, `addEdge`: one more element. Elements are numbered `0, 1, 2, …`, and a refused element
  leaves the set as it was.
* `addVertices`, `addEdges`: several elements. What was added before a refusal stays.
-/

namespace MeshPath

/-- A set under construction. -/
structure MeshSet extends SetView where
  /-- The name that the set behind each endpoint position had when this set was made. -/
  endpointNames : List String
deriving DecidableEq

namespace MeshSet

/-- A vertex set without elements. -/
def vertexSet (id : SetId) (name : String) : MeshSet where
  id := id
  name := name
  size := 0
  endpointSets := []
  endpoints := #[]
  extents := none
  endpointNames := []

/-- An edge set without elements, over one of the sets `targets` for each endpoint position. -/
def edgeSet (id : SetId) (name : String) (targets : List MeshSet) : MeshSet :=
  { vertexSet id name with
    endpointSets := targets.map (·.id)
    endpointNames := targets.map (·.name) }

/-- A lattice with the extents `dims`. -/
def lattice (id : SetId) (name : String) (dims : List Nat) : Except MeshError MeshSet :=
  match Lattice.Extents.ofList? dims with
  | none => .error (.invalidDimensions dims)
  | some extents => .ok { vertexSet id name with size := extents.size, extents := some extents }

/-- The same set under another name. -/
def rename (s : MeshSet) (name : String) : MeshSet := { s with name := name }

/-- One more element, which follows the ends `ends`. -/
def push (s : MeshSet) (ends : List Nat) : ElementRef × MeshSet :=
  (⟨s.id, Word.low32 s.size⟩,
    { s with size := s.size + 1, endpoints := s.endpoints ++ ends.toArray })

/-- Adds a vertex. -/
def add (s : MeshSet) : Except MeshError (ElementRef × MeshSet) :=
  if s.endpointSets ≠ [] then .error (.notAVertexSet s.name)
  else if s.extents.isSome then .error (.fixedLattice s.name)
  else .ok (s.push [])

/-- The first end that does not belong to the set of its position, counted from `position`,
together with that position and the set it should belong to. -/
def misplacedEnd? : Nat → List SetId → List ElementRef → Option (Nat × SetId × ElementRef)
  | position, expected :: sets, e :: ends =>
    if e.set = expected then misplacedEnd? (position + 1) sets ends
    else some (position, expected, e)
  | _, _, _ => none

/-- Adds an edge with the ends `ends`, one for each endpoint position. -/
def addEdge (s : MeshSet) (ends : List ElementRef) : Except MeshError (ElementRef × MeshSet) :=
  if s.endpointSets = [] then .error (.notAnEdgeSet s.name)
  else if ends.length ≠ s.cardinality then
    .error (.endpointCount s.name s.cardinality ends.length)
  else match misplacedEnd? 0 s.endpointSets ends with
    | some (position, expected, e) =>
      .error (.endpointSetMismatch s.name position expected e.set)
    | none => .ok (s.push (ends.map (·.ident)))

/-- Takes one `step` for each item. The first refusal ends the run, and the set keeps the
elements added before it. -/
def grow {α : Type} (step : α → MeshSet → Except MeshError (ElementRef × MeshSet)) :
    List α → MeshSet → Except MeshError (List ElementRef) × MeshSet
  | [], s => (.ok [], s)
  | a :: as, s =>
    match step a s with
    | .error e => (.error e, s)
    | .ok (r, s) =>
      match grow step as s with
      | (.error e, s) => (.error e, s)
      | (.ok rs, s) => (.ok (r :: rs), s)

/-- Adds `n` vertices. -/
def addVertices (s : MeshSet) (n : Nat) : Except MeshError (List ElementRef) × MeshSet :=
  s.grow (fun _ => add) (List.replicate n ())

/-- Adds one edge for each list of ends. -/
def addEdges (s : MeshSet) (rows : List (List ElementRef)) :
    Except MeshError (List ElementRef) × MeshSet :=
  s.grow (fun ends s => s.addEdge ends) rows

/-- The element stored under `ident`. -/
def element? (s : MeshSet) (ident : Nat) : Option ElementRef :=
  if ident < s.size then some ⟨s.id, ident⟩ else none

/-- All elements in the order of their stored numbers. -/
def elements (s : MeshSet) : List ElementRef :=
  (List.range (Word.low32 s.size)).map fun ident => ⟨s.id, ident⟩

/-- The stored numbers of the ends of an element. Only the number of the element counts, not its
set. -/
def endpointsOf (s : MeshSet) (e : ElementRef) : List Nat := s.ends e.ident

/-- The name of the set behind endpoint `position`. -/
def endpointSetName? (s : MeshSet) (position : Nat) : Option String := s.endpointNames[position]?

/-- The element of a lattice at `coords`. -/
def latticeElement (s : MeshSet) (coords : List Nat) : Except MeshError ElementRef :=
  match s.extents with
  | none => .error (.notALattice s.name)
  | some extents =>
    match Lattice.id? extents.dims coords with
    | none => .error (.coordinateOutOfRange coords extents.dims)
    | some id => .ok ⟨s.id, Word.low32 id⟩

end MeshSet

end MeshPath
