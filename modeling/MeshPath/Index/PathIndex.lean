import MeshPath.Index.EndpointView
import MeshPath.Index.Segmented
import MeshPath.Word

/-!
# Path indices

A `PathIndex` maps every source element to the list of its sinks, its *row*. It is realized in one
of two layouts, compressed rows or a view of an endpoint array; the rows are what counts.

* `numElements`, `numNeighbors`, `rowWidth`, `row`: the common view of both layouts.
* `neighbors?`: the row of an element that has to be in range.
* `elements`: the source elements, whose stored numbers have 32 bits.
* `text`, `summary`: the written forms of an index.
* `Neighbors`: a row that is being read.
-/

namespace MeshPath

/-- A realized relation. -/
inductive PathIndex where
  /-- Rows stored one after another. -/
  | segmented (rows : Segmented)
  /-- Rows read from an endpoint array. -/
  | endpoints (view : EndpointView)
deriving DecidableEq

namespace PathIndex

/-- The compressed rows of an index in that layout. -/
def segmented? : PathIndex → Option Segmented
  | segmented rows => some rows
  | endpoints _ => none

/-- The endpoint view of an index in that layout. -/
def endpoints? : PathIndex → Option EndpointView
  | segmented _ => none
  | endpoints view => some view

/-- The number of source elements. -/
def numElements : PathIndex → Nat
  | segmented rows => rows.numElements
  | endpoints view => view.numElements

/-- The number of sinks of all rows. -/
def numNeighbors : PathIndex → Nat
  | segmented rows => rows.numNeighbors
  | endpoints view => view.numNeighbors

/-- The common length of the rows, where the layout records one. -/
def rowWidth : PathIndex → Option Nat
  | segmented rows => rows.rowWidth
  | endpoints view => some view.rowWidth

/-- The sinks of `element` in index order, empty out of range. -/
def row : PathIndex → Nat → List Nat
  | segmented rows, element => rows.row element
  | endpoints view, element => view.row element

/-- The number of sinks of `element`. -/
def numNeighborsOf (x : PathIndex) (element : Nat) : Nat := (x.row element).length

/-- The sinks of `element`, which has to be in range. -/
def neighbors? (x : PathIndex) (element : Nat) : Except PathError (List Nat) :=
  if element < x.numElements then .ok (x.row element)
  else .error (.elementOutOfRange element x.numElements)

/-- The source elements in ascending order, up to the stored number of the last one. -/
def elements (x : PathIndex) : List Nat := List.range (Word.low32 x.numElements)

/-- The rows of all source elements. -/
def rows (x : PathIndex) : List (List Nat) := x.elements.map x.row

/-- The written form of an index: the layout, then a line for each source element. -/
def text (x : PathIndex) : String :=
  let header := match x with
    | segmented _ => "SegmentedPathIndex:\n"
    | endpoints view => s!"SetEndpointPathIndex({view.edges.name}):\n"
  let line (element : Nat) : String :=
    let sinks := (x.row element).map fun n => " " ++ toString n
    "  " ++ toString element ++ ":" ++ String.join sinks ++ "\n"
  header ++ String.join (x.elements.map line)

/-- The size and the layout of an index in writing. -/
def summary (x : PathIndex) : String :=
  "PathIndex \x7b num_elements: " ++ toString x.numElements ++ ", num_neighbors: " ++
    toString x.numNeighbors ++ ", segmented: " ++ toString x.segmented?.isSome ++ " \x7d"

end PathIndex

/-- A row that is being read from its first sink to its last. -/
structure Neighbors where
  /-- The sinks that have not been read. -/
  rest : List Nat
deriving DecidableEq

namespace Neighbors

/-- Starts to read the row of `element`. -/
def ofRow (x : PathIndex) (element : Nat) : Neighbors := ⟨x.row element⟩

/-- Reads the next sink, if there is one. -/
def next (n : Neighbors) : Option Nat × Neighbors :=
  match n.rest with
  | [] => (none, n)
  | sink :: rest => (some sink, ⟨rest⟩)

/-- Reads `k` times. -/
def take : Nat → Neighbors → List (Option Nat) × Neighbors
  | 0, n => ([], n)
  | k + 1, n =>
    let (sink, n) := n.next
    let (sinks, n) := take k n
    (sink :: sinks, n)

/-- The number of sinks that have not been read. -/
def length (n : Neighbors) : Nat := n.rest.length

end Neighbors

end MeshPath
