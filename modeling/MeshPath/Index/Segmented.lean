import MeshPath.Error
import MeshPath.Index.Row

/-!
# Segmented indices

A `Segmented` index stores its rows one after another in one array of sinks, with an array of
offsets that says where each row starts and ends. If all rows have one length, it records it.

* `Segmented.ofRows`: the index with the given rows.
* `Segmented.pack`: the index with the rows that a list of entries spells out.
* `Segmented.ofWidth`: the index whose rows are the consecutive pieces of an array of sinks.
* `Segmented.row`: the row of an element, empty out of range.
-/

namespace MeshPath

/-- An index in compressed rows. -/
structure Segmented where
  /-- Where each row starts, and after the last row where it ends. -/
  coords : Array Nat
  /-- The sinks of all rows. -/
  sinks : Array Nat
  /-- The length of every row, if there is a row and all have one length. -/
  rowWidth : Option Nat
deriving DecidableEq

namespace Segmented

/-- The offsets of rows that start at `start`, with the end of the last row. -/
def offsets : Nat → List (List Nat) → List Nat
  | start, [] => [start]
  | start, row :: rows => start :: offsets (start + row.length) rows

/-- The length of every row, if there is a row and all have one length. -/
def uniformWidth : List (List Nat) → Option Nat
  | [] => none
  | row :: rows => if rows.all (·.length = row.length) then some row.length else none

/-- The index with the given rows, in the order in which they are given. -/
def ofRows (rows : List (List Nat)) : Segmented where
  coords := (offsets 0 rows).toArray
  sinks := rows.flatten.toArray
  rowWidth := uniformWidth rows

/-- The index with the given rows, each sorted if `sorted` holds. -/
def fromRows (rows : List (List Nat)) (sorted : Bool) : Segmented :=
  ofRows (if sorted then rows.map Row.sort else rows)

/-- Appends the sinks of one entry to the row of its element, which has to be one of the rows. -/
def deposit (rows : Array (List Nat)) (entry : Nat × List Nat) :
    Except PathError (Array (List Nat)) :=
  if entry.1 < rows.size then .ok (rows.modify entry.1 (· ++ entry.2))
  else .error (.elementOutOfRange entry.1 rows.size)

/-- The index over `n` elements with the rows that `entries` spell out, each sorted if `sorted`
holds. The entries are deposited one after another, and the first one for an element outside the
index is an error. -/
def pack (n : Nat) (entries : List (Nat × List Nat)) (sorted : Bool) :
    Except PathError Segmented := do
  let rows ← entries.foldlM deposit (Array.replicate n [])
  return fromRows rows.toList sorted

/-- The index over `n` elements whose rows are the consecutive pieces of length `width` of
`sinks`. -/
def ofWidth (n width : Nat) (sinks : List Nat) : Segmented where
  coords := ((List.range (n + 1)).map (· * width)).toArray
  sinks := sinks.toArray
  rowWidth := if 0 < n then some width else none

/-- The number of elements. -/
def numElements (s : Segmented) : Nat := s.coords.size - 1

/-- The number of sinks of all rows. -/
def numNeighbors (s : Segmented) : Nat := s.sinks.size

/-- The row of `element`, empty out of range. -/
def row (s : Segmented) (element : Nat) : List Nat :=
  match s.coords[element]?, s.coords[element + 1]? with
  | some start, some stop => (s.sinks.extract start stop).toList
  | _, _ => []

/-- There is one offset more than there are rows: where the last row stops. -/
@[simp]
theorem length_offsets (start : Nat) (rows : List (List Nat)) :
    (offsets start rows).length = rows.length + 1 := by
  induction rows generalizing start with
  | nil => rfl
  | cons row rows ih => simp [offsets, ih]

/-- An index has one element for each row that it was made from. -/
@[simp]
theorem numElements_ofRows (rows : List (List Nat)) :
    (ofRows rows).numElements = rows.length := by
  simp [numElements, ofRows]

/-- An index has as many neighbours as its rows have members. -/
@[simp]
theorem numNeighbors_ofRows (rows : List (List Nat)) :
    (ofRows rows).numNeighbors = rows.flatten.length := by
  simp [numNeighbors, ofRows]

@[simp]
theorem numElements_ofWidth (n width : Nat) (sinks : List Nat) :
    (ofWidth n width sinks).numElements = n := by
  simp [numElements, ofWidth]

end Segmented

end MeshPath
