import MeshPath.Word

/-!
# Lattice coordinates

The elements of a periodic lattice are numbered with the first dimension varying fastest:
`id = c₀ + d₀ * (c₁ + d₁ * (c₂ + …))`. This module holds that numbering over a list of extents.

* `coords dims id`: the coordinates of element `id`.
* `id? dims cs`: the element at coordinates `cs`, if they lie inside `dims`.
* `shift dims id offset`: the element reached from `id` by `offset`, wrapping periodically.
* `Extents`: the extents that a lattice can have, non-empty and all positive.

`coords` and `shift` are meant for positive extents. `coords?` and `shift?` take any extents and
refuse those in which some extent is zero, where a coordinate is not defined.
-/

namespace MeshPath.Lattice

/-- The coordinates of element `id`, one per extent. -/
def coords : List Nat → Nat → List Nat
  | [], _ => []
  | d :: ds, id => id % d :: coords ds (id / d)

/-- The element at coordinates `cs`, or `none` if their number differs from the number of
dimensions or one of them lies outside its extent. -/
def id? : List Nat → List Nat → Option Nat
  | [], [] => some 0
  | d :: ds, c :: cs => (id? ds cs).bind fun rest => if c < d then some (c + d * rest) else none
  | _, _ => none

/-- Coordinate `c` moved by `o` along a periodic axis of extent `d`. Coordinate and extent are
taken as signed words, and the result is the non-negative remainder. -/
def wrap (d c : Nat) (o : Int) : Nat :=
  ((Word.signed64 c + o) % Word.signed64 d).toNat

/-- The element reached from `id` by `offset`, wrapping in every dimension. Only the dimensions
that `offset` covers count. -/
def shift : List Nat → Nat → List Int → Nat
  | d :: ds, id, o :: os => wrap d (id % d) o + d * shift ds (id / d) os
  | _, _, _ => 0

/-- The coordinates of `id` over any extents, `none` when some extent is zero. -/
def coords? (dims : List Nat) (id : Nat) : Option (List Nat) :=
  if 0 ∈ dims then none else some (coords dims id)

/-- The shift of `id` over any extents, `none` when some extent is zero. -/
def shift? (dims : List Nat) (id : Nat) (offset : List Int) : Option Nat :=
  if 0 ∈ dims then none else some (shift dims id offset)

@[simp]
theorem length_coords (dims : List Nat) (id : Nat) : (coords dims id).length = dims.length := by
  induction dims generalizing id with
  | nil => rfl
  | cons d ds ih => simp [coords, ih]

/-- Where an extent fits a signed word, a wrapped coordinate is the sum modulo the extent. -/
theorem wrap_eq_emod {d c : Nat} (o : Int) (hd : d < Word.span64 / 2)
    (hc : c < Word.span64 / 2) :
    wrap d c o = (((c : Int) + o) % (d : Int)).toNat := by
  rw [wrap, Word.signed64_eq_self hd, Word.signed64_eq_self hc]

/-- The extents of a lattice, fastest-varying dimension first. -/
structure Extents where
  /-- One extent per dimension. -/
  dims : List Nat
  /-- A lattice has at least one dimension. -/
  dims_ne_nil : dims ≠ []
  /-- Every dimension has at least one coordinate. -/
  zero_notMem : 0 ∉ dims
deriving DecidableEq

namespace Extents

/-- The extents `dims`, if a lattice can have them. -/
def ofList? (dims : List Nat) : Option Extents :=
  if h : dims ≠ [] ∧ 0 ∉ dims then some ⟨dims, h.1, h.2⟩ else none

/-- The number of elements of a lattice with these extents. -/
def size (e : Extents) : Nat := e.dims.foldr (· * ·) 1

/-- The extents of a lattice pass the check that they were made by. -/
theorem ofList?_dims (e : Extents) : ofList? e.dims = some e := by
  simp [ofList?, e.dims_ne_nil, e.zero_notMem]

end Extents

end MeshPath.Lattice
