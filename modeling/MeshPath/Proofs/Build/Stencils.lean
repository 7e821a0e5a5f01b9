import Mathlib.Algebra.BigOperators.Group.Finset.Basic
import MeshPath.Proofs.Build.Bounds
import MeshPath.Proofs.Lattice.Action

/-!
# Indices of stencils

Under a stencil every element of a lattice has one neighbour for each offset, and it is a neighbour
as often. Both are counted with repetitions: on a short axis, different offsets may lead to one
element.

* `Link.sourcesAt`: the elements that a stencil leads from. `Link.count_sourcesAt`: it leads from
  each of them as often as it is listed.
* `Link.count_flatMap_neighborsAt`: every element is as often a neighbour as there are offsets.
* `exists_build_stencil`, `build_stencil`: the indices of a stencil, from both ends.
-/

namespace MeshPath

theorem sum_map_range (n : Nat) (f : Nat → Nat) :
    ((List.range n).map f).sum = ∑ a ∈ Finset.range n, f a := rfl

/-- The counts of all numbers below `n` in a list of such numbers add up to its length. -/
theorem sum_count_range {n : Nat} {l : List Nat} (h : ∀ a ∈ l, a < n) :
    ((List.range n).map fun a => l.count a).sum = l.length := by
  have hsum : ∑ a ∈ Finset.range n, (l : Multiset Nat).count a = l.length :=
    Multiset.sum_count_eq_card fun a ha => Finset.mem_range.2 (h a ha)
  rw [sum_map_range]
  simpa using hsum

namespace Link

variable {lattice : SetView} {sizes : SetId → Nat} {s : Stencil} {dims : List Nat} {i j : Nat}

/-- The elements from which the offsets lead to `j`, in the order of the offsets. -/
def sourcesAt (lattice : SetView) (s : Stencil) (j : Nat) : List Nat :=
  s.offsets.map fun o => Lattice.shift (lattice.dimensions?.getD []) j (o.map fun c => -c)

/-- The inverse stencil leads from an element to those that the stencil leads from. -/
theorem neighborsAt_inverse (hs : s.Negatable) :
    neighborsAt lattice s.inverse j = sourcesAt lattice s j := by
  rw [neighborsAt, Stencil.offsets_inverse hs, List.map_map]
  rfl

section Regular

variable (hregular : lattice.Regular sizes) (hdims : lattice.dimensions? = some dims)
  (harity : dims.length = s.arity)
include hregular hdims harity

/-- No element past the lattice is a neighbour. -/
theorem count_neighborsAt_of_le (hj : lattice.size ≤ j) : (neighborsAt lattice s i).count j = 0 :=
  List.count_eq_zero_of_not_mem fun hmem => Nat.not_lt_of_le hj
    (lt_of_mem_neighborsAt hregular.filled hregular.small hdims harity hmem)

/-- Only elements of the lattice are sources. -/
theorem lt_of_mem_sourcesAt (hi : i ∈ sourcesAt lattice s j) : i < lattice.size := by
  obtain ⟨hsize, hextents⟩ := hregular.size_eq_and_pos_and_lt hdims
  obtain ⟨o, ho, rfl⟩ := List.mem_map.1 hi
  have hlength : (o.map fun c => -c).length = dims.length := by
    rw [List.length_map, s.length_of_mem o ho, harity]
  rw [hsize, hdims]
  exact Lattice.shift_lt_prod j hlength hextents

/-- An element is as often a source of `j` as the stencil leads from it to `j`. -/
theorem count_sourcesAt (hi : i < lattice.size) (hj : j < lattice.size) :
    (sourcesAt lattice s j).count i = (neighborsAt lattice s i).count j := by
  obtain ⟨hsize, hextents⟩ := hregular.size_eq_and_pos_and_lt hdims
  rw [hsize] at hi hj
  rw [sourcesAt, neighborsAt, hdims, List.count, List.count, List.countP_map, List.countP_map]
  -- Offset by offset, the negated one leads back exactly where the offset leads forth.
  refine List.countP_congr fun o ho => ?_
  have hlength : o.length = dims.length := (s.length_of_mem o ho).trans harity.symm
  have hback := Lattice.shift_eq_iff hlength hi hj hextents
  simpa using hback.symm

/-- Over all elements of the lattice, each one is a neighbour as often as there are offsets. -/
theorem count_flatMap_neighborsAt (hj : j < lattice.size) :
    ((List.range lattice.size).flatMap (neighborsAt lattice s)).count j = s.offsets.length := by
  have hlt : ∀ i ∈ sourcesAt lattice s j, i < lattice.size := fun i hi =>
    lt_of_mem_sourcesAt hregular hdims harity hi
  calc ((List.range lattice.size).flatMap (neighborsAt lattice s)).count j
      = ((List.range lattice.size).map fun i => (neighborsAt lattice s i).count j).sum :=
        List.count_flatMap
    _ = ((List.range lattice.size).map fun i => (sourcesAt lattice s j).count i).sum := by
        refine congrArg List.sum (List.map_congr_left fun i hi => ?_)
        exact (count_sourcesAt hregular hdims harity (List.mem_range.1 hi) hj).symm
    _ = (sourcesAt lattice s j).length := sum_count_range hlt
    _ = s.offsets.length := List.length_map _

end Regular

end Link

namespace Builder

open PathTree

variable {m : Mesh} {b b' : Builder} {lattice : SetView} {s : Stencil} {dims : List Nat}

section Stencil

variable (hm : m.Reached) (hlattice : m.Holds lattice) (hsize : lattice.size < Word.span32)
  (hdims : lattice.dimensions? = some dims) (harity : dims.length = s.arity)
include hm hlattice hsize hdims harity

/-- From both ends, a stencil has an index with the rows of the link. -/
theorem exists_build_stencil (hb : b.Serves m) (x y : String) (rows : End) :
    let z : BoundExpr := .link (.stencil s) ⟨x, lattice⟩ ⟨y, lattice⟩
    ∃ built, (b.build z.toOpen rows.toNat).1 = .ok built ∧
      built.index.HasRows lattice.size (LinkKind.row (.stencil s) lattice lattice rows) := by
  intro z
  have hsets : ∀ v ∈ ([⟨x, lattice⟩, ⟨y, lattice⟩] : List BoundVar),
      m.Holds v.set ∧ v.set.size < Word.span32 := by
    simp [hlattice, hsize]
  obtain ⟨built, hok, hrows⟩ := exists_build_link hm hb (boundForm_toOpen b z) hsets
    ⟨rfl, dims, hdims, harity⟩ rows
  refine ⟨built, hok, ?_⟩
  cases rows <;> exact hrows

/-- A stencil of as many components as a lattice has dimensions is built from both ends. Read from
the first one, the row of an element lists its shifts in the order of the offsets, and every element
of the lattice occurs in the rows as often as there are offsets. Read from the second one, the rows
hold the sources, each as often as it has that sink, if the components can be negated. -/
theorem build_stencil (hb : b.Serves m) (hb' : b'.Serves m) (x y : String) :
    let z : BoundExpr := .link (.stencil s) ⟨x, lattice⟩ ⟨y, lattice⟩
    ∃ built built', (b.build z.toOpen 0).1 = .ok built ∧ (b'.build z.toOpen 1).1 = .ok built' ∧
      built.index.numElements = lattice.size ∧
      (∀ i < lattice.size, built.index.row i = s.offsets.map (Lattice.shift dims i)) ∧
      (∀ j < lattice.size, built.index.rows.flatten.count j = s.offsets.length) ∧
      (s.Negatable → ∀ i j, (built.index.row i).count j = (built'.index.row j).count i) := by
  intro z
  have hregular := (Mesh.regularSets_of_reached hm).regular _ ⟨hlattice, hsize⟩
  obtain ⟨built, hok, hrows⟩ :=
    exists_build_stencil hm hlattice hsize hdims harity hb x y .first
  obtain ⟨built', hok', hrows'⟩ :=
    exists_build_stencil hm hlattice hsize hdims harity hb' x y .second
  refine ⟨built, built', hok, hok', hrows.numElements_eq, fun i hi => ?_, fun j hj => ?_,
    fun hs i j => ?_⟩
  · rw [hrows.row_eq, if_pos hi, LinkKind.row, Link.neighborsAt, hdims, Option.getD_some]
  · rw [hrows.rows_eq hsize, ← List.flatMap_def]
    exact Link.count_flatMap_neighborsAt hregular hdims harity hj
  · rw [hrows.row_eq, hrows'.row_eq, LinkKind.row, LinkKind.row, Link.neighborsAt_inverse hs]
    -- Elements out of range have no row, and they are nowhere a sink.
    by_cases hi : i < lattice.size <;> by_cases hj : j < lattice.size
    · rw [if_pos hi, if_pos hj, Link.count_sourcesAt hregular hdims harity hi hj]
    · rw [if_pos hi, if_neg hj, List.count_nil,
        Link.count_neighborsAt_of_le hregular hdims harity (Nat.le_of_not_lt hj)]
    · rw [if_neg hi, if_pos hj, List.count_nil, List.count_eq_zero.2]
      exact fun hmem => hi (Link.lt_of_mem_sourcesAt hregular hdims harity hmem)
    · rw [if_neg hi, if_neg hj]
      rfl

end Stencil

/-- On a ring of three elements, three steps back lead where the centre leads: the row of an element
holds it twice. -/
theorem build_stencil_ringMesh :
    let s : Stencil := ⟨1, [[0], [-3], [1]], by decide, by decide⟩
    let ring := Mesh.ring.toSetView
    let z : BoundExpr := .link (.stencil s) ⟨"u", ring⟩ ⟨"v", ring⟩
    ∃ built built', ((new .standard : Builder).build z.toOpen 0).1 = .ok built ∧
      ((new .standard : Builder).build z.toOpen 1).1 = .ok built' ∧ built.index.row 0 = [0, 0, 1] ∧
      (∀ j < 3, built.index.rows.flatten.count j = 3) ∧
      ∀ i j, (built.index.row i).count j = (built'.index.row j).count i := by
  intro s ring z
  have hring : Mesh.ringMesh.Holds ring := ⟨Mesh.ring, List.mem_singleton_self _, rfl⟩
  have hdims : ring.dimensions? = some [3] := rfl
  have harity : [3].length = s.arity := rfl
  obtain ⟨built, built', hok, hok', -, hrow, hcount, hback⟩ := build_stencil
    Mesh.reached_ringMesh hring (by decide) hdims harity serves_ringMesh serves_ringMesh "u" "v"
  exact ⟨built, built', hok, hok', hrow 0 (by decide), hcount, hback (by decide)⟩

end Builder

end MeshPath
