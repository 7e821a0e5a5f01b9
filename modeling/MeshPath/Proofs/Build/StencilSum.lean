import MeshPath.Proofs.Build.Chain
import MeshPath.Proofs.Lattice.Coordinates

/-!
# Two stencils in a row

Two steps on a lattice, one under each stencil, lead where the sums of their offsets lead. The
components are added as integers, and many sums may lead to one element.

* `exists_neighbor_iff`: two steps, as one step by the sum of two offsets.
* `rel_stencilChain_iff`: the relation of the two stencils from both ends, in coordinates.
* `build_stencilChain`: its index.
-/

namespace MeshPath

open PathTree

variable {lattice : SetView} {sizes : SetId → Nat} {s t : Stencil} {dims : List Nat} {i j : Nat}

section Regular

variable (hregular : lattice.Regular sizes) (hdims : lattice.dimensions? = some dims)
include hregular hdims

/-- Two steps from an element are one step by the sum of two offsets. -/
theorem exists_neighbor_iff (hs : s.arity = dims.length) (ht : t.arity = dims.length)
    (hi : i < lattice.size) :
    (∃ k, Neighbor lattice s i k ∧ Neighbor lattice t k j) ↔
      ∃ o ∈ s.offsets, ∃ p ∈ t.offsets,
        Lattice.shift dims i (List.zipWith (· + ·) o p) = j := by
  obtain ⟨hsize, hextents⟩ := hregular.size_eq_and_pos_and_lt hdims
  have hstep : ∀ o ∈ s.offsets, ∀ p ∈ t.offsets,
      Lattice.shift dims (Lattice.shift dims i o) p =
        Lattice.shift dims i (List.zipWith (· + ·) o p) := fun o ho p hp =>
    Lattice.shift_shift i ((s.length_of_mem o ho).trans hs) ((t.length_of_mem p hp).trans ht)
      hextents
  constructor
  · rintro ⟨k, ⟨-, dims', hdims', o, ho, rfl⟩, -, dims'', hdims'', p, hp, rfl⟩
    cases hdims.symm.trans hdims'
    cases hdims.symm.trans hdims''
    exact ⟨o, ho, p, hp, (hstep o ho p hp).symm⟩
  -- The element between the two steps is one of the lattice.
  · rintro ⟨o, ho, p, hp, rfl⟩
    have hk : Lattice.shift dims i o < lattice.size := by
      rw [hsize]
      exact Lattice.shift_lt_prod i ((s.length_of_mem o ho).trans hs) hextents
    exact ⟨_, ⟨hi, dims, hdims, o, ho, rfl⟩, hk, dims, hdims, p, hp, hstep o ho p hp⟩

end Regular

namespace PathTree

/-- Two steps on a lattice, one under each stencil. -/
def stencilChain (s t : Stencil) (lattice : SetView) (x q y : String) : BoundExpr :=
  chain (.stencil s) (.stencil t) ⟨x, lattice⟩ ⟨q, lattice⟩ ⟨y, lattice⟩

/-- The sum of two offsets as it leads away from the end `rows`: from the second end, both of them
are taken back. -/
def offsetSum (rows : End) (o p : List Int) : List Int :=
  List.zipWith (rows.pick (fun a b => a + b) fun a b => -a - b) o p

theorem length_offsetSum (rows : End) {o p : List Int} {n : Nat} (ho : o.length = n)
    (hp : p.length = n) : (offsetSum rows o p).length = n := by
  rw [offsetSum, List.length_zipWith, ho, hp, Nat.min_self]

/-- From the second end, the steps are taken back in the opposite order. -/
theorem exists_offsetSum_iff (hs : s.Negatable) (ht : t.Negatable) (rows : End)
    (f : List Int → Prop) :
    (∃ o ∈ (rows.pick s t.inverse).offsets, ∃ p ∈ (rows.pick t s.inverse).offsets,
        f (List.zipWith (· + ·) o p)) ↔
      ∃ o ∈ s.offsets, ∃ p ∈ t.offsets, f (offsetSum rows o p) := by
  cases rows with
  | first => exact Iff.rfl
  | second =>
    have hback : ∀ o p : List Int,
        List.zipWith (· + ·) (p.map fun c => -c) (o.map fun c => -c) =
          offsetSum .second o p := by
      intro o p
      rw [List.zipWith_map, List.zipWith_comm, offsetSum]
      refine congrArg (fun g => List.zipWith g o p) (funext fun a => funext fun b => ?_)
      show -b + -a = -a - b
      omega
    simp only [End.pick, Stencil.offsets_inverse hs, Stencil.offsets_inverse ht]
    constructor
    · rintro ⟨_, hnear, _, hfar, h⟩
      obtain ⟨p, hp, rfl⟩ := List.mem_map.1 hnear
      obtain ⟨o, ho, rfl⟩ := List.mem_map.1 hfar
      rw [hback] at h
      exact ⟨o, ho, p, hp, h⟩
    · rintro ⟨o, ho, p, hp, h⟩
      refine ⟨_, List.mem_map_of_mem hp, _, List.mem_map_of_mem ho, ?_⟩
      rw [hback]
      exact h

/-- From both ends, two stencils in a row lead to the elements that the sums of their offsets
displace to, if their components can be negated. -/
theorem rel_stencilChain_iff (hregular : lattice.Regular sizes)
    (hdims : lattice.dimensions? = some dims) (hs : s.arity = dims.length)
    (ht : t.arity = dims.length) (hs' : s.Negatable) (ht' : t.Negatable) {x q y : String}
    (h : (stencilChain s t lattice x q y).WellFormed) (rows : End) (hi : i < lattice.size) :
    (stencilChain s t lattice x q y).Rel rows i j ↔
      j < lattice.size ∧ ∃ o ∈ s.offsets, ∃ p ∈ t.offsets,
        Lattice.Displaces dims i (offsetSum rows o p) j := by
  obtain ⟨hsize, hextents⟩ := hregular.size_eq_and_pos_and_lt hdims
  have hnear : (rows.pick s t.inverse).arity = dims.length := by
    cases rows
    · exact hs
    · exact ht
  have hfar : (rows.pick t s.inverse).arity = dims.length := by
    cases rows
    · exact ht
    · exact hs
  have hlength : ∀ o ∈ s.offsets, ∀ p ∈ t.offsets, (offsetSum rows o p).length = dims.length :=
    fun o ho p hp =>
      length_offsetSum rows ((s.length_of_mem o ho).trans hs) ((t.length_of_mem p hp).trans ht)
  calc (stencilChain s t lattice x q y).Rel rows i j
      ↔ ∃ k, Neighbor lattice (rows.pick s t.inverse) i k ∧
          Neighbor lattice (rows.pick t s.inverse) k j := by
        rw [stencilChain, rel_chain_iff h]
        cases rows <;> exact Iff.rfl
    _ ↔ ∃ o ∈ s.offsets, ∃ p ∈ t.offsets, Lattice.shift dims i (offsetSum rows o p) = j := by
        rw [exists_neighbor_iff hregular hdims hnear hfar hi,
          exists_offsetSum_iff hs' ht' rows fun o => Lattice.shift dims i o = j]
    _ ↔ _ := by
        constructor
        · rintro ⟨o, ho, p, hp, rfl⟩
          refine ⟨?_, o, ho, p, hp, Lattice.displaces_shift hextents i _⟩
          rw [hsize]
          exact Lattice.shift_lt_prod i (hlength o ho p hp) hextents
        · rintro ⟨hj, o, ho, p, hp, hdisplaces⟩
          rw [hsize] at hj
          exact ⟨o, ho, p, hp,
            (Lattice.shift_eq_iff_displaces hextents (hlength o ho p hp) hj).2 hdisplaces⟩

end PathTree

namespace Builder

variable {m : Mesh} {b : Builder} {z : OpenExpr} {x q y : String}

/-- Two stencils in a row are built from both ends, over every lattice with a dimension for each
component of their offsets, if all components can be negated. Ascending and without repetition, the
row of an element holds those whose coordinates are its own plus the components of an offset of
each stencil, modulo the extents; from the second end, these components are subtracted. -/
theorem build_stencilChain (hm : m.Reached) (hb : b.Serves m) (hlattice : m.Holds lattice)
    (hsize : lattice.size < Word.span32) (hdims : lattice.dimensions? = some dims)
    (hs : s.arity = dims.length) (ht : t.arity = dims.length) (hs' : s.Negatable)
    (ht' : t.Negatable) (hz : z.Constructible)
    (hform : b.boundForm z = .ok (stencilChain s t lattice x q y)) (rows : End) :
    ∃ built, (b.build z rows.toNat).1 = .ok built ∧ built.index.numElements = lattice.size ∧
      ∀ i < lattice.size, (built.index.row i).Pairwise (· < ·) ∧
        ∀ j, j ∈ built.index.row i ↔ j < lattice.size ∧ ∃ o ∈ s.offsets, ∃ p ∈ t.offsets,
          Lattice.Displaces dims i (offsetSum rows o p) j := by
  have hregular := (Mesh.regularSets_of_reached hm).regular _ ⟨hlattice, hsize⟩
  have hwf := wellFormed_of_boundForm (constructible_iff_wellFormed.1 hz) hform
  have hsets : ∀ v ∈ ([⟨x, lattice⟩, ⟨q, lattice⟩, ⟨y, lattice⟩] : List BoundVar),
      m.Holds v.set ∧ v.set.size < Word.span32 := by
    simp [hlattice, hsize]
  obtain ⟨built, hok, hrealizes, hascending, -⟩ := exists_build_chain hm hb hz hform hsets
    ⟨rfl, dims, hdims, hs.symm⟩ ⟨rfl, dims, hdims, ht.symm⟩ rows
  refine ⟨built, hok, ?_, fun i hi => ⟨hascending i, fun j => ?_⟩⟩
  · rw [hrealizes.numElements_eq]
    cases rows <;> rfl
  · exact hrealizes.mem_row_iff.trans
      (rel_stencilChain_iff hregular hdims hs ht hs' ht' hwf rows hi)

/-- Around a ring of three elements, by offsets whose sum does not fit a word of 32 bits. From the
second end, the two steps lead to one element. -/
theorem build_stencilChain_ring :
    let s : Stencil := ⟨1, [[2147483647]], by decide, by decide⟩
    let t : Stencil := ⟨1, [[2147483647], [1]], by decide, by decide⟩
    let z := stencilChain s t Mesh.ring.toSetView "u" "v" "w"
    ∃ built, ((new .standard : Builder).build z.toOpen 1).1 = .ok built ∧
      built.index.rows = [[1], [2], [0]] ∧
      ∀ j, j ∈ built.index.row 0 ↔ j < 3 ∧ ∃ o ∈ s.offsets, ∃ p ∈ t.offsets,
        Lattice.Displaces [3] 0 (offsetSum .second o p) j := by
  intro s t z
  have hlattice : Mesh.ringMesh.Holds Mesh.ring.toSetView :=
    ⟨Mesh.ring, List.mem_singleton_self _, rfl⟩
  have hdims : Mesh.ring.toSetView.dimensions? = some [3] := rfl
  have hz : z.toOpen.Constructible := constructible_iff_wellFormed.2 (by decide)
  obtain ⟨built, hok, -, hrows⟩ := build_stencilChain (s := s) (t := t) Mesh.reached_ringMesh
    serves_ringMesh hlattice (by decide) hdims rfl rfl (by decide) (by decide) hz
    (boundForm_toOpen _ z) .second
  have hok : ((new .standard : Builder).build z.toOpen 1).1 = .ok built := hok
  have hindex : ((new .standard : Builder).build z.toOpen 1).1.toOption.map
      (fun built => built.index.rows) = some [[1], [2], [0]] := by decide +kernel
  rw [hok] at hindex
  exact ⟨built, hok, Option.some.inj hindex, (hrows 0 (by decide)).2⟩

end Builder

end MeshPath
