import MeshPath.Proofs.Build.SharedEdges
import MeshPath.Proofs.Lattice.Numbering
import MeshPath.Proofs.Mesh.Boxes

/-!
# The vertices around a vertex of a box

In a box, the vertices that share an edge with a vertex are the vertex itself and those one step
away along an axis. Steps do not wrap around, so that a vertex on the boundary has fewer of them.

* `Lattice.Follows`: coordinates one step up along one axis. `exists_beside`: in a box of two
  elements at least, there is such a step from or to every element.
* `Box.mem_axisSteps_iff`: the edges of a box are these steps.
* `adjacent_iff_of_axisSteps`: vertices that share an edge of the box.
* `build_boxStar`: the index of these pairs.
-/

namespace MeshPath

namespace Lattice

variable {dims cs cs' : List Nat} {i : Nat}

/-- The second coordinates are the first ones, with one more along a single axis. -/
inductive Follows : List Nat → List Nat → Prop
  | here (c : Nat) (cs : List Nat) : Follows (c :: cs) ((c + 1) :: cs)
  | there (c : Nat) {cs cs' : List Nat} : Follows cs cs' → Follows (c :: cs) (c :: cs')

/-- The coordinates are one step apart along a single axis. -/
def Beside (cs cs' : List Nat) : Prop := Follows cs cs' ∨ Follows cs' cs

theorem Beside.there (c : Nat) (h : Beside cs cs') : Beside (c :: cs) (c :: cs') :=
  h.imp (.there c) (.there c)

/-- Among two elements at least, every element has one beside it. -/
theorem exists_beside (htwo : 2 ≤ dims.foldr (· * ·) 1) (h : id? dims cs = some i) :
    ∃ cs' j, Beside cs cs' ∧ id? dims cs' = some j := by
  induction dims generalizing cs i with
  | nil => simp at htwo
  | cons d ds ih =>
    cases cs with
    | nil => cases h
    | cons c cs =>
      obtain ⟨rest, hrest, hc, -⟩ := id?_cons_eq_some_iff.1 h
      have hnumber : ∀ {c' : Nat}, c' < d → id? (d :: ds) (c' :: cs) = some (c' + d * rest) :=
        fun hc' => id?_cons_eq_some_iff.2 ⟨rest, hrest, hc', rfl⟩
      -- Along an axis with room there is a step up or down, and otherwise the axis has one place.
      rcases Nat.lt_or_ge (c + 1) d with hup | hlast
      · exact ⟨_, _, .inl (.here c cs), hnumber hup⟩
      · cases c with
        | succ c => exact ⟨_, _, .inr (.here c cs), hnumber (Nat.lt_of_succ_lt hc)⟩
        | zero =>
          obtain rfl : d = 1 := by omega
          rw [List.foldr_cons, Nat.one_mul] at htwo
          obtain ⟨cs', j, hbeside, hj⟩ := ih htwo hrest
          exact ⟨_, _, hbeside.there 0, id?_cons_eq_some_iff.2 ⟨j, hj, Nat.one_pos, rfl⟩⟩

/-- Three coordinates follow each other along one of three axes. -/
theorem follows_three_iff {x y z x' y' z' : Nat} : Follows [x, y, z] [x', y', z'] ↔
    x' = x + 1 ∧ y' = y ∧ z' = z ∨ x' = x ∧ y' = y + 1 ∧ z' = z ∨ x' = x ∧ y' = y ∧ z' = z + 1 := by
  constructor
  · intro h
    cases h with
    | here => exact .inl ⟨rfl, rfl, rfl⟩
    | there _ h =>
      cases h with
      | here => exact .inr (.inl ⟨rfl, rfl, rfl⟩)
      | there _ h =>
        cases h with
        | here => exact .inr (.inr ⟨rfl, rfl, rfl⟩)
        | there _ h => cases h
  · rintro (⟨rfl, rfl, rfl⟩ | ⟨rfl, rfl, rfl⟩ | ⟨rfl, rfl, rfl⟩)
    · exact .here _ _
    · exact .there _ (.here _ _)
    · exact .there _ (.there _ (.here _ _))

end Lattice

namespace Box

variable {a nx ny nz i j : Nat}

/-- Coordinates inside three extents are three. -/
theorem exists_eq_of_id? {cs : List Nat} {k : Nat} (h : Lattice.id? [nx, ny, nz] cs = some k) :
    ∃ x y z, cs = [x, y, z] := by
  have hlength := (Lattice.exists_id?_iff_forall₂.1 ⟨k, h⟩).length_eq
  exact List.length_eq_three.1 hlength

/-- The edges of a box lead from an element to one that follows it along an axis. -/
theorem mem_axisSteps_iff : (i, j) ∈ axisSteps a nx ny nz ↔
    ∃ cs cs' k l, Lattice.Follows cs cs' ∧ Lattice.id? [nx, ny, nz] cs = some k ∧
      Lattice.id? [nx, ny, nz] cs' = some l ∧ a + k = i ∧ a + l = j := by
  simp only [axisSteps, List.mem_append, mem_steps_iff]
  constructor
  · rintro ((⟨x, y, z, k, l, hk, hl, hi, hj⟩ | ⟨x, y, z, k, l, hk, hl, hi, hj⟩) |
      ⟨x, y, z, k, l, hk, hl, hi, hj⟩)
    · exact ⟨_, _, k, l, .here x _, hk, hl, hi, hj⟩
    · exact ⟨_, _, k, l, .there x (.here y _), hk, hl, hi, hj⟩
    · exact ⟨_, _, k, l, .there x (.there y (.here z _)), hk, hl, hi, hj⟩
  · rintro ⟨cs, cs', k, l, hfollows, hk, hl, hi, hj⟩
    obtain ⟨x, y, z, rfl⟩ := exists_eq_of_id? hk
    obtain ⟨x', y', z', rfl⟩ := exists_eq_of_id? hl
    rcases Lattice.follows_three_iff.1 hfollows with
      ⟨rfl, rfl, rfl⟩ | ⟨rfl, rfl, rfl⟩ | ⟨rfl, rfl, rfl⟩
    · exact .inl (.inl ⟨_, _, _, k, l, hk, hl, hi, hj⟩)
    · exact .inl (.inr ⟨_, _, _, k, l, hk, hl, hi, hj⟩)
    · exact .inr ⟨_, _, _, k, l, hk, hl, hi, hj⟩

/-- The edges of a box at an element lead to the elements beside it. -/
theorem exists_axisStep_iff {cs : List Nat} (htwo : 2 ≤ nx * ny * nz)
    (hi : Lattice.id? [nx, ny, nz] cs = some i) :
    (∃ p ∈ axisSteps 0 nx ny nz, i ∈ [p.1, p.2] ∧ j ∈ [p.1, p.2]) ↔
      j = i ∨ ∃ cs', Lattice.Beside cs cs' ∧ Lattice.id? [nx, ny, nz] cs' = some j := by
  -- An element has no other coordinates than its own.
  have hown : ∀ {cs'}, Lattice.id? [nx, ny, nz] cs' = some i → cs' = cs := fun h =>
    Lattice.eq_of_id? h hi
  have hmem : ∀ {k l : Nat}, (k, l) ∈ axisSteps 0 nx ny nz ↔ ∃ cs cs', Lattice.Follows cs cs' ∧
      Lattice.id? [nx, ny, nz] cs = some k ∧ Lattice.id? [nx, ny, nz] cs' = some l := by
    intro k l
    simp only [mem_axisSteps_iff, Nat.zero_add]
    constructor
    · rintro ⟨cs, cs', _, _, hfollows, hk, hl, rfl, rfl⟩
      exact ⟨cs, cs', hfollows, hk, hl⟩
    · rintro ⟨cs, cs', hfollows, hk, hl⟩
      exact ⟨cs, cs', k, l, hfollows, hk, hl, rfl, rfl⟩
  simp only [List.mem_cons, List.not_mem_nil, or_false]
  constructor
  · rintro ⟨⟨k, l⟩, hstep, hiend, hjend⟩
    obtain ⟨low, high, hfollows, hk, hl⟩ := hmem.1 hstep
    rcases hiend with rfl | rfl <;> rcases hjend with rfl | rfl
    · exact .inl rfl
    · rw [hown hk] at hfollows
      exact .inr ⟨high, .inl hfollows, hl⟩
    · rw [hown hl] at hfollows
      exact .inr ⟨low, .inr hfollows, hk⟩
    · exact .inl rfl
  · have hbeside : ∀ {cs' : List Nat} {j : Nat}, Lattice.Beside cs cs' →
        Lattice.id? [nx, ny, nz] cs' = some j →
          ∃ p ∈ axisSteps 0 nx ny nz, (i = p.1 ∨ i = p.2) ∧ (j = p.1 ∨ j = p.2) := by
      rintro cs' j (hup | hdown) hj
      · exact ⟨(i, j), hmem.2 ⟨cs, cs', hup, hi, hj⟩, .inl rfl, .inr rfl⟩
      · exact ⟨(j, i), hmem.2 ⟨cs', cs, hdown, hj, hi⟩, .inr rfl, .inl rfl⟩
    rintro (rfl | ⟨cs', hcs', hj⟩)
    -- The element itself is met on any of its edges.
    · have hvolume : 2 ≤ [nx, ny, nz].foldr (· * ·) 1 := by rwa [prod_extents]
      obtain ⟨cs', k, hcs', hk⟩ := Lattice.exists_beside hvolume hi
      obtain ⟨p, hp, hj, -⟩ := hbeside hcs' hk
      exact ⟨p, hp, hj, hj⟩
    · exact hbeside hcs' hj

end Box

/-! ## Adjacent vertices -/

section Adjacent

variable {edges vertices : SetView} {sizes : SetId → Nat} {nx ny nz i j : Nat}
  (hfilled : edges.Filled sizes) (hsets : edges.endpointSets = [vertices.id, vertices.id])
include hfilled hsets

/-- If both positions lie over the vertex set, the incidences of an edge are its ends. -/
theorem incident_iff_mem_ends {e : Nat} :
    Incident edges vertices e i ↔ e < edges.size ∧ i ∈ edges.ends e := by
  have hpositions : Link.positions edges vertices = List.range edges.cardinality := by
    refine List.filter_eq_self.2 fun p hp => decide_eq_true ?_
    have hlt := List.mem_range.1 hp
    rw [SetView.cardinality, hsets] at hlt
    rw [SetView.endpointSet?, hsets]
    obtain rfl | rfl : p = 0 ∨ p = 1 := Nat.le_one_iff_eq_zero_or_eq_one.1 (Nat.le_of_lt_succ hlt)
    · rfl
    · rfl
  constructor
  · intro h
    rw [Link.ends_eq_endsAt hfilled hpositions h.1, Link.mem_endsAt_iff hfilled h.1]
    exact ⟨h.1, h⟩
  · rintro ⟨he, hi⟩
    rwa [Link.ends_eq_endsAt hfilled hpositions he, Link.mem_endsAt_iff hfilled he] at hi

/-- Over the edges of a box, a vertex is adjacent to itself and to those beside it. -/
theorem adjacent_iff_of_axisSteps {cs : List Nat} (htwo : 2 ≤ nx * ny * nz)
    (hends : (List.range edges.size).map edges.ends =
      (Box.axisSteps 0 nx ny nz).map fun p => [p.1, p.2])
    (hi : Lattice.id? [nx, ny, nz] cs = some i) :
    Adjacent edges vertices i j ↔
      j = i ∨ ∃ cs', Lattice.Beside cs cs' ∧ Lattice.id? [nx, ny, nz] cs' = some j := by
  rw [← Box.exists_axisStep_iff htwo hi]
  constructor
  · rintro ⟨e, hie, hje⟩
    obtain ⟨he, hie⟩ := (incident_iff_mem_ends hfilled hsets).1 hie
    obtain ⟨-, hje⟩ := (incident_iff_mem_ends hfilled hsets).1 hje
    have hmem : edges.ends e ∈ (List.range edges.size).map edges.ends :=
      List.mem_map_of_mem (List.mem_range.2 he)
    rw [hends] at hmem
    obtain ⟨p, hp, hpair⟩ := List.mem_map.1 hmem
    rw [← hpair] at hie hje
    exact ⟨p, hp, hie, hje⟩
  · rintro ⟨p, hp, hip, hjp⟩
    have hmem : [p.1, p.2] ∈ (Box.axisSteps 0 nx ny nz).map fun p => [p.1, p.2] :=
      List.mem_map_of_mem hp
    rw [← hends] at hmem
    obtain ⟨e, he, hpair⟩ := List.mem_map.1 hmem
    have he := List.mem_range.1 he
    rw [← hpair] at hip hjp
    exact ⟨e, (incident_iff_mem_ends hfilled hsets).2 ⟨he, hip⟩,
      (incident_iff_mem_ends hfilled hsets).2 ⟨he, hjp⟩⟩

end Adjacent

/-! ## The index -/

section Empty

variable {v e : MeshSet} {sizes : SetId → Nat} {nx ny nz : Nat}

/-- Into sets without elements, a box brings its vertices and edges and nothing else. -/
theorem createBox_of_empty (he : e.Filled sizes) (hsets : v.endpointSets = [])
    (hextents : v.extents = none) (hends : e.endpointSets = [v.id, v.id]) (hempty : v.size = 0)
    (hempty' : e.size = 0) (hsmall : nx * ny * nz < Word.span32) :
    (createBox v e nx ny nz).result = .ok (Box.ofRange v.id 0 nx ny nz) ∧
      (createBox v e nx ny nz).vertices.id = v.id ∧
      (createBox v e nx ny nz).vertices.size = nx * ny * nz ∧
      (createBox v e nx ny nz).edges.endpointSets = [v.id, v.id] ∧
      (createBox v e nx ny nz).edges.size =
        (nx - 1) * ny * nz + nx * (ny - 1) * nz + nx * ny * (nz - 1) ∧
      (List.range (createBox v e nx ny nz).edges.size).map (createBox v e nx ny nz).edges.ends =
        (Box.axisSteps 0 nx ny nz).map fun p => [p.1, p.2] := by
  have hrows : ∀ row ∈ (Box.axisSteps 0 nx ny nz).map (fun p => [p.1, p.2]),
      row.length = e.cardinality := by
    intro row hrow
    obtain ⟨p, -, rfl⟩ := List.mem_map.1 hrow
    rw [SetView.cardinality, hends]
    rfl
  have hnew := MeshSet.map_ends_appendRows he hrows
  have hsize : (e.appendRows ((Box.axisSteps 0 nx ny nz).map fun p => [p.1, p.2])).size =
      (Box.axisSteps 0 nx ny nz).length := by
    rw [MeshSet.appendRows, hempty', Nat.zero_add, List.length_map]
  rw [hempty', List.length_map, ← List.range_eq_range'] at hnew
  rw [createBox_eq hsets hextents hends (by rwa [hempty, Nat.zero_add]), hempty]
  refine ⟨rfl, rfl, Nat.zero_add _, hends, hsize.trans (Box.length_axisSteps 0 nx ny nz), ?_⟩
  rw [hsize]
  exact hnew

end Empty

namespace Mesh

/-- A vertex set without elements. -/
def noVertices : MeshSet := .vertexSet ⟨1⟩ "V"

/-- An edge set over it, without elements. -/
def noEdges : MeshSet := .edgeSet ⟨2⟩ "E" [noVertices, noVertices]

/-- The mesh of the two sets. -/
def bareMesh : Mesh := ⟨[noVertices, noEdges], 2⟩

theorem reached_bareMesh : bareMesh.Reached := by
  have hv : Step .empty ⟨[noVertices], 1⟩ := .vertexSet _ "V"
  have he : Step ⟨[noVertices], 1⟩ bareMesh :=
    @Step.edgeSet ⟨[noVertices], 1⟩ "E" [noVertices, noVertices] (by simp)
  exact (Reached.empty.step hv).step he

/-- The mesh with a box in its two sets. -/
def boxMesh (nx ny nz : Nat) : Mesh :=
  ⟨[(createBox noVertices noEdges nx ny nz).vertices,
    (createBox noVertices noEdges nx ny nz).edges], 2⟩

end Mesh

namespace Builder

open PathTree

variable {m m' : Mesh} {b : Builder} {v e : MeshSet} {z : OpenExpr} {p q r : OpenVar}
  {nx ny nz : Nat} {x y w : String}

/-- A box of two vertices at least is built into a vertex set and an edge set without elements. The
paths from vertices over edges to vertices are built from both ends. The row of the vertex at given
coordinates lists in ascending order, each once, this vertex and those beside it in the box. -/
theorem build_boxStar (hm : m.Reached) (he : e ∈ m.sets) (hsets : v.endpointSets = [])
    (hextents : v.extents = none) (hends : e.endpointSets = [v.id, v.id]) (hempty : v.size = 0)
    (hempty' : e.size = 0) (htwo : 2 ≤ nx * ny * nz) (hsmall : nx * ny * nz < Word.span32)
    (hsmall' : (nx - 1) * ny * nz + nx * (ny - 1) * nz + nx * ny * (nz - 1) < Word.span32)
    (hm' : m'.Reached) (hvertices : m'.Holds (createBox v e nx ny nz).vertices.toSetView)
    (hedges : m'.Holds (createBox v e nx ny nz).edges.toSetView) (hb : b.Serves m')
    (hz : sharedEdge? p q r = .ok z)
    (hform : b.boundForm z = .ok (edgeChain (createBox v e nx ny nz).edges.toSetView
      (createBox v e nx ny nz).vertices.toSetView x y w)) (rows : End) :
    ∃ box built, (createBox v e nx ny nz).result = .ok box ∧
      (b.build z rows.toNat).1 = .ok built ∧ built.index.numElements = nx * ny * nz ∧
      ∀ x y z i, Lattice.id? [nx, ny, nz] [x, y, z] = some i →
        box.at? x y z = some ⟨v.id, i⟩ ∧ (built.index.row i).Pairwise (· < ·) ∧
        ∀ j, j ∈ built.index.row i ↔ j = i ∨
          ∃ cs, Lattice.Beside [x, y, z] cs ∧ Lattice.id? [nx, ny, nz] cs = some j := by
  obtain ⟨hok, hid, hsize, hsets', hsize', hends'⟩ := createBox_of_empty
    ((Mesh.consistent_of_reached hm).filled he) hsets hextents hends hempty hempty' hsmall
  generalize (createBox v e nx ny nz).vertices.toSetView = vertices at *
  generalize (createBox v e nx ny nz).edges.toSetView = edges at *
  obtain ⟨-, hconstructible⟩ := eq_chain_of_sharedEdge? hz
  have hwf := wellFormed_of_boundForm (constructible_iff_wellFormed.1 hconstructible) hform
  have hfilled : edges.Filled m'.sizes :=
    ((Mesh.regularSets_of_reached hm').regular _ ⟨hedges, by rwa [hsize']⟩).filled
  rw [← hid] at hsets'
  have htyped : ∃ p, edges.endpointSet? p = some vertices.id := ⟨0, by
    rw [SetView.endpointSet?, hsets']
    rfl⟩
  have hsmallSets : ∀ v ∈ ([⟨x, vertices⟩, ⟨y, edges⟩, ⟨w, vertices⟩] : List BoundVar),
      m'.Holds v.set ∧ v.set.size < Word.span32 := by
    simp [hedges, hvertices, hsize, hsize', hsmall, hsmall']
  obtain ⟨built, hbuilt, hrealizes, hascending, -⟩ :=
    exists_build_chain hm' hb hconstructible hform hsmallSets htyped htyped rows
  refine ⟨_, built, hok, hbuilt, ?_, fun x₁ x₂ x₃ i hi => ⟨?_, hascending i, fun j => ?_⟩⟩
  · rw [hrealizes.numElements_eq, ← hsize]
    cases rows <;> rfl
  · rw [Box.at?_ofRange, hi]
    simp
  · rw [hrealizes.mem_row_iff, ← edgeChain, rel_edgeChain_iff hwf rows,
      adjacent_iff_of_axisSteps hfilled hsets' htwo hends' hi]

/-- Three by two vertices, read from the second end of the paths. -/
theorem build_boxStar_sheet :
    let outcome := createBox Mesh.noVertices Mesh.noEdges 3 2 1
    let b := edgeBuilder outcome.vertices.toSetView outcome.edges.toSetView
    ∃ z built, sharedEdge? (.unbound "u") (.unbound "e") (.unbound "w") = .ok z ∧
      (b.build z 1).1 = .ok built ∧ built.index.numElements = 6 ∧
      built.index.rows =
        [[0, 1, 3], [0, 1, 2, 4], [1, 2, 5], [0, 3, 4], [1, 3, 4, 5], [2, 4, 5]] ∧
      ∀ j, j ∈ built.index.row 1 ↔ j = 1 ∨
        ∃ cs, Lattice.Beside [1, 0, 0] cs ∧ Lattice.id? [3, 2, 1] cs = some j := by
  intro outcome b
  have hm' : (Mesh.boxMesh 3 2 1).Reached :=
    Mesh.reached_bareMesh.step
      (@Mesh.Step.createBox _ _ ⟨1⟩ ⟨2⟩ 3 2 1 outcome.result (by decide) rfl)
  have hvertices : (Mesh.boxMesh 3 2 1).Holds outcome.vertices.toSetView :=
    ⟨_, List.mem_cons_self, rfl⟩
  have hedges : (Mesh.boxMesh 3 2 1).Holds outcome.edges.toSetView :=
    ⟨_, List.mem_cons_of_mem _ List.mem_cons_self, rfl⟩
  have hb : b.Serves (Mesh.boxMesh 3 2 1) := serves_edgeBuilder hm' hvertices hedges
  let z : OpenExpr := chain .vertexToEdge .edgeToVertex (.unbound "u") (.unbound "e") (.unbound "w")
  have hz : sharedEdge? (.unbound "u") (.unbound "e") (.unbound "w") = .ok z := rfl
  have hform : b.boundForm z =
      .ok (edgeChain outcome.edges.toSetView outcome.vertices.toSetView "u" "e" "w") := rfl
  have hmem : Mesh.noEdges ∈ Mesh.bareMesh.sets := by decide
  obtain ⟨_, built, -, hok, hsize, hrow⟩ := build_boxStar Mesh.reached_bareMesh hmem
    rfl rfl rfl rfl rfl (by decide) (by decide) (by decide) hm' hvertices hedges hb hz hform .second
  -- The box is computed once, before the index.
  have hgrown : outcome.vertices.toSetView = ⟨⟨1⟩, "V", 6, [], #[], none⟩ ∧
      outcome.edges.toSetView = ⟨⟨2⟩, "E", 7, [⟨1⟩, ⟨1⟩],
        #[0, 1, 1, 2, 3, 4, 4, 5, 0, 3, 1, 4, 2, 5], none⟩ := by decide +kernel
  have hindex : (b.build z 1).1.toOption.map (fun built => built.index.rows) =
      some [[0, 1, 3], [0, 1, 2, 4], [1, 2, 5], [0, 3, 4], [1, 3, 4, 5], [2, 4, 5]] := by
    simp only [b, z, hgrown]
    decide_cbv
  have hok : (b.build z 1).1 = .ok built := hok
  rw [hok] at hindex
  exact ⟨z, built, hz, hok, hsize, Option.some.inj hindex, (hrow 1 0 0 1 rfl).2.2⟩

end Builder

end MeshPath
