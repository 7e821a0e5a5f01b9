import Mathlib.Data.Set.Card
import MeshPath.Proofs.Build.Chain
import MeshPath.Proofs.Build.Incidences
import MeshPath.Proofs.Build.Monotone

/-!
# Vertices that share an edge

From a vertex over its edges to their ends: the index of these two hops is the sparsity of a matrix
that couples the ends of every edge. It is symmetric, and it has a diagonal entry for every vertex
with an edge.

* `Adjacent`: the relation, read from either end (`rel_edgeChain_iff`).
* `SetView.Simple`: edges with two different ends, no two of them with the same ones. Away from its
  diagonal, the row of a vertex lists the opposite ends of its edges (`Simple.row_perm`).
* `Simple.sum_length_rows`: the number of entries over such edges.
* `build_sharedEdge`: the index.
-/

namespace MeshPath

open PathTree

/-- Some edge has both vertices as ends. -/
def Adjacent (edges vertices : SetView) (i j : Nat) : Prop :=
  ∃ e, Incident edges vertices e i ∧ Incident edges vertices e j

section Adjacent

variable {edges vertices : SetView} {i j : Nat}

theorem Adjacent.symm (h : Adjacent edges vertices i j) : Adjacent edges vertices j i := by
  obtain ⟨e, hi, hj⟩ := h
  exact ⟨e, hj, hi⟩

/-- The vertices with an edge are those adjacent to themselves. -/
theorem adjacent_self_iff : Adjacent edges vertices i i ↔ ∃ e, Incident edges vertices e i :=
  exists_congr fun _ => and_self_iff

namespace PathTree

/-- From vertices to edges and back to vertices. -/
def edgeChain (edges vertices : SetView) (x q y : String) : BoundExpr :=
  chain .vertexToEdge .edgeToVertex ⟨x, vertices⟩ ⟨q, edges⟩ ⟨y, vertices⟩

/-- Whichever end the two hops are read from, they relate adjacent vertices. -/
theorem rel_edgeChain_iff {x q y : String} (h : (edgeChain edges vertices x q y).WellFormed)
    (rows : End) : (edgeChain edges vertices x q y).Rel rows i j ↔ Adjacent edges vertices i j := by
  rw [edgeChain, rel_chain_iff h]
  cases rows <;> exact Iff.rfl

end PathTree

end Adjacent

/-! ## Simple edges -/

/-- Every edge has two different vertices as its ends, and no two edges have the same ones. -/
structure SetView.Simple (edges vertices : SetView) : Prop where
  endpointSets_eq : edges.endpointSets = [vertices.id, vertices.id]
  nodup_ends : ∀ e < edges.size, (edges.ends e).Nodup
  eq_of_perm : ∀ e < edges.size, ∀ e' < edges.size,
    (edges.ends e).Perm (edges.ends e') → e = e'

/-- The end of an edge across from `i`, which is one of its two ends. -/
def opposite (edges : SetView) (i e : Nat) : Nat :=
  if Link.endAt edges e 0 = i then Link.endAt edges e 1 else Link.endAt edges e 0

namespace SetView.Simple

variable {edges vertices : SetView} {sizes : SetId → Nat} {i j e e' : Nat}
  (hsimple : edges.Simple vertices) (hfilled : edges.Filled sizes)
include hsimple hfilled

/-- An edge has two ends, and both of them lie in the vertex set. -/
theorem ends_eq (he : e < edges.size) :
    edges.ends e = [Link.endAt edges e 0, Link.endAt edges e 1] ∧
      edges.ends e = Link.endsAt edges vertices e := by
  have hpositions : Link.positions edges vertices = [0, 1] := by
    simp [Link.positions, SetView.cardinality, SetView.endpointSet?, hsimple.endpointSets_eq,
      List.range_succ]
  have hrange : Link.positions edges vertices = List.range edges.cardinality := by
    rw [hpositions, SetView.cardinality, hsimple.endpointSets_eq]
    rfl
  have hends := Link.ends_eq_endsAt hfilled hrange he
  refine ⟨?_, hends⟩
  rw [hends, Link.endsAt, hpositions]
  rfl

/-- An edge joins each of its ends with the opposite one. -/
theorem ends_perm (hi : Incident edges vertices e i) :
    (edges.ends e).Perm [i, opposite edges i e] := by
  obtain ⟨hpair, hends⟩ := hsimple.ends_eq hfilled hi.1
  have hmem : i ∈ edges.ends e := by
    rw [hends, Link.mem_endsAt_iff hfilled hi.1]
    exact hi
  rw [hpair] at hmem ⊢
  rw [opposite]
  -- The vertex is the first end, or else it is the second one.
  split
  · next hfirst => rw [hfirst]
  · next hfirst =>
    have hsecond : i = Link.endAt edges e 1 := by
      rcases List.mem_cons.1 hmem with h | h
      · exact absurd h.symm hfirst
      · exact List.mem_singleton.1 h
    rw [← hsecond]
    exact List.Perm.swap _ _ _

/-- The vertices of an edge are any one of them and the opposite one. -/
theorem incident_iff (hi : Incident edges vertices e i) :
    Incident edges vertices e j ↔ j = i ∨ j = opposite edges i e := by
  obtain ⟨-, hends⟩ := hsimple.ends_eq hfilled hi.1
  rw [← Link.mem_endsAt_iff hfilled hi.1, ← hends,
    (hsimple.ends_perm hfilled hi).mem_iff, List.mem_cons, List.mem_singleton]

/-- Without loops, the opposite vertex is another one. -/
theorem opposite_ne (hi : Incident edges vertices e i) : opposite edges i e ≠ i := by
  have hnodup := (hsimple.ends_perm hfilled hi).nodup_iff.1 (hsimple.nodup_ends e hi.1)
  refine fun h => (List.nodup_cons.1 hnodup).1 ?_
  rw [h]
  exact List.mem_singleton_self i

/-- At most one edge leads from a vertex to another one. -/
theorem eq_of_opposite_eq (hi : Incident edges vertices e i) (hi' : Incident edges vertices e' i)
    (h : opposite edges i e = opposite edges i e') : e = e' := by
  refine hsimple.eq_of_perm e hi.1 e' hi'.1 ((hsimple.ends_perm hfilled hi).trans ?_)
  rw [h]
  exact (hsimple.ends_perm hfilled hi').symm

/-- Without loops, a vertex is an end of each of its edges once. -/
theorem nodup_edgesAt (v : Nat) : (Link.edgesAt edges vertices v).Nodup := by
  refine List.nodup_iff_count_le_one.2 fun e => ?_
  rw [Link.count_edgesAt hfilled]
  rcases Nat.lt_or_ge e edges.size with he | he
  · obtain ⟨-, hends⟩ := hsimple.ends_eq hfilled he
    rw [← Link.count_endsAt hfilled he, ← hends]
    exact List.nodup_iff_count_le_one.1 (hsimple.nodup_ends e he) v
  · rw [Link.multiplicity_eq_zero_of_edge hfilled he]
    exact Nat.zero_le 1

/-- A vertex with an edge is adjacent to itself and to the opposite ends of its edges. -/
theorem row_perm {row : List Nat} (hrow : row.Nodup)
    (hmem : ∀ j, j ∈ row ↔ Adjacent edges vertices i j)
    (hi : ∃ e, Incident edges vertices e i) :
    row.Perm (i :: (Link.edgesAt edges vertices i).map (opposite edges i)) := by
  have hincident : ∀ {e}, e ∈ Link.edgesAt edges vertices i ↔ Incident edges vertices e i :=
    Link.mem_edgesAt_iff hfilled
  have hnodup : (i :: (Link.edgesAt edges vertices i).map (opposite edges i)).Nodup := by
    refine List.nodup_cons.2 ⟨fun h => ?_, ?_⟩
    · obtain ⟨e, he, hopposite⟩ := List.mem_map.1 h
      exact hsimple.opposite_ne hfilled (hincident.1 he) hopposite
    · exact (hsimple.nodup_edgesAt hfilled i).map_on fun e he e' he' =>
        hsimple.eq_of_opposite_eq hfilled (hincident.1 he) (hincident.1 he')
  refine (List.perm_ext_iff_of_nodup hrow hnodup).2 fun j => ?_
  rw [hmem, List.mem_cons, List.mem_map]
  constructor
  · rintro ⟨e, he, hj⟩
    rcases (hsimple.incident_iff hfilled he).1 hj with rfl | rfl
    · exact .inl rfl
    · exact .inr ⟨e, hincident.2 he, rfl⟩
  · rintro (rfl | ⟨e, he, rfl⟩)
    · exact adjacent_self_iff.2 hi
    · have he := hincident.1 he
      exact ⟨e, he, (hsimple.incident_iff hfilled he).2 (.inr rfl)⟩

/-- The row of a vertex holds one sink more than it has edges, if it has an edge. -/
theorem length_row {row : List Nat} (hrow : row.Nodup)
    (hmem : ∀ j, j ∈ row ↔ Adjacent edges vertices i j) :
    row.length = (if Link.edgesAt edges vertices i ≠ [] then 1 else 0) +
      (Link.edgesAt edges vertices i).length := by
  split
  · next hedges =>
    obtain ⟨e, he⟩ := List.exists_mem_of_ne_nil _ hedges
    have hi : ∃ e, Incident edges vertices e i := ⟨e, (Link.mem_edgesAt_iff hfilled).1 he⟩
    rw [(hsimple.row_perm hfilled hrow hmem hi).length_eq, List.length_cons, List.length_map,
      Nat.add_comm]
  -- Without an edge there is no adjacent vertex.
  · next hedges =>
    have hnil : Link.edgesAt edges vertices i = [] := Decidable.not_not.1 hedges
    have hempty : row = [] := List.eq_nil_iff_forall_not_mem.2 fun j hj => by
      obtain ⟨e, he, -⟩ := (hmem j).1 hj
      rw [← Link.mem_edgesAt_iff hfilled, hnil] at he
      cases he
    rw [hempty, hnil]
    rfl

/-- Over all vertices, the rows hold the vertices with an edge and both directions of every
edge. -/
theorem sum_length_rows (hvertices : sizes vertices.id = vertices.size) {rows : Nat → List Nat}
    (hrow : ∀ i, (rows i).Nodup) (hmem : ∀ i j, j ∈ rows i ↔ Adjacent edges vertices i j) :
    ((List.range vertices.size).map fun i => (rows i).length).sum =
      {v | ∃ e, Incident edges vertices e v}.ncard + 2 * edges.size := by
  have hlength : ∀ i, (rows i).length =
      (if Link.edgesAt edges vertices i ≠ [] then 1 else 0) +
        (Link.edgesAt edges vertices i).length := fun i =>
    hsimple.length_row hfilled (hrow i) (hmem i)
  have htouched : {v | ∃ e, Incident edges vertices e v} =
      ((Finset.range vertices.size).filter fun v => Link.edgesAt edges vertices v ≠ [] :
        Finset Nat) := by
    refine Set.ext fun v => ?_
    rw [Finset.mem_coe, Finset.mem_filter, Finset.mem_range]
    constructor
    · rintro ⟨e, he⟩
      exact ⟨Link.lt_of_incident hfilled hvertices he,
        List.ne_nil_of_mem ((Link.mem_edgesAt_iff hfilled).2 he)⟩
    · rintro ⟨-, hne⟩
      obtain ⟨e, he⟩ := List.exists_mem_of_ne_nil _ hne
      exact ⟨e, (Link.mem_edgesAt_iff hfilled).1 he⟩
  have hends := Link.sum_length_edgesAt hfilled hvertices
  rw [hsimple.endpointSets_eq, sum_map_range] at hends
  rw [htouched, Set.ncard_coe_finset, Finset.card_filter, sum_map_range]
  simp only [hlength]
  rw [Finset.sum_add_distrib, hends]
  simp [Nat.mul_comm]

end SetView.Simple

namespace Builder

variable {m : Mesh} {b b' : Builder} {z : OpenExpr} {u e w : OpenVar} {edges vertices : SetView}
  {x q y : String}

section Typed

variable (hm : m.Reached) (hedges : m.Holds edges) (hvertices : m.Holds vertices)
  (hsmall : edges.size < Word.span32) (hsmall' : vertices.size < Word.span32)
  (htyped : ∃ p, edges.endpointSet? p = some vertices.id)
include hm hedges hvertices hsmall hsmall' htyped

/-- From both ends, the rows hold the adjacent vertices in ascending order. -/
theorem exists_build_edgeChain (hb : b.Serves m) (hz : z.Constructible)
    (hform : b.boundForm z = .ok (edgeChain edges vertices x q y)) (rows : End) :
    ∃ built, (b.build z rows.toNat).1 = .ok built ∧
      (∀ i, (built.index.row i).Pairwise (· < ·)) ∧
      (∀ i j, j ∈ built.index.row i ↔ Adjacent edges vertices i j) ∧
      (edges.Simple vertices → built.index.numNeighbors =
        {v | ∃ e, Incident edges vertices e v}.ncard + 2 * edges.size) := by
  have hwf := wellFormed_of_boundForm (constructible_iff_wellFormed.1 hz) hform
  have hregular := (Mesh.regularSets_of_reached hm).regular _ ⟨hedges, hsmall⟩
  have hregular' := (Mesh.regularSets_of_reached hm).regular _ ⟨hvertices, hsmall'⟩
  have hsets : ∀ v ∈ ([⟨x, vertices⟩, ⟨q, edges⟩, ⟨y, vertices⟩] : List BoundVar),
      m.Holds v.set ∧ v.set.size < Word.span32 := by
    simp [hedges, hvertices, hsmall, hsmall']
  obtain ⟨built, hok, hrealizes, hascending, htotal⟩ :=
    exists_build_chain hm hb hz hform hsets htyped htyped rows
  have helements : built.index.numElements = vertices.size := by
    rw [hrealizes.numElements_eq]
    cases rows <;> rfl
  have hmem : ∀ i j, j ∈ built.index.row i ↔ Adjacent edges vertices i j := fun i j =>
    hrealizes.mem_row_iff.trans (rel_edgeChain_iff hwf rows)
  refine ⟨built, hok, hascending, hmem, fun hsimple => ?_⟩
  rw [htotal, helements]
  exact hsimple.sum_length_rows hregular.filled hregular'.size_eq
    (fun i => (hascending i).imp Nat.ne_of_lt) hmem

/-- If an edge set has a position over a vertex set, the paths from this set over the edges back to
it are built from both ends, and the two indices have the same rows. They are symmetric, and the
vertices with an edge are in their own rows. Over simple edges, the indices hold an entry for each
of these vertices and two for each edge. -/
theorem build_sharedEdge (hb : b.Serves m) (hb' : b'.Serves m) (hz : sharedEdge? u e w = .ok z)
    (hform : b.boundForm z = .ok (edgeChain edges vertices x q y))
    (hform' : b'.boundForm z = .ok (edgeChain edges vertices x q y)) :
    ∃ built built', (b.build z 0).1 = .ok built ∧ (b'.build z 1).1 = .ok built' ∧
      (∀ i, built.index.row i = built'.index.row i) ∧
      (∀ i j, j ∈ built.index.row i ↔ i ∈ built.index.row j) ∧
      (∀ i, i ∈ built.index.row i ↔ ∃ e, Incident edges vertices e i) ∧
      (edges.Simple vertices → built.index.numNeighbors =
          {v | ∃ e, Incident edges vertices e v}.ncard + 2 * edges.size ∧
        built'.index.numNeighbors =
          {v | ∃ e, Incident edges vertices e v}.ncard + 2 * edges.size) := by
  obtain ⟨-, hconstructible⟩ := eq_chain_of_sharedEdge? hz
  obtain ⟨built, hok, hascending, hmem, hcount⟩ := exists_build_edgeChain hm hedges hvertices
    hsmall hsmall' htyped hb hconstructible hform .first
  obtain ⟨built', hok', hascending', hmem', hcount'⟩ := exists_build_edgeChain hm hedges hvertices
    hsmall hsmall' htyped hb' hconstructible hform' .second
  refine ⟨built, built', hok, hok', fun i => ?_, fun i j => ?_, fun i => ?_,
    fun hsimple => ⟨hcount hsimple, hcount' hsimple⟩⟩
  · exact (hascending i).eq_of_mem_iff (hascending' i) fun j => (hmem i j).trans (hmem' i j).symm
  · rw [hmem, hmem]
    exact ⟨Adjacent.symm, Adjacent.symm⟩
  · rw [hmem, adjacent_self_iff]

end Typed

/-- The two edges of a path of three vertices. -/
theorem build_sharedEdge_pathMesh :
    let edges := Mesh.twoEdges.toSetView
    let vertices := Mesh.threeVertices.toSetView
    let b := edgeBuilder vertices edges
    ∃ z built, sharedEdge? (.unbound "u") (.unbound "e") (.unbound "w") = .ok z ∧
      (b.build z 0).1 = .ok built ∧ built.index.rows = [[0, 1], [0, 1, 2], [1, 2]] ∧
      (∀ i j, j ∈ built.index.row i ↔ i ∈ built.index.row j) ∧
      built.index.numNeighbors = {v | ∃ e, Incident edges vertices e v}.ncard + 2 * 2 := by
  intro edges vertices b
  have hm := Mesh.reached_pathMesh
  have hedges : Mesh.pathMesh.Holds edges := ⟨Mesh.twoEdges, by decide, rfl⟩
  have hvertices : Mesh.pathMesh.Holds vertices := ⟨Mesh.threeVertices, by decide, rfl⟩
  have hb : b.Serves Mesh.pathMesh := serves_edgeBuilder hm hvertices hedges
  have hsimple : edges.Simple vertices := ⟨rfl, by decide, by decide⟩
  let z : OpenExpr := chain .vertexToEdge .edgeToVertex (.unbound "u") (.unbound "e") (.unbound "w")
  have hz : sharedEdge? (.unbound "u") (.unbound "e") (.unbound "w") = .ok z := rfl
  have hform : b.boundForm z = .ok (edgeChain edges vertices "u" "e" "w") := rfl
  obtain ⟨built, _, hok, _, _, hsymm, _, hcount⟩ := build_sharedEdge hm hedges hvertices
    (by decide) (by decide) ⟨0, rfl⟩ hb hb hz hform hform
  have hindex : (b.build z 0).1.toOption.map (fun built => built.index.rows) =
      some [[0, 1], [0, 1, 2], [1, 2]] := by decide_cbv
  rw [hok] at hindex
  exact ⟨z, built, hz, hok, Option.some.inj hindex, hsymm, (hcount hsimple).1⟩

end Builder

end MeshPath
