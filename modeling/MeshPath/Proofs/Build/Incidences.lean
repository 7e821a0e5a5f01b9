import MeshPath.Proofs.Build.Stencils

/-!
# Gather and scatter

An edge set is read from its edges, where each row lists the ends, and from its vertices, where each
row lists the edges. Both count an incidence as often as there are positions that show it: a
self-loop, or an edge with many ends at one vertex, is met once for every such end.

* `multiplicity`: how often an edge has a vertex as an end. `count_endsAt` and `count_edgesAt` find
  it in the rows of both sides.
* `sum_length_endsAt`, `sum_length_edgesAt`: both sides have as many entries as there are edges with
  an end at each of the positions.
* `build_gather_scatter`: the two indices.
-/

namespace MeshPath

/-- The number of positions over `vertices` at which the edge `e` has the end `v`. -/
def multiplicity (edges vertices : SetView) (e v : Nat) : Nat :=
  (List.range edges.cardinality).countP fun p =>
    edges.endpointSet? p = some vertices.id ∧ edges.endpoint? e p = some v

namespace Link

variable {edges vertices : SetView} {sizes : SetId → Nat} {e v : Nat}

/-- There are as many positions over a set as the edge set names it. -/
theorem length_positions (edges vertices : SetView) :
    (positions edges vertices).length = edges.endpointSets.count vertices.id := by
  have hsets : (List.range edges.cardinality).map edges.endpointSet? =
      edges.endpointSets.map some := by
    refine List.ext_getElem? fun p => ?_
    rw [List.getElem?_map, List.getElem?_map]
    by_cases hp : p < edges.cardinality
    · have hset : edges.endpointSet? p = some edges.endpointSets[p] :=
        List.getElem?_eq_getElem hp
      rw [List.getElem?_range hp, List.getElem?_eq_getElem hp, Option.map_some, hset]
      rfl
    · rw [List.getElem?_eq_none (by simpa using hp), List.getElem?_eq_none (Nat.le_of_not_lt hp)]
      rfl
  calc (positions edges vertices).length
      = ((List.range edges.cardinality).map edges.endpointSet?).count (some vertices.id) := by
        rw [positions, ← List.countP_eq_length_filter, List.count, List.countP_map]
        refine List.countP_congr fun p _ => ?_
        simp
    _ = edges.endpointSets.count vertices.id := by
        rw [hsets]
        exact List.count_map_of_injective _ _ (Option.some_injective _) _

/-! ## The ends of one edge -/

/-- The ends of an edge at the positions over a set, position by position. -/
theorem endsAt_eq_filterMap (hfilled : edges.Filled sizes) (he : e < edges.size) :
    endsAt edges vertices e = (List.range edges.cardinality).filterMap fun p =>
      if edges.endpointSet? p = some vertices.id then edges.endpoint? e p else none := by
  rw [endsAt, positions, ← List.filterMap_eq_map, List.filterMap_filter]
  refine List.filterMap_congr fun p _ => ?_
  by_cases hp : edges.endpointSet? p = some vertices.id
  · simp [hp, endpoint?_eq_some hfilled he (mem_positions.2 hp)]
  · simp [hp]

/-- A vertex is listed among the ends of an edge as often as it is one. -/
theorem count_endsAt (hfilled : edges.Filled sizes) (he : e < edges.size) :
    (endsAt edges vertices e).count v = multiplicity edges vertices e v := by
  rw [endsAt, List.count, List.countP_map, positions, List.countP_filter, multiplicity]
  refine List.countP_congr fun p _ => ?_
  by_cases hp : edges.endpointSet? p = some vertices.id
  · simp [hp, endpoint?_eq_some hfilled he (mem_positions.2 hp)]
  · simp [hp]

/-- No element past the edge set has an end. -/
theorem multiplicity_eq_zero_of_edge (hfilled : edges.Filled sizes) (he : edges.size ≤ e) :
    multiplicity edges vertices e v = 0 := by
  refine List.countP_eq_zero.2 fun p _ h => Nat.not_lt_of_le he ?_
  obtain ⟨hp, hv⟩ := of_decide_eq_true h
  exact (hfilled.exists_endpoint_iff hp).1 ⟨v, hv⟩

/-- No end lies past the vertex set. -/
theorem multiplicity_eq_zero_of_vertex (hfilled : edges.Filled sizes)
    (hvertices : sizes vertices.id = vertices.size) (hv : vertices.size ≤ v) :
    multiplicity edges vertices e v = 0 := by
  refine List.countP_eq_zero.2 fun p _ h => Nat.not_lt_of_le hv ?_
  obtain ⟨hp, hend⟩ := of_decide_eq_true h
  rw [← hvertices]
  exact hfilled.end_lt hp hend

/-! ## The edges of one vertex -/

/-- A number that only its own list holds is counted there. -/
theorem count_flatMap_range {n : Nat} {f : Nat → List Nat} (hf : ∀ a, a ≠ e → e ∉ f a)
    (he : e < n) : ((List.range n).flatMap f).count e = (f e).count e := by
  induction n with
  | zero => cases he
  | succ n ih =>
    rw [List.range_succ, List.flatMap_append, List.count_append, List.flatMap_singleton]
    rcases Nat.lt_succ_iff_lt_or_eq.1 he with hlt | rfl
    · rw [ih hlt, List.count_eq_zero_of_not_mem (hf n (Nat.ne_of_gt hlt)), Nat.add_zero]
    · have hbefore : e ∉ (List.range e).flatMap f := by
        intro hmem
        obtain ⟨a, ha, hmem⟩ := List.mem_flatMap.1 hmem
        exact hf a (Nat.ne_of_lt (List.mem_range.1 ha)) hmem
      rw [List.count_eq_zero_of_not_mem hbefore, Nat.zero_add]

/-- An edge is met at a vertex as often as it has it as an end. -/
theorem count_edgesAt (hfilled : edges.Filled sizes) :
    (edgesAt edges vertices v).count e = multiplicity edges vertices e v := by
  rcases Nat.lt_or_ge e edges.size with he | he
  · have hother : ∀ a, a ≠ e →
        e ∉ ((positions edges vertices).filter fun p => endAt edges a p = v).map fun _ => a := by
      intro a ha hmem
      obtain ⟨p, -, hp⟩ := List.mem_map.1 hmem
      exact ha hp
    rw [← count_endsAt hfilled he, edgesAt, count_flatMap_range hother he, List.map_const',
      List.count_replicate_self, ← List.countP_eq_length_filter, endsAt, List.count,
      List.countP_map]
    refine List.countP_congr fun p _ => ?_
    simp
  · rw [multiplicity_eq_zero_of_edge hfilled he]
    exact List.count_eq_zero_of_not_mem fun hmem =>
      Nat.not_lt_of_le he ((mem_edgesAt_iff hfilled).1 hmem).1

/-- A vertex has as many edges as it is listed among the ends of all edges. -/
theorem length_edgesAt (edges vertices : SetView) (v : Nat) :
    (edgesAt edges vertices v).length =
      ((List.range edges.size).flatMap (endsAt edges vertices)).count v := by
  rw [edgesAt, List.length_flatMap, List.count_flatMap]
  refine congrArg List.sum (List.map_congr_left fun e _ => ?_)
  rw [Function.comp_apply, endsAt, List.length_map, ← List.countP_eq_length_filter, List.count,
    List.countP_map]
  refine List.countP_congr fun p _ => ?_
  simp

/-! ## The number of entries -/

/-- Every edge has one end for each endpoint position over the vertices. -/
theorem sum_length_endsAt (edges vertices : SetView) :
    ((List.range edges.size).map fun e => (endsAt edges vertices e).length).sum =
      edges.size * edges.endpointSets.count vertices.id := by
  have hwidth : ∀ e, (endsAt edges vertices e).length = edges.endpointSets.count vertices.id := by
    intro e
    rw [endsAt, List.length_map, length_positions]
  simp only [hwidth, List.map_const', List.sum_replicate_nat, List.length_range]

/-- Counted from the vertices, there are as many incidences as counted from the edges. -/
theorem sum_length_edgesAt (hfilled : edges.Filled sizes)
    (hvertices : sizes vertices.id = vertices.size) :
    ((List.range vertices.size).map fun v => (edgesAt edges vertices v).length).sum =
      edges.size * edges.endpointSets.count vertices.id := by
  have hlt : ∀ v ∈ (List.range edges.size).flatMap (endsAt edges vertices), v < vertices.size := by
    intro v hv
    obtain ⟨e, he, hv⟩ := List.mem_flatMap.1 hv
    exact lt_of_incident hfilled hvertices ((mem_endsAt_iff hfilled (List.mem_range.1 he)).1 hv)
  simp only [length_edgesAt]
  rw [sum_count_range hlt, List.length_flatMap]
  exact sum_length_endsAt edges vertices

end Link

/-! ## The two indices -/

namespace Mesh

/-- A second edge, from the second vertex to itself. -/
def edgeAndLoop : MeshSet := { singleEdge with size := 2, endpoints := #[0, 1, 1, 1] }

/-- The mesh of the two vertices and the edge with a loop. -/
def loopMesh : Mesh := ⟨[twoVertices, edgeAndLoop], 2⟩

theorem reached_loopMesh : loopMesh.Reached := by
  have hends : ∀ r ∈ [(⟨⟨1⟩, 1⟩ : ElementRef), ⟨⟨1⟩, 1⟩],
      ∃ t ∈ edgeMesh.sets, t.id = r.set ∧ r.ident < t.size := by decide
  have hmem : singleEdge ∈ edgeMesh.sets := List.mem_cons_of_mem _ (List.mem_singleton_self _)
  have hloop : Step edgeMesh (edgeMesh.put edgeAndLoop) := .addEdge hmem hends rfl
  exact reached_edgeMesh.step hloop

end Mesh

namespace Builder

open PathTree

variable {m : Mesh} {b b' : Builder} {x x' : OpenExpr} {edges vertices : SetView}
  {e e' v v' : String}

/-- If an edge set has a position over a vertex set, it is read from both of them. An edge and a
vertex occur in the rows of each other as often as there are positions that show them together. The
row of an edge lists its ends by their positions, that of a vertex its edges in ascending order, and
both indices have an entry for each edge and position. -/
theorem build_gather_scatter (hm : m.Reached) (hb : b.Serves m) (hb' : b'.Serves m)
    (hedges : m.Holds edges) (hvertices : m.Holds vertices) (hsmall : edges.size < Word.span32)
    (hsmall' : vertices.size < Word.span32)
    (htyped : ∃ p, edges.endpointSet? p = some vertices.id)
    (hx : b.boundForm x = .ok (link .edgeToVertex ⟨e, edges⟩ ⟨v, vertices⟩))
    (hx' : b'.boundForm x' = .ok (link .vertexToEdge ⟨v', vertices⟩ ⟨e', edges⟩)) :
    ∃ gather scatter, (b.build x 0).1 = .ok gather ∧ (b'.build x' 0).1 = .ok scatter ∧
      (∀ i j, (gather.index.row i).count j = multiplicity edges vertices i j ∧
        (scatter.index.row j).count i = multiplicity edges vertices i j) ∧
      (∀ i < edges.size, gather.index.row i =
        (List.range edges.cardinality).filterMap fun p =>
          if edges.endpointSet? p = some vertices.id then edges.endpoint? i p else none) ∧
      (∀ j, (scatter.index.row j).Pairwise (· ≤ ·)) ∧
      gather.index.numNeighbors = edges.size * edges.endpointSets.count vertices.id ∧
      scatter.index.numNeighbors = edges.size * edges.endpointSets.count vertices.id := by
  have hregular := (Mesh.regularSets_of_reached hm).regular _ ⟨hedges, hsmall⟩
  have hregular' := (Mesh.regularSets_of_reached hm).regular _ ⟨hvertices, hsmall'⟩
  obtain ⟨gather, hok, hrows⟩ := exists_build_link hm hb hx
    (by simp [hedges, hvertices, hsmall, hsmall']) htyped .first
  obtain ⟨scatter, hok', hrows'⟩ := exists_build_link hm hb' hx'
    (by simp [hedges, hvertices, hsmall, hsmall']) htyped .first
  have hgather : ∀ i, gather.index.row i =
      if i < edges.size then Link.endsAt edges vertices i else [] := hrows.row_eq
  have hscatter : ∀ j, scatter.index.row j =
      if j < vertices.size then Link.edgesAt edges vertices j else [] := hrows'.row_eq
  refine ⟨gather, scatter, hok, hok', fun i j => ⟨?_, ?_⟩, fun i hi => ?_, fun j => ?_, ?_, ?_⟩
  · rw [hgather]
    split
    · next hi => exact Link.count_endsAt hregular.filled hi
    · next hi =>
      exact (Link.multiplicity_eq_zero_of_edge hregular.filled (Nat.le_of_not_lt hi)).symm
  · rw [hscatter]
    split
    · exact Link.count_edgesAt hregular.filled
    · next hj =>
      exact (Link.multiplicity_eq_zero_of_vertex hregular.filled hregular'.size_eq
        (Nat.le_of_not_lt hj)).symm
  · rw [hgather, if_pos hi, Link.endsAt_eq_filterMap hregular.filled hi]
  · rw [hscatter]
    split
    · exact Link.pairwise_edgesAt edges vertices j
    · exact .nil
  · exact hrows.numNeighbors_eq.trans (Link.sum_length_endsAt edges vertices)
  · exact hrows'.numNeighbors_eq.trans
      (Link.sum_length_edgesAt hregular.filled hregular'.size_eq)

/-- An edge and a loop, gathered as a view of the endpoint array and scattered into rows that are
not sorted afterwards. -/
theorem build_gather_scatter_loopMesh :
    let edges := Mesh.edgeAndLoop.toSetView
    let vertices := Mesh.twoVertices.toSetView
    let ev : BoundExpr := .link .edgeToVertex ⟨"e", edges⟩ ⟨"v", vertices⟩
    let ve : BoundExpr := .link .vertexToEdge ⟨"v", vertices⟩ ⟨"e", edges⟩
    let b : Builder := new ⟨true, true⟩
    let b' : Builder := new ⟨false, false⟩
    ∃ gather scatter, (b.build ev.toOpen 0).1 = .ok gather ∧
      (b'.build ve.toOpen 0).1 = .ok scatter ∧ (gather.index.row 1).count 1 = 2 ∧
      (scatter.index.row 1).count 1 = 2 ∧ gather.index.row 1 = [1, 1] ∧
      gather.index.numNeighbors = 4 ∧ scatter.index.numNeighbors = 4 := by
  intro edges vertices ev ve b b'
  have hm := Mesh.reached_loopMesh
  have hedges : Mesh.loopMesh.Holds edges := ⟨Mesh.edgeAndLoop, by decide, rfl⟩
  have hvertices : Mesh.loopMesh.Holds vertices := ⟨Mesh.twoVertices, by decide, rfl⟩
  obtain ⟨gather, scatter, hok, hok', hcount, hrow, -, htotal, htotal'⟩ :=
    build_gather_scatter hm (serves_new _ hm) (serves_new _ hm) hedges hvertices (by decide)
      (by decide) ⟨0, rfl⟩ (boundForm_toOpen b ev) (boundForm_toOpen b' ve)
  exact ⟨gather, scatter, hok, hok', (hcount 1 1).1, (hcount 1 1).2, hrow 1 (by decide), htotal,
    htotal'⟩

end Builder

end MeshPath
