import MeshPath.Build.Link
import MeshPath.Proofs.Build.Relation
import MeshPath.Proofs.Index.Packing
import MeshPath.Proofs.Lattice
import MeshPath.Proofs.Mesh.Filled
import MeshPath.Proofs.Success

/-!
# Links realize their relations

Over filled sets of a size that stored numbers can hold, a link that fits its sets has an index, and
the rows of this index are those of its relation.

* `gather_eq_ok`: a run over elements in which nothing fails.
* `Link.endsAt`, `Link.edgesAt`, `Link.neighborsAt`: the rows of the three kinds, whichever options
  lay them out. `mem_endsAt_iff`, `mem_edgesAt_iff`, `mem_neighborsAt_iff` read them as relations.
* `exists_edgesToVertices`, `exists_verticesToEdges`, `exists_stencilNeighbors`: the indices have
  these rows.
* `Link.exists_hasRows`, `Link.exists_realize`: all links, from both ends.
-/

namespace MeshPath

namespace Link

open Success

variable {options : BuildOptions} {edges vertices : SetView} {sizes : SetId → Nat}

/-! ## Runs in which nothing fails -/

theorem mapM_eq_ok {ε α β : Type} {f : α → Except ε β} {g : α → β} {l : List α}
    (h : ∀ a ∈ l, f a = .ok (g a)) : l.mapM f = .ok (l.map g) := by
  induction l with
  | nil => rfl
  | cons a l ih =>
    rw [List.mapM_cons, h a List.mem_cons_self, ih fun b hb => h b (List.mem_cons_of_mem a hb)]
    rfl

/-- Gathered lists, if each of them can be made. -/
theorem gather_eq_ok {ε α : Type} {f : Nat → Except ε (List α)} {g : Nat → List α}
    {start count : Nat} (h : ∀ e, start ≤ e → e < start + count → f e = .ok (g e)) :
    gather f start count = .ok ((List.range' start count).flatMap g) := by
  induction count generalizing start with
  | zero => rfl
  | succ count ih =>
    have htail : gather f (start + 1) count = .ok ((List.range' (start + 1) count).flatMap g) :=
      ih fun e hle hlt => h e (by omega) (by omega)
    rw [gather, h start (Nat.le_refl _) (by omega), htail]
    rfl

/-! ## Positions -/

/-- The positions of `edges` over `vertices`. -/
def positions (edges vertices : SetView) : List Nat :=
  (List.range edges.cardinality).filter fun p => edges.endpointSet? p = some vertices.id

theorem mem_positions {p : Nat} :
    p ∈ positions edges vertices ↔ edges.endpointSet? p = some vertices.id := by
  rw [positions, List.mem_filter, List.mem_range, decide_eq_true_iff]
  exact and_iff_right_of_imp SetView.lt_cardinality

/-- There are positions exactly if some position lies over the vertex set. -/
theorem incidentPositions_eq_ok (h : ∃ p, edges.endpointSet? p = some vertices.id) :
    incidentPositions edges vertices = .ok (positions edges vertices) := by
  obtain ⟨p, hp⟩ := h
  have hcard : edges.cardinality ≠ 0 := Nat.ne_of_gt (Nat.zero_lt_of_lt (SetView.lt_cardinality hp))
  have hne : positions edges vertices ≠ [] := List.ne_nil_of_mem (mem_positions.2 hp)
  rw [incidentPositions, if_neg hcard]
  exact if_neg hne

/-- If some position lies over the vertices, then the positions are found. -/
theorem ofPath_incidentPositions (h : ∃ p, edges.endpointSet? p = some vertices.id) :
    Failure.ofPath (incidentPositions edges vertices) = .ok (positions edges vertices) := by
  rw [incidentPositions_eq_ok h]
  rfl

/-- The end of an edge at a position, for edges and positions that exist. -/
def endAt (edges : SetView) (e p : Nat) : Nat := (edges.endpoint? e p).getD 0

/-- An edge of a filled set has an end at each position. -/
theorem endpoint?_eq_some (hfilled : edges.Filled sizes) {e p : Nat} (he : e < edges.size)
    (hp : p ∈ positions edges vertices) : edges.endpoint? e p = some (endAt edges e p) := by
  obtain ⟨v, hv⟩ := (hfilled.exists_endpoint_iff (mem_positions.1 hp)).2 he
  rw [endAt, hv]
  rfl

/-- The incidences of an edge are its ends at the positions. -/
theorem incident_iff (hfilled : edges.Filled sizes) {e v : Nat} :
    Incident edges vertices e v ↔
      e < edges.size ∧ ∃ p ∈ positions edges vertices, endAt edges e p = v := by
  refine and_congr_right fun he => exists_congr fun p => ?_
  rw [← mem_positions]
  refine and_congr_right fun hp => ?_
  rw [endpoint?_eq_some hfilled he hp]
  exact Option.some_inj

/-- An end lies in the vertex set. -/
theorem lt_of_incident (hfilled : edges.Filled sizes)
    (hvertices : sizes vertices.id = vertices.size) {e v : Nat} (h : Incident edges vertices e v) :
    v < vertices.size := by
  obtain ⟨-, p, hp, hend⟩ := h
  rw [← hvertices]
  exact hfilled.end_lt hp hend

/-! ## From edges to vertices -/

/-- The ends of an edge at the positions over the vertex set. -/
def endsAt (edges vertices : SetView) (e : Nat) : List Nat :=
  (positions edges vertices).map (endAt edges e)

/-- The ends of an edge that lie in the vertex set are the vertices that it is incident with. -/
theorem mem_endsAt_iff (hfilled : edges.Filled sizes) {e v : Nat} (he : e < edges.size) :
    v ∈ endsAt edges vertices e ↔ Incident edges vertices e v := by
  rw [endsAt, List.mem_map, incident_iff hfilled]
  exact (and_iff_right he).symm

/-- If all positions lie over one set, the ends of an edge stand in the endpoint array as they
are. -/
theorem ends_eq_endsAt (hfilled : edges.Filled sizes)
    (hpositions : positions edges vertices = List.range edges.cardinality) {e : Nat}
    (he : e < edges.size) : edges.ends e = endsAt edges vertices e := by
  refine List.ext_getElem? fun p => ?_
  rw [hfilled.getElem?_ends he, endsAt, hpositions, List.getElem?_map]
  split
  · next hp =>
    have hmem : p ∈ positions edges vertices := by
      rw [hpositions]
      exact List.mem_range.2 hp
    rw [List.getElem?_range hp, endpoint?_eq_some hfilled he hmem]
    rfl
  · next hp =>
    rw [List.getElem?_eq_none (by simpa using hp)]
    rfl

/-- If all positions lie over the vertices, then the edge set is homogeneous, and its endpoint array
serves as the index. -/
theorem exists_view (hfilled : edges.Filled sizes)
    (hall : (positions edges vertices).length = edges.cardinality)
    (htyped : ∃ p, edges.endpointSet? p = some vertices.id) :
    ∃ view, EndpointView.ofSet edges = .ok view ∧
      (PathIndex.endpoints view).HasRows edges.size (endsAt edges vertices) := by
  obtain ⟨p, hp⟩ := htyped
  have hcard : edges.cardinality ≠ 0 := Nat.ne_of_gt (Nat.zero_lt_of_lt (SetView.lt_cardinality hp))
  have hpositions : positions edges vertices = List.range edges.cardinality :=
    List.filter_sublist.eq_of_length (by rw [List.length_range]; exact hall)
  have hsets : ∀ id ∈ edges.endpointSets, id = vertices.id := by
    intro id hid
    obtain ⟨p, hp⟩ := List.mem_iff_getElem?.1 hid
    have hmem : p ∈ positions edges vertices := by
      rw [hpositions]
      exact List.mem_range.2 (SetView.lt_cardinality hp)
    have hset := mem_positions.1 hmem
    rw [SetView.endpointSet?, hp] at hset
    exact Option.some.inj hset
  have hhomogeneous : edges.isHomogeneous = true :=
    SetView.isHomogeneous_iff.2 ⟨hcard, fun a ha b hb => (hsets a ha).trans (hsets b hb).symm⟩
  rw [EndpointView.ofSet, if_neg hcard, dif_pos hhomogeneous]
  refine ⟨_, rfl, rfl, fun e => ?_, ?_⟩
  · show edges.ends e = _
    split
    · next he => exact ends_eq_endsAt hfilled hpositions he
    · next he => exact hfilled.ends_eq_nil (Nat.le_of_not_lt he)
  -- Every edge has as many ends as there are positions.
  · have hwidth : ∀ e, (endsAt edges vertices e).length = edges.cardinality := fun e => by
      rw [endsAt, List.length_map, hall]
    simp only [hwidth, List.map_const', List.sum_replicate_nat, List.length_range]
    rfl

/-- The rows are the ends at the positions over the vertex set, whether they are copied or read
from the endpoint array. -/
theorem exists_edgesToVertices (hfilled : edges.Filled sizes) (hsize : edges.size < Word.span32)
    (htyped : ∃ p, edges.endpointSet? p = some vertices.id) :
    ∃ index, edgesToVertices options edges vertices = .ok index ∧
      index.HasRows edges.size (endsAt edges vertices) := by
  by_cases hshare : (positions edges vertices).length = edges.cardinality ∧
      options.shareEndpoints = true
  -- The rows are read from the endpoint array of the set.
  · obtain ⟨view, hview, hrows⟩ := exists_view hfilled hshare.1 htyped
    refine ⟨.endpoints view, bind_eq_ok_iff.2 ⟨_, ofPath_incidentPositions htyped, ?_⟩, hrows⟩
    rw [if_pos hshare, hview]
    rfl
  -- The rows are copied, edge by edge, from the positions over the vertex set.
  · have hgather : gather (fun e => (positions edges vertices).mapM (readEnd edges e)) 0
        (Word.low32 edges.size) =
          .ok ((List.range edges.size).flatMap (endsAt edges vertices)) := by
      rw [Word.low32_eq_self hsize, List.range_eq_range']
      refine gather_eq_ok fun e _ he => mapM_eq_ok fun p hp => ?_
      rw [readEnd, endpoint?_eq_some hfilled (by omega) hp]
    refine ⟨_, bind_eq_ok_iff.2 ⟨_, ofPath_incidentPositions htyped, ?_⟩,
      PathIndex.hasRows_ofWidth fun e _ => List.length_map _⟩
    rw [if_neg hshare]
    exact bind_eq_ok_iff.2 ⟨_, hgather, rfl⟩

/-! ## From vertices to edges -/

/-- The edges that have a vertex as an end, each once for every such end. -/
def edgesAt (edges vertices : SetView) (v : Nat) : List Nat :=
  (List.range edges.size).flatMap fun e =>
    ((positions edges vertices).filter fun p => endAt edges e p = v).map fun _ => e

/-- The edges of a vertex are those that it is an end of. -/
theorem mem_edgesAt_iff (hfilled : edges.Filled sizes) {e v : Nat} :
    e ∈ edgesAt edges vertices v ↔ Incident edges vertices e v := by
  simp only [edgesAt, List.mem_flatMap, List.mem_range, List.mem_map, List.mem_filter,
    decide_eq_true_eq, incident_iff hfilled]
  constructor
  · rintro ⟨e, he, p, hp, rfl⟩
    exact ⟨he, p, hp⟩
  · rintro ⟨he, p, hp⟩
    exact ⟨e, he, p, hp, rfl⟩

/-- Edges are met in ascending order. -/
theorem pairwise_edgesAt (edges vertices : SetView) (v : Nat) :
    (edgesAt edges vertices v).Pairwise (· ≤ ·) := by
  have hmem : ∀ {e a : Nat},
      a ∈ ((positions edges vertices).filter fun p => endAt edges e p = v).map (fun _ => e) →
        a = e := by
    intro e a ha
    obtain ⟨p, -, rfl⟩ := List.mem_map.1 ha
    rfl
  refine List.pairwise_flatMap.2 ⟨fun e _ => ?_, List.pairwise_lt_range.imp fun hlt a ha b hb => ?_⟩
  · exact List.pairwise_of_forall_mem_list fun a ha b hb =>
      Nat.le_of_eq ((hmem ha).trans (hmem hb).symm)
  · rw [hmem ha, hmem hb]
    exact Nat.le_of_lt hlt

/-- One entry for each edge and position, under the end that stands there. -/
def incidences (edges vertices : SetView) : List (Nat × List Nat) :=
  (List.range edges.size).flatMap fun e =>
    (positions edges vertices).map fun p => (endAt edges e p, [e])

/-- The sinks that are packed for a vertex are its edges, once for each end. -/
theorem gathered_incidences (edges vertices : SetView) (v : Nat) :
    Segmented.gathered (incidences edges vertices) v = edgesAt edges vertices v := by
  rw [Segmented.gathered, incidences, edgesAt, List.filter_flatMap, List.flatMap_assoc]
  congr 1
  funext e
  rw [List.filter_map, List.flatMap_map, List.map_eq_flatMap]
  rfl

/-- The index from vertices to edges has the edges of each vertex as its rows. -/
theorem exists_verticesToEdges (hfilled : edges.Filled sizes) (hsize : edges.size < Word.span32)
    (hvertices : sizes vertices.id = vertices.size)
    (htyped : ∃ p, edges.endpointSet? p = some vertices.id) :
    ∃ index, verticesToEdges options vertices edges = .ok index ∧
      index.HasRows vertices.size (edgesAt edges vertices) := by
  have hend : ∀ {e p : Nat}, e < edges.size → p ∈ positions edges vertices →
      endAt edges e p < vertices.size := by
    intro e p he hp
    rw [← hvertices]
    exact hfilled.end_lt (mem_positions.1 hp) (endpoint?_eq_some hfilled he hp)
  have hgather : gather (fun e => (positions edges vertices).mapM (incidence vertices edges e)) 0
      (Word.low32 edges.size) = .ok (incidences edges vertices) := by
    rw [Word.low32_eq_self hsize, incidences, List.range_eq_range']
    refine gather_eq_ok fun e _ he => mapM_eq_ok fun p hp => ?_
    have helement : e < edges.size := by omega
    rw [incidence, readEnd, endpoint?_eq_some hfilled helement hp]
    exact if_pos (hend helement hp)
  have hrange : ∀ entry ∈ incidences edges vertices, entry.1 < vertices.size := by
    intro entry hentry
    obtain ⟨e, he, hentry⟩ := List.mem_flatMap.1 hentry
    obtain ⟨p, hp, rfl⟩ := List.mem_map.1 hentry
    exact hend (List.mem_range.1 he) hp
  obtain ⟨rows, hpack, hrows⟩ := PathIndex.hasRows_of_pack options.sortRows hrange fun v _ => by
    rw [gathered_incidences]
    exact pairwise_edgesAt edges vertices v
  refine ⟨.segmented rows, ?_, hrows.congr fun v _ => gathered_incidences edges vertices v⟩
  refine bind_eq_ok_iff.2 ⟨_, ofPath_incidentPositions htyped, ?_⟩
  refine bind_eq_ok_iff.2 ⟨_, hgather, ?_⟩
  rw [hpack]
  rfl

/-! ## Stencils -/

/-- The shifts of an element of a lattice by the offsets of a stencil. -/
def neighborsAt (lattice : SetView) (s : Stencil) (i : Nat) : List Nat :=
  s.offsets.map (Lattice.shift (lattice.dimensions?.getD []) i)

section Stencil

variable {source sink : SetView} {s : Stencil} {dims : List Nat}

/-- The shifts of an element are its neighbours. -/
theorem mem_neighborsAt_iff (hdims : source.dimensions? = some dims) {i j : Nat}
    (hi : i < source.size) : j ∈ neighborsAt source s i ↔ Neighbor source s i j := by
  rw [neighborsAt, hdims, List.mem_map, Neighbor, hdims, and_iff_right hi]
  simp

/-- Neighbours are elements of the lattice. -/
theorem lt_of_mem_neighborsAt (hfilled : source.Filled sizes) (hsize : source.size < Word.span32)
    (hdims : source.dimensions? = some dims) (harity : dims.length = s.arity) {i j : Nat}
    (hj : j ∈ neighborsAt source s i) : j < source.size := by
  obtain ⟨extents, hextents, rfl⟩ := Option.map_eq_some_iff.1 hdims
  obtain ⟨hcount, -⟩ := hfilled.lattice hextents
  rw [neighborsAt, hdims] at hj
  obtain ⟨o, ho, rfl⟩ := List.mem_map.1 hj
  rw [hcount]
  exact Lattice.shift_lt_size extents i ((s.length_of_mem o ho).trans harity.symm) (hcount ▸ hsize)

/-- The index of a stencil has the shifts of each element as its rows. -/
theorem exists_stencilNeighbors (hfilled : source.Filled sizes) (hsize : source.size < Word.span32)
    (hsame : source.id = sink.id) (hdims : source.dimensions? = some dims)
    (harity : dims.length = s.arity) :
    ∃ index, stencilNeighbors source sink s = .ok index ∧
      index.HasRows source.size (neighborsAt source s) := by
  obtain ⟨extents, hextents, rfl⟩ := Option.map_eq_some_iff.1 hdims
  have hfind : s.offsets.find? (·.length ≠ extents.dims.length) = none := by
    rw [List.find?_eq_none]
    intro o ho
    simpa [harity] using s.length_of_mem o ho
  -- Nothing is lost in storing the numbers of the neighbours.
  have hrow : ∀ i, neighborsAt source s i = s.offsets.map (Lattice.shift extents.dims i) := by
    intro i
    rw [neighborsAt, hdims]
    rfl
  have hlow : ∀ i, (s.offsets.map fun o => Word.low32 (Lattice.shift extents.dims i o)) =
      neighborsAt source s i := by
    intro i
    rw [hrow]
    refine List.map_congr_left fun o ho => Word.low32_eq_self (Nat.lt_trans ?_ hsize)
    refine lt_of_mem_neighborsAt hfilled hsize hdims harity (i := i) ?_
    rw [hrow]
    exact List.mem_map_of_mem ho
  refine ⟨_, ?_, PathIndex.hasRows_ofWidth fun i _ => List.length_map _⟩
  rw [stencilNeighbors, hextents]
  simp only [hlow]
  rw [if_neg (by simpa using hsame), hfind]

end Stencil

/-! ## All links -/

end Link

namespace SetView

/-- The set is filled and counted in `sizes`, and stored numbers can hold its elements. -/
structure Regular (sizes : SetId → Nat) (s : SetView) : Prop where
  filled : s.Filled sizes
  size_eq : sizes s.id = s.size
  small : s.size < Word.span32

/-- The elements of a lattice are those of its extents, which are positive signed words. -/
theorem Regular.size_eq_and_pos_and_lt {s : SetView} {dims : List Nat} (h : s.Regular sizes)
    (hdims : s.dimensions? = some dims) :
    s.size = dims.foldr (· * ·) 1 ∧ ∀ d ∈ dims, 0 < d ∧ d < Word.span64 / 2 := by
  obtain ⟨extents, hextents, rfl⟩ := Option.map_eq_some_iff.1 hdims
  obtain ⟨hsize, -⟩ := h.filled.lattice hextents
  exact ⟨hsize, extents.pos_and_lt (hsize ▸ h.small)⟩

end SetView

/-- The row of an element under a link, read from the end `rows`. -/
def LinkKind.row (kind : LinkKind) (source sink : SetView) (rows : End) (i : Nat) : List Nat :=
  match kind, rows with
  | edgeToVertex, .first => Link.endsAt source sink i
  | edgeToVertex, .second => Link.edgesAt source sink i
  | vertexToEdge, .first => Link.edgesAt sink source i
  | vertexToEdge, .second => Link.endsAt sink source i
  | stencil s, .first => Link.neighborsAt source s i
  | stencil s, .second => Link.neighborsAt sink s.inverse i

namespace Link

variable {kind : LinkKind} {source sink : SetView}

section Regular

variable (hsource : source.Regular sizes) (hsink : sink.Regular sizes)
  (hsame : source.id = sink.id → source = sink) (htyped : kind.WellTyped source sink)
include hsource hsink hsame htyped

/-- Under all options, a link that fits its sets has an index with the same rows. -/
theorem exists_hasRows (options : BuildOptions) (rows : End) :
    ∃ index, realize options kind source sink rows = .ok index ∧
      index.HasRows (rows.pick source sink).size (kind.row source sink rows) := by
  cases kind with
  | edgeToVertex =>
    cases rows with
    | first => exact exists_edgesToVertices hsource.filled hsource.small htyped
    | second => exact exists_verticesToEdges hsource.filled hsource.small hsink.size_eq htyped
  | vertexToEdge =>
    cases rows with
    | first => exact exists_verticesToEdges hsink.filled hsink.small hsource.size_eq htyped
    | second => exact exists_edgesToVertices hsink.filled hsink.small htyped
  | stencil s =>
    obtain ⟨hid, dims, hdims, harity⟩ := htyped
    cases rows with
    | first =>
      obtain ⟨index, hindex, hrows⟩ :=
        exists_stencilNeighbors hsource.filled hsource.small hid hdims harity
      exact ⟨index, by rw [realize, hindex]; rfl, hrows⟩
    | second =>
      -- Both sides are one lattice, so that its dimensions are those of the sink.
      rw [hsame hid] at hdims
      obtain ⟨index, hindex, hrows⟩ :=
        exists_stencilNeighbors (s := s.inverse) hsink.filled hsink.small hid.symm hdims harity
      exact ⟨index, by rw [realize, hindex]; rfl, hrows⟩

/-- The rows of a link hold what it relates. -/
theorem mem_row_iff {rows : End} {i j : Nat} (hi : i < (rows.pick source sink).size) :
    j ∈ kind.row source sink rows i ↔ kind.Rel source sink rows i j := by
  cases kind with
  | edgeToVertex =>
    cases rows with
    | first => exact mem_endsAt_iff hsource.filled hi
    | second => exact mem_edgesAt_iff hsource.filled
  | vertexToEdge =>
    cases rows with
    | first => exact mem_edgesAt_iff hsink.filled
    | second => exact mem_endsAt_iff hsink.filled hi
  | stencil s =>
    obtain ⟨hid, dims, hdims, -⟩ := htyped
    cases rows with
    | first => exact mem_neighborsAt_iff hdims hi
    | second =>
      rw [hsame hid] at hdims
      exact mem_neighborsAt_iff hdims hi

/-- A link relates elements of the sets at its ends. -/
theorem lt_of_rel {rows : End} {i j : Nat} (h : kind.Rel source sink rows i j) :
    i < (rows.pick source sink).size ∧ j < (rows.other.pick source sink).size := by
  have hincident : ∀ {edges vertices : SetView} {e v : Nat}, edges.Regular sizes →
      vertices.Regular sizes → Incident edges vertices e v →
        e < edges.size ∧ v < vertices.size := fun hedges hvertices h =>
    ⟨h.1, lt_of_incident hedges.filled hvertices.size_eq h⟩
  cases kind with
  | edgeToVertex =>
    cases rows with
    | first => exact hincident hsource hsink h
    | second => exact (hincident hsource hsink h).symm
  | vertexToEdge =>
    cases rows with
    | first => exact (hincident hsink hsource h).symm
    | second => exact hincident hsink hsource h
  | stencil s =>
    obtain ⟨hid, dims, hdims, harity⟩ := htyped
    -- Both sides are one lattice.
    obtain rfl : source = sink := hsame hid
    cases rows with
    | first =>
      exact ⟨h.1, lt_of_mem_neighborsAt hsource.filled hsource.small hdims harity
        ((mem_neighborsAt_iff hdims h.1).2 h)⟩
    | second =>
      exact ⟨h.1, lt_of_mem_neighborsAt (s := s.inverse) hsource.filled hsource.small hdims harity
        ((mem_neighborsAt_iff hdims h.1).2 h)⟩

end Regular

/-- A link that fits its sets has an index, and this index realizes the relation of the link. -/
theorem exists_realize (options : BuildOptions) (hsource : source.Regular sizes)
    (hsink : sink.Regular sizes) (hsame : source.id = sink.id → source = sink)
    (htyped : kind.WellTyped source sink) (rows : End) :
    ∃ index, realize options kind source sink rows = .ok index ∧
      index.Realizes (rows.pick source sink).size (kind.Rel source sink rows) := by
  obtain ⟨index, hindex, hrows⟩ := exists_hasRows hsource hsink hsame htyped options rows
  have hrel : ∀ {i j : Nat}, kind.Rel source sink rows i j → i < (rows.pick source sink).size :=
    fun h => (lt_of_rel hsource hsink hsame htyped h).1
  refine ⟨index, hindex, hrows.realizes (fun hi => ?_) hrel⟩
  exact mem_row_iff hsource hsink hsame htyped hi

end Link

end MeshPath
