import MeshPath.Mesh.Box

/-!
# Filled sets

A set is *filled* if every element has one end for each endpoint position, each of them an element
of the set behind its position. The sizes of those sets are a parameter, since they may grow.

* `SetView.Filled`: the property, which stays when the sizes grow (`Filled.mono`).
* `Filled.getElem?_ends`: the ends of an element are those at its positions.
* `filled_push`: one more element with ends inside the sizes. `ends_push`: it leaves the ends of the
  other elements.
* `MeshSet.Extends`: what an operation on a set may do to it: add elements and hand out references
  to elements that exist. `extends_add`, `extends_addEdge`,
  `extends_vertices_createBox`, `extends_edges_createBox`.
-/

namespace MeshPath

/-- The ends at the positions of one element follow those of the elements before it. -/
theorem flat_lt_iff (element n : Nat) {position card : Nat} (h : position < card) :
    element * card + position < n * card ↔ element < n := by
  constructor
  · intro hlt
    refine Nat.lt_of_not_le fun hle => ?_
    have hmul := Nat.mul_le_mul_right card hle
    omega
  · intro hlt
    have hmul := Nat.mul_le_mul_right card (Nat.succ_le_of_lt hlt)
    rw [Nat.succ_mul] at hmul
    omega

namespace SetView

/-- Every element has its ends, which are elements of the sets behind their positions. A lattice
has no endpoint positions, and its elements are those of its extents. -/
structure Filled (sizes : SetId → Nat) (s : SetView) : Prop where
  endpoints_size : s.endpoints.size = s.size * s.cardinality
  end_lt : ∀ {element position v : Nat} {id : SetId}, s.endpointSet? position = some id →
    s.endpoint? element position = some v → v < sizes id
  lattice : ∀ {e : Lattice.Extents}, s.extents = some e → s.size = e.size ∧ s.endpointSets = []

variable {sizes sizes' : SetId → Nat} {s : SetView}

/-- A set stays filled when others grow. -/
theorem Filled.mono (h : s.Filled sizes) (hle : ∀ id, sizes id ≤ sizes' id) : s.Filled sizes' where
  endpoints_size := h.endpoints_size
  end_lt hposition hend := Nat.lt_of_lt_of_le (h.end_lt hposition hend) (hle _)
  lattice := h.lattice

/-- A set with endpoint positions is no lattice. -/
theorem Filled.extents_eq_none (h : s.Filled sizes) (hsets : s.endpointSets ≠ []) :
    s.extents = none := by
  cases hextents : s.extents with
  | none => rfl
  | some e => exact absurd (h.lattice hextents).2 hsets

theorem lt_cardinality {position : Nat} {id : SetId} (h : s.endpointSet? position = some id) :
    position < s.cardinality := (List.getElem?_eq_some_iff.1 h).1

/-- Exactly the elements have an end at a position. -/
theorem Filled.exists_endpoint_iff (h : s.Filled sizes) {element position : Nat} {id : SetId}
    (hposition : s.endpointSet? position = some id) :
    (∃ v, s.endpoint? element position = some v) ↔ element < s.size := by
  rw [← flat_lt_iff element s.size (lt_cardinality hposition), ← h.endpoints_size, endpoint?]
  constructor
  · rintro ⟨v, hv⟩
    exact (Array.getElem?_eq_some_iff.1 hv).1
  · intro hlt
    exact ⟨_, Array.getElem?_eq_getElem hlt⟩

/-- The array holds all ends of an element. -/
theorem Filled.ends_eq (h : s.Filled sizes) {element : Nat} (helement : element < s.size) :
    s.ends element = (s.endpoints.extract (element * s.cardinality)
      (element * s.cardinality + s.cardinality)).toList := by
  have hmul := Nat.mul_le_mul_right s.cardinality (Nat.succ_le_of_lt helement)
  rw [Nat.succ_mul] at hmul
  rw [ends, if_pos (by rw [h.endpoints_size]; exact hmul)]

/-- An element has its ends in the order of the positions. -/
theorem Filled.getElem?_ends (h : s.Filled sizes) {element : Nat} (helement : element < s.size)
    (position : Nat) : (s.ends element)[position]? =
      if position < s.cardinality then s.endpoint? element position else none := by
  have hmul := Nat.mul_le_mul_right s.cardinality (Nat.succ_le_of_lt helement)
  rw [Nat.succ_mul, ← h.endpoints_size] at hmul
  rw [h.ends_eq helement, Array.getElem?_toList, Array.getElem?_extract, Nat.min_eq_left hmul,
    Nat.add_sub_cancel_left]
  rfl

/-- Past the elements there are no ends. -/
theorem Filled.ends_eq_nil (h : s.Filled sizes) {element : Nat} (helement : s.size ≤ element) :
    s.ends element = [] := by
  rw [ends]
  split
  -- Without endpoint positions an element would fit, but it has no ends either.
  · next hfits =>
    have hmul := Nat.mul_le_mul_right s.cardinality helement
    have hcard : s.cardinality = 0 := by
      rw [h.endpoints_size] at hfits
      omega
    simp [hcard]
  · rfl

end SetView

namespace MeshSet

variable {sizes : SetId → Nat} {s s' t : MeshSet} {r : ElementRef}

/-- A new vertex set has no ends to fill. -/
theorem filled_vertexSet (id : SetId) (name : String) :
    (vertexSet id name).Filled sizes where
  endpoints_size := rfl
  end_lt h _ := by cases h
  lattice h := by cases h

theorem filled_edgeSet (id : SetId) (name : String) (targets : List MeshSet) :
    (edgeSet id name targets).Filled sizes where
  endpoints_size := (Nat.zero_mul _).symm
  end_lt _ h := by cases h
  lattice h := by cases h

/-- A lattice has its elements from the beginning. -/
theorem filled_lattice {id : SetId} {name : String} {dims : List Nat}
    (h : lattice id name dims = .ok s) : s.Filled sizes ∧ s.id = id := by
  unfold lattice at h
  split at h
  · cases h
  · cases h
    refine ⟨⟨rfl, ?_, ?_⟩, rfl⟩
    · intro _ _ _ _ h _
      cases h
    · intro e h
      cases h
      exact ⟨rfl, rfl⟩

/-- A new element has the ends that were given for it, and the others keep theirs. -/
theorem endpoint?_push (h : s.Filled sizes) {ends : List Nat}
    (hlength : ends.length = s.cardinality) {element position : Nat}
    (hposition : position < s.cardinality) :
    (s.push ends).2.endpoint? element position =
      if element = s.size then ends[position]? else s.endpoint? element position := by
  have hget : (s.push ends).2.endpoint? element position =
      (s.endpoints ++ ends.toArray)[element * s.cardinality + position]? := rfl
  have hold := flat_lt_iff element s.size hposition
  rw [← h.endpoints_size] at hold
  rw [hget, Array.getElem?_append]
  -- The new ends follow the old ones, so they are those of the element `s.size`.
  by_cases heq : element = s.size
  · have hend : ¬ element * s.cardinality + position < s.endpoints.size := by
      rw [hold]
      omega
    rw [if_neg hend, if_pos heq, h.endpoints_size, heq, Nat.add_sub_cancel_left,
      List.getElem?_toArray]
  · rw [if_neg heq]
    split
    · rfl
    · next hend =>
      -- A later element starts past the ends of the new one.
      have hlt : s.size + 1 ≤ element := by
        rw [hold] at hend
        omega
      have hmul := Nat.mul_le_mul_right s.cardinality hlt
      rw [Nat.succ_mul] at hmul
      rw [List.getElem?_toArray, SetView.endpoint?, Array.getElem?_eq_none (Nat.le_of_not_lt hend)]
      refine List.getElem?_eq_none ?_
      rw [hlength, h.endpoints_size]
      omega

/-- One more element, with an end inside its set for each position. -/
theorem filled_push (h : s.Filled sizes) (hextents : s.extents = none) {ends : List Nat}
    (hlength : ends.length = s.cardinality)
    (hends : ∀ {position v : Nat} {id : SetId}, s.endpointSet? position = some id →
      ends[position]? = some v → v < sizes id) : (s.push ends).2.Filled sizes where
  endpoints_size := by
    have hsize : (s.push ends).2.endpoints.size = s.endpoints.size + ends.length := by
      simp [push]
    rw [hsize, hlength, h.endpoints_size]
    exact (Nat.succ_mul _ _).symm
  end_lt {element position v id} hposition hend := by
    have hposition' : s.endpointSet? position = some id := hposition
    rw [endpoint?_push h hlength (SetView.lt_cardinality hposition')] at hend
    -- An end of the new element is inside by assumption, and the others are as before.
    split at hend
    · exact hends hposition' hend
    · exact h.end_lt hposition' hend
  lattice he := by
    have he' : s.extents = some _ := he
    rw [hextents] at he'
    cases he'

/-- The new element has the ends given for it, and every other element keeps its ends. -/
theorem ends_push (h : s.Filled sizes) {ends : List Nat} (hlength : ends.length = s.cardinality)
    (hpush : (s.push ends).2.Filled sizes) {element : Nat} (helement : element ≤ s.size) :
    (s.push ends).2.ends element = if element = s.size then ends else s.ends element := by
  refine List.ext_getElem? fun position => ?_
  have hcard : (s.push ends).2.cardinality = s.cardinality := rfl
  rw [hpush.getElem?_ends (Nat.lt_succ_of_le helement), hcard]
  split
  · next hposition =>
    rw [endpoint?_push h hlength hposition]
    split
    · rfl
    · next hne => rw [h.getElem?_ends (Nat.lt_of_le_of_ne helement hne), if_pos hposition]
  · next hposition =>
    split
    · rw [List.getElem?_eq_none (by omega)]
    · next hne => rw [h.getElem?_ends (Nat.lt_of_le_of_ne helement hne), if_neg hposition]

/-- What an operation on a set may do: it adds elements, and it hands out references to elements
of the set. -/
structure Extends (sizes : SetId → Nat) (s s' : MeshSet) (created : List ElementRef) : Prop where
  filled : s'.Filled sizes
  id_eq : s'.id = s.id
  size_le : s.size ≤ s'.size
  owned : ∀ r ∈ created, r.set = s.id ∧ r.ident < s'.size

theorem Extends.refl (h : s.Filled sizes) : Extends sizes s s [] :=
  ⟨h, rfl, Nat.le_refl _, fun _ hr => absurd hr List.not_mem_nil⟩

theorem Extends.rename (h : s.Filled sizes) (name : String) :
    Extends sizes s (s.rename name) [] :=
  ⟨⟨h.endpoints_size, h.end_lt, h.lattice⟩, rfl, Nat.le_refl _,
    fun _ hr => absurd hr List.not_mem_nil⟩

/-- The reference to a new element has the number of elements before it, or less. -/
theorem extends_push {ends : List Nat} (h : (s.push ends).2.Filled sizes) :
    Extends sizes s (s.push ends).2 [(s.push ends).1] where
  filled := h
  id_eq := rfl
  size_le := Nat.le_succ _
  owned := by
    intro r hr
    rw [List.mem_singleton.1 hr]
    exact ⟨rfl, Nat.lt_succ_of_le (Word.low32_le s.size)⟩

/-- A vertex has no ends. It is added to a set without endpoint positions that is no lattice. -/
theorem push_of_add (hadd : s.add = .ok (r, s')) :
    s.push [] = (r, s') ∧ s.cardinality = 0 ∧ s.extents = none := by
  unfold add at hadd
  split at hadd
  · cases hadd
  · next hsets =>
    split at hadd
    · cases hadd
    · next hextents =>
      refine ⟨Except.ok.inj hadd, ?_, by simpa using hextents⟩
      rw [SetView.cardinality, Decidable.not_not.1 hsets]
      rfl

/-- A vertex extends its set by one element, which is handed out. -/
theorem extends_add (h : s.Filled sizes) (hadd : s.add = .ok (r, s')) :
    Extends sizes s s' [r] := by
  obtain ⟨hpush, hcard, hextents⟩ := push_of_add hadd
  have hfilled : (s.push []).2.Filled sizes :=
    filled_push h hextents hcard.symm fun _ hend => by cases hend
  have hextends := extends_push hfilled
  rw [hpush] at hextends
  exact hextends

/-- Ends that are accepted lie in the sets of their positions. -/
theorem map_set_of_misplacedEnd? {position : Nat} {sets : List SetId} {ends : List ElementRef}
    (hlength : ends.length = sets.length) (h : misplacedEnd? position sets ends = none) :
    ends.map (·.set) = sets := by
  induction ends generalizing position sets with
  | nil =>
    cases sets with
    | nil => rfl
    | cons => cases hlength
  | cons e ends ih =>
    cases sets with
    | nil => cases hlength
    | cons expected sets =>
      rw [misplacedEnd?] at h
      split at h
      · next hset => rw [List.map_cons, hset, ih (Nat.succ.inj hlength) h]
      · cases h

/-- An edge has the ends given for it, one in the set behind each endpoint position. -/
theorem push_of_addEdge {ends : List ElementRef} (hadd : s.addEdge ends = .ok (r, s')) :
    s.push (ends.map (·.ident)) = (r, s') ∧ s.endpointSets ≠ [] ∧
      ends.length = s.cardinality ∧ ends.map (·.set) = s.endpointSets := by
  unfold addEdge at hadd
  split at hadd
  · cases hadd
  · next hsets =>
    split at hadd
    · cases hadd
    · next hlength =>
      split at hadd
      · cases hadd
      · next hplaced =>
        have hcard : ends.length = s.endpointSets.length := Decidable.not_not.1 hlength
        exact ⟨Except.ok.inj hadd, hsets, hcard, map_set_of_misplacedEnd? hcard hplaced⟩

/-- The ends of an edge are elements of the sets behind their positions. -/
theorem extends_addEdge {ends : List ElementRef} (h : s.Filled sizes)
    (howned : ∀ e ∈ ends, e.ident < sizes e.set) (hadd : s.addEdge ends = .ok (r, s')) :
    Extends sizes s s' [r] := by
  obtain ⟨hpush, hsets, hcard, hmap⟩ := push_of_addEdge hadd
  have hfilled : (s.push (ends.map (·.ident))).2.Filled sizes := by
    refine filled_push h (h.extents_eq_none hsets) (by rw [List.length_map]; exact hcard) ?_
    intro position v id hposition hend
    -- The number at a position is that of the reference given for it.
    rw [List.getElem?_map] at hend
    obtain ⟨e, he, rfl⟩ := Option.map_eq_some_iff.1 hend
    rw [SetView.endpointSet?, ← hmap, List.getElem?_map, he] at hposition
    cases hposition
    exact howned e (List.mem_of_getElem? he)
  have hextends := extends_push hfilled
  rw [hpush] at hextends
  exact hextends

/-- Extensions in a row hand out what each of them does. -/
theorem Extends.trans {rs rs' : List ElementRef} (h : Extends sizes s s' rs)
    (h' : Extends sizes s' t rs') : Extends sizes s t (rs ++ rs') where
  filled := h'.filled
  id_eq := h'.id_eq.trans h.id_eq
  size_le := Nat.le_trans h.size_le h'.size_le
  owned := by
    intro r hr
    rcases List.mem_append.1 hr with hr | hr
    · exact ⟨(h.owned r hr).1, Nat.lt_of_lt_of_le (h.owned r hr).2 h'.size_le⟩
    · exact ⟨(h'.owned r hr).1.trans h.id_eq, (h'.owned r hr).2⟩

theorem Extends.forget {rs : List ElementRef} (h : Extends sizes s s' rs) :
    Extends sizes s s' [] := { h with owned := fun _ hr => absurd hr List.not_mem_nil }

/-- The references that a run of additions hands out; none if it ends with a refusal. -/
def handedOut (result : Except MeshError (List ElementRef)) : List ElementRef :=
  match result with
  | .ok rs => rs
  | .error _ => []

/-- If every step extends the set, so does a run of steps, also when it ends with a refusal. -/
theorem extends_grow {α : Type} {step : α → MeshSet → Except MeshError (ElementRef × MeshSet)}
    {as : List α} (h : s.Filled sizes)
    (hstep : ∀ a ∈ as, ∀ {t t' : MeshSet} {r : ElementRef}, t.Filled sizes →
      step a t = .ok (r, t') → Extends sizes t t' [r]) :
    Extends sizes s (grow step as s).2 (handedOut (grow step as s).1) := by
  induction as generalizing s with
  | nil => exact .refl h
  | cons a as ih =>
    rw [grow]
    rcases hfirst : step a s with e | ⟨r, s'⟩
    -- A refused step ends the run with the set as it was.
    · exact .refl h
    · have hextends := hstep a List.mem_cons_self h hfirst
      have hrest := ih hextends.filled fun a' ha' => hstep a' (List.mem_cons_of_mem a ha')
      -- If a later step is refused, its elements stay but no reference is handed out.
      rcases hgrow : grow step as s' with ⟨e | rs, t⟩
      · rw [hgrow] at hrest
        simp only [hgrow]
        exact (hextends.trans hrest).forget
      · rw [hgrow] at hrest
        simp only [hgrow]
        exact hextends.trans hrest

end MeshSet

namespace Box

/-- A vertex of a box that is found at some coordinates is one of its vertices. -/
theorem mem_of_at? {b : Box} {x y z : Nat} {r : ElementRef} (h : b.at? x y z = some r) :
    r ∈ b.vertices := by
  unfold at? at h
  split at h
  · exact Array.mem_of_getElem? h
  · cases h

/-- The ends of the edges of a box are its vertices. -/
theorem mem_of_axisPairs {b : Box} {ends : List ElementRef} (h : ends ∈ b.axisPairs) :
    ∀ r ∈ ends, r ∈ b.vertices := by
  have hpairs : ∀ {dx dy dz : Nat}, ends ∈ b.pairs dx dy dz → ∀ r ∈ ends, r ∈ b.vertices := by
    intro dx dy dz h r hr
    obtain ⟨k, -, hk⟩ := List.mem_filterMap.1 h
    obtain ⟨low, hlow, hk⟩ := Option.bind_eq_some_iff.1 hk
    obtain ⟨high, hhigh, rfl⟩ := Option.map_eq_some_iff.1 hk
    simp only [List.mem_cons, List.not_mem_nil, or_false] at hr
    rcases hr with rfl | rfl
    · exact mem_of_at? hlow
    · exact mem_of_at? hhigh
  -- The pairs along the three axes.
  rcases List.mem_append.1 h with h | h
  · rcases List.mem_append.1 h with h | h
    · exact hpairs h
    · exact hpairs h
  · exact hpairs h

/-- Without vertices there are no edges. -/
theorem axisPairs_nil (nx ny nz : Nat) : axisPairs ⟨nx, ny, nz, #[]⟩ = [] := by
  simp [axisPairs, pairs, at?]

end Box

namespace MeshSet

variable {sizes sizes' : SetId → Nat} {v e : MeshSet}

/-- Vertices extend their set, also when one of them is refused. -/
theorem extends_addVertices (hv : v.Filled sizes) (n : Nat) :
    Extends sizes v (v.addVertices n).2 (handedOut (v.addVertices n).1) :=
  extends_grow hv fun _ _ _ _ _ ht hadd => extends_add ht hadd

/-- A box adds its vertices to the vertex set, whether or not its edges are refused. -/
theorem vertices_createBox (v e : MeshSet) (nx ny nz : Nat) :
    (createBox v e nx ny nz).vertices = (v.addVertices (nx * ny * nz)).2 := by
  unfold createBox
  split
  · next hrun => rw [hrun]
  · next hrun =>
    rw [hrun]
    simp only
    split <;> rfl

/-- The ends of the edges of a box over the vertices that `v` hands out for it; none if it refuses
one. -/
def boxPairs (v : MeshSet) (nx ny nz : Nat) : List (List ElementRef) :=
  Box.axisPairs ⟨nx, ny, nz, (handedOut (v.addVertices (nx * ny * nz)).1).toArray⟩

/-- A box adds its edges to the edge set. There are none if a vertex was refused. -/
theorem edges_createBox (v e : MeshSet) (nx ny nz : Nat) :
    (createBox v e nx ny nz).edges = (e.addEdges (boxPairs v nx ny nz)).2 := by
  unfold createBox boxPairs
  split
  · next hrun =>
    rw [hrun, handedOut, Box.axisPairs_nil]
    rfl
  · next hrun =>
    rw [hrun]
    simp only [handedOut]
    split <;> next hedges => rw [hedges]

/-- A box consists of vertices that its vertex set has handed out. -/
theorem vertices_subset_of_createBox {v e : MeshSet} {nx ny nz : Nat} {box : Box}
    (h : (createBox v e nx ny nz).result = .ok box) :
    box.vertices.toList ⊆ handedOut (v.addVertices (nx * ny * nz)).1 := by
  unfold createBox at h
  split at h
  · cases h
  · next hrun =>
    simp only at h
    split at h
    · cases h
    · cases h
      rw [hrun]
      exact fun r hr => hr

/-- The ends of the edges of a box are its vertices, which have been handed out. -/
theorem mem_of_boxPairs {v : MeshSet} {nx ny nz : Nat} {ends : List ElementRef}
    (h : ends ∈ boxPairs v nx ny nz) :
    ∀ r ∈ ends, r ∈ handedOut (v.addVertices (nx * ny * nz)).1 := by
  intro r hr
  simpa using Box.mem_of_axisPairs h r hr

/-- A box extends its vertex set. -/
theorem extends_vertices_createBox (hv : v.Filled sizes) (nx ny nz : Nat) :
    Extends sizes v (createBox v e nx ny nz).vertices [] := by
  rw [vertices_createBox]
  exact (extends_addVertices hv _).forget

/-- The edges of a box connect vertices of the set that results, so that the edge set is extended
for all sizes in which that set is counted. -/
theorem extends_edges_createBox (hv : v.Filled sizes') (he : e.Filled sizes) {nx ny nz : Nat}
    (hsize : (createBox v e nx ny nz).vertices.size ≤ sizes v.id) :
    Extends sizes e (createBox v e nx ny nz).edges [] := by
  have hadd := extends_addVertices hv (nx * ny * nz)
  rw [vertices_createBox] at hsize
  rw [edges_createBox]
  refine (extends_grow he ?_).forget
  intro ends hends t t' r ht hedge
  refine extends_addEdge ht (fun end' hend => ?_) hedge
  -- The references in the box are those that the vertex set has just handed out.
  obtain ⟨hset, hident⟩ := hadd.owned end' (mem_of_boxPairs hends end' hend)
  rw [hset]
  exact Nat.lt_of_lt_of_le hident hsize

end MeshSet

end MeshPath
