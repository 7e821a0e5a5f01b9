import Mathlib.Data.List.Nodup
import MeshPath.Proofs.Index.Rows
import MeshPath.Proofs.Lattice.Moves
import MeshPath.Proofs.Mesh.Reached

/-!
# Boxes connect neighbours

A box over a plain vertex set and an edge set with both ends in it is always built, on top of what
the two sets hold already. Its vertices are numbered like the elements of a lattice with its
extents, and its edges are the pairs of vertices one step apart along an axis.

* `MeshSet.appendRows`: a set with more elements. `grow_eq_ok`: runs of steps that are not refused
  give such a set. `ends_appendRows_of_lt`, `map_ends_appendRows`: its ends.
* `Box.ofRange`: the box of consecutive elements. `at?_ofRange` reads it as a lattice.
* `Box.Connects`: what the edges along one axis are. `connects_steps` finds them among the edges
  that are made, and `disjoint_steps` none of them along two axes.
* `createBox_connects`: the two sets afterwards.
-/

namespace MeshPath

namespace MeshSet

variable {sizes : SetId → Nat} {s : MeshSet} {rows : List (List Nat)}

/-! ## Runs that are not refused -/

/-- The set with one more element for each of the `rows`, which list the ends. -/
def appendRows (s : MeshSet) (rows : List (List Nat)) : MeshSet :=
  { s with size := s.size + rows.length, endpoints := s.endpoints ++ rows.flatten.toArray }

theorem appendRows_push (s : MeshSet) (row : List Nat) (rows : List (List Nat)) :
    (s.push row).2.appendRows rows = s.appendRows (row :: rows) := by
  simp [appendRows, push, Nat.add_assoc, Nat.add_comm 1]

/-- If every step adds an element with the ends given for it, so does a run of them. -/
theorem grow_eq_ok {α : Type} {step : α → MeshSet → Except MeshError (ElementRef × MeshSet)}
    (ends : α → List Nat) {as : List α}
    (hstep : ∀ a ∈ as, ∀ t : MeshSet, t.endpointSets = s.endpointSets → t.extents = s.extents →
      step a t = .ok (t.push (ends a))) :
    s.grow step as = (.ok ((List.range' s.size as.length).map fun k => ⟨s.id, Word.low32 k⟩),
      s.appendRows (as.map ends)) := by
  induction as generalizing s with
  | nil => simp [grow, appendRows]
  | cons a as ih =>
    -- The rest of the run starts from the set with the first element, which takes the same steps.
    have hrest := @ih (s.push (ends a)).2 fun a' ha' t => hstep a' (List.mem_cons_of_mem a ha') t
    rw [appendRows_push] at hrest
    rw [grow, hstep a List.mem_cons_self s rfl rfl]
    simp only [push] at hrest ⊢
    rw [hrest]
    rfl

/-- Vertices that are added to a vertex set have the next numbers. -/
theorem addVertices_eq_ok (hsets : s.endpointSets = []) (hextents : s.extents = none) (n : Nat) :
    s.addVertices n = (.ok ((List.range' s.size n).map fun k => ⟨s.id, Word.low32 k⟩),
      { s with size := s.size + n }) := by
  have hstep : ∀ a ∈ List.replicate n (), ∀ t : MeshSet, t.endpointSets = s.endpointSets →
      t.extents = s.extents → (fun _ => add) a t = .ok (t.push []) := by
    intro _ _ t hsets' hextents'
    simp [add, hsets', hsets, hextents', hextents]
  rw [addVertices, grow_eq_ok (fun _ => []) hstep]
  simp [appendRows]

/-- Ends in the sets of their positions are accepted. -/
theorem misplacedEnd?_eq_none {position : Nat} {sets : List SetId} {ends : List ElementRef}
    (h : ends.map (·.set) = sets) : misplacedEnd? position sets ends = none := by
  induction ends generalizing position sets with
  | nil =>
    subst h
    rfl
  | cons e ends ih =>
    subst h
    rw [List.map_cons, misplacedEnd?, if_pos rfl, ih rfl]

/-- Edges with ends in the sets of the positions have the next numbers, and their ends are appended.
-/
theorem addEdges_eq_ok (hsets : s.endpointSets ≠ []) {edges : List (List ElementRef)}
    (hedges : ∀ ends ∈ edges, ends.map (·.set) = s.endpointSets) :
    s.addEdges edges = (.ok ((List.range' s.size edges.length).map fun k => ⟨s.id, Word.low32 k⟩),
      s.appendRows (edges.map fun ends => ends.map (·.ident))) := by
  refine grow_eq_ok (fun ends => List.map _ ends) fun ends hmem t hsets' _ => ?_
  have hends := hedges ends hmem
  have hlength : ends.length = t.cardinality := by
    rw [SetView.cardinality, hsets', ← hends, List.length_map]
  rw [addEdge, if_neg (by rwa [hsets']), if_neg (fun h => h hlength), hsets',
    misplacedEnd?_eq_none hends]

/-! ## The ends of appended elements -/

theorem size_endpoints_appendRows (s : MeshSet) (rows : List (List Nat)) :
    (s.appendRows rows).endpoints.size = s.endpoints.size + rows.flatten.length := by
  simp [appendRows]

/-- Elements keep their ends. -/
theorem ends_appendRows_of_lt (hs : s.Filled sizes) {i : Nat} (hi : i < s.size) :
    (s.appendRows rows).ends i = s.ends i := by
  have hmul := Nat.mul_le_mul_right s.cardinality (Nat.succ_le_of_lt hi)
  rw [Nat.succ_mul, ← hs.endpoints_size] at hmul
  have hcard : (s.appendRows rows).cardinality = s.cardinality := rfl
  have hfits : i * s.cardinality + s.cardinality ≤ (s.appendRows rows).endpoints.size := by
    rw [size_endpoints_appendRows]
    omega
  rw [SetView.ends, SetView.ends, hcard, if_pos hfits, if_pos hmul]
  simp only [Array.toList_extract, List.extract_eq_take_drop, appendRows, Array.toList_append]
  have hstart : i * s.cardinality ≤ s.endpoints.toList.length := by
    rw [Array.length_toList]
    omega
  rw [List.drop_append_of_le_length hstart, List.take_append_of_le_length]
  rw [List.length_drop, Array.length_toList]
  omega

/-- The new elements have the ends given for them. -/
theorem map_ends_appendRows (hs : s.Filled sizes)
    (hrows : ∀ row ∈ rows, row.length = s.cardinality) :
    (List.range' s.size rows.length).map (s.appendRows rows).ends = rows := by
  have hcard : (s.appendRows rows).cardinality = s.cardinality := rfl
  refine List.ext_getElem (by simp) fun k _ hk => ?_
  have hbefore : (rows.take k).flatten.length = k * s.cardinality :=
    Segmented.length_flatten_take_of_width hrows (Nat.le_of_lt hk)
  -- An element starts after the old ends and those of the new elements before it.
  have hstart : (s.size + k) * s.cardinality =
      s.endpoints.toList.length + (rows.take k).flatten.length := by
    rw [Nat.add_mul, ← hs.endpoints_size, hbefore, Array.length_toList]
  have hfits : (s.size + k) * s.cardinality + s.cardinality ≤
      (s.appendRows rows).endpoints.size := by
    have hmul := Nat.mul_le_mul_right s.cardinality (Nat.succ_le_of_lt hk)
    rw [Nat.succ_mul] at hmul
    rw [hstart, hbefore, size_endpoints_appendRows,
      Segmented.length_flatten_of_width hrows, Array.length_toList]
    omega
  rw [List.getElem_map, List.getElem_range', Nat.one_mul, SetView.ends, hcard, if_pos hfits,
    Array.toList_extract, List.extract_eq_take_drop, Nat.add_sub_cancel_left, hstart, appendRows,
    Array.toList_append, List.drop_length_add_append, ← hrows rows[k] (List.getElem_mem hk)]
  exact Segmented.take_drop_flatten hk

end MeshSet

/-! ## The vertices and edges of a box -/

namespace Box

variable {b : Box} {set : SetId} {a nx ny nz dx dy dz : Nat}

/-- The box of the elements `a`, `a + 1`, … of a set. -/
def ofRange (set : SetId) (a nx ny nz : Nat) : Box :=
  ⟨nx, ny, nz, ((List.range (nx * ny * nz)).map fun k => ⟨set, a + k⟩).toArray⟩

/-! ### Three extents -/

theorem prod_extents (nx ny nz : Nat) : [nx, ny, nz].foldr (· * ·) 1 = nx * ny * nz := by
  simp [Nat.mul_assoc]

/-- The vertex of a box at three coordinates, `x` varying fastest. -/
theorem id?_extents (nx ny nz x y z : Nat) : Lattice.id? [nx, ny, nz] [x, y, z] =
    if x < nx ∧ y < ny ∧ z < nz then some (x + nx * (y + ny * z)) else none := by
  by_cases hx : x < nx <;> by_cases hy : y < ny <;> by_cases hz : z < nz <;>
    simp [Lattice.id?, hx, hy, hz]

/-- The coordinates of a vertex of a box. -/
theorem coords_extents {k : Nat} (hk : k < nx * ny * nz) :
    Lattice.coords [nx, ny, nz] k = [k % nx, k / nx % ny, k / nx / ny] := by
  have hlast : k / nx / ny < nz := by
    rw [Nat.div_div_eq_div_mul]
    exact Nat.div_lt_of_lt_mul hk
  rw [Lattice.coords, Lattice.coords, Lattice.coords, Lattice.coords, Nat.mod_eq_of_lt hlast]

/-- A vertex of a box is found at its coordinates. -/
theorem id?_coords_extents {k : Nat} (hk : k < nx * ny * nz) :
    Lattice.id? [nx, ny, nz] [k % nx, k / nx % ny, k / nx / ny] = some k := by
  rw [← coords_extents hk]
  exact Lattice.id?_coords (by rwa [prod_extents])

/-- The vertices are numbered like the elements of a lattice with the extents of the box. -/
theorem at?_ofRange (x y z : Nat) : (ofRange set a nx ny nz).at? x y z =
    (Lattice.id? [nx, ny, nz] [x, y, z]).map fun k => ⟨set, a + k⟩ := by
  by_cases h : x < nx ∧ y < ny ∧ z < nz
  · have hid : Lattice.id? [nx, ny, nz] [x, y, z] = some (x + nx * (y + ny * z)) := by
      rw [id?_extents, if_pos h]
    have hlt := Lattice.id?_lt_prod hid
    rw [prod_extents] at hlt
    have hat : (ofRange set a nx ny nz).at? x y z =
        (ofRange set a nx ny nz).vertices[x + nx * (y + ny * z)]? := if_pos h
    rw [hat, hid, ofRange, List.getElem?_toArray, List.getElem?_map, List.getElem?_range hlt]
  · rw [id?_extents, if_neg h]
    exact if_neg h

/-! ### Steps along an axis -/

/-- The vertices `i` and `j` of each pair are `(dx, dy, dz)` apart, and all such pairs are listed
once, in the order of their lower vertices. -/
structure Connects (b : Box) (dx dy dz : Nat) (block : List (Nat × Nat)) : Prop where
  mem_iff : ∀ {i j : Nat}, (i, j) ∈ block ↔ ∃ x y z low high, b.at? x y z = some low ∧
    b.at? (x + dx) (y + dy) (z + dz) = some high ∧ low.ident = i ∧ high.ident = j
  ascending : block.Pairwise fun p q => p.1 < q.1
  lt : ∀ p ∈ block, p.1 < p.2
  length_eq : block.length = (b.nx - dx) * (b.ny - dy) * (b.nz - dz)

/-- The pairs of the elements `a`, `a + 1`, … that are `(dx, dy, dz)` apart. -/
def steps (a nx ny nz dx dy dz : Nat) : List (Nat × Nat) :=
  (List.range (nx * ny * nz)).filterMap fun k =>
    (Lattice.move? [nx, ny, nz] [dx, dy, dz] k).map fun j => (a + k, a + j)

/-- The pairs of a box along one direction are its steps. -/
theorem pairs_ofRange (set : SetId) (a nx ny nz dx dy dz : Nat) :
    (ofRange set a nx ny nz).pairs dx dy dz =
      (steps a nx ny nz dx dy dz).map fun p => [⟨set, p.1⟩, ⟨set, p.2⟩] := by
  rw [pairs, steps, List.map_filterMap]
  refine List.filterMap_congr fun k hk => ?_
  have hlt : k < nx * ny * nz := List.mem_range.1 hk
  have hlow : (ofRange set a nx ny nz).at? (k % nx) (k / nx % ny) (k / nx / ny) =
      some ⟨set, a + k⟩ := by
    rw [at?_ofRange, id?_coords_extents hlt]
    rfl
  have hhigh : (ofRange set a nx ny nz).at? (k % nx + dx) (k / nx % ny + dy) (k / nx / ny + dz) =
      (Lattice.move? [nx, ny, nz] [dx, dy, dz] k).map fun j => ⟨set, a + j⟩ := by
    rw [at?_ofRange, Lattice.move?, coords_extents hlt]
    rfl
  -- An element of the range is its own lower vertex, so that a pair fails only in the upper one.
  show (((ofRange set a nx ny nz).at? (k % nx) (k / nx % ny) (k / nx / ny)).bind fun low =>
    ((ofRange set a nx ny nz).at? (k % nx + dx) (k / nx % ny + dy) (k / nx / ny + dz)).map
      fun high => [low, high]) = _
  rw [hlow, hhigh, Option.bind_some, Option.map_map, Option.map_map]
  rfl

/-- A step leads from a vertex of the box to the one that lies at the distance, if both lie inside.
-/
theorem mem_steps_iff {i j : Nat} : (i, j) ∈ steps a nx ny nz dx dy dz ↔
    ∃ x y z k l, Lattice.id? [nx, ny, nz] [x, y, z] = some k ∧
      Lattice.id? [nx, ny, nz] [x + dx, y + dy, z + dz] = some l ∧ a + k = i ∧ a + l = j := by
  rw [steps, List.mem_filterMap]
  constructor
  · rintro ⟨k, hk, hstep⟩
    obtain ⟨l, hl, hpair⟩ := Option.map_eq_some_iff.1 hstep
    have hlt : k < nx * ny * nz := List.mem_range.1 hk
    rw [Lattice.move?, coords_extents hlt] at hl
    cases hpair
    exact ⟨_, _, _, k, l, id?_coords_extents hlt, hl, rfl, rfl⟩
  · rintro ⟨x, y, z, k, l, hk, hl, rfl, rfl⟩
    obtain ⟨hcoords, hlt⟩ := Lattice.id?_eq_some_iff.1 hk
    rw [prod_extents] at hlt
    refine ⟨k, List.mem_range.2 hlt, ?_⟩
    have hmove : Lattice.move? [nx, ny, nz] [dx, dy, dz] k = some l := by
      rw [Lattice.move?, hcoords]
      exact hl
    rw [hmove]
    rfl

/-- Steps are listed in the order of their lower vertices. -/
theorem pairwise_steps (a nx ny nz dx dy dz : Nat) :
    (steps a nx ny nz dx dy dz).Pairwise fun p q => p.1 < q.1 := by
  refine List.pairwise_filterMap.2 (List.pairwise_lt_range.imp fun hlt p hp q hq => ?_)
  obtain ⟨_, _, rfl⟩ := Option.map_eq_some_iff.1 hp
  obtain ⟨_, _, rfl⟩ := Option.map_eq_some_iff.1 hq
  exact Nat.add_lt_add_left hlt a

theorem nodup_steps (a nx ny nz dx dy dz : Nat) : (steps a nx ny nz dx dy dz).Nodup :=
  (pairwise_steps a nx ny nz dx dy dz).imp fun hlt heq => Nat.ne_of_lt hlt (congrArg Prod.fst heq)

/-- Along each axis, there are as many places for a step less as it is long. -/
theorem length_steps (a nx ny nz dx dy dz : Nat) :
    (steps a nx ny nz dx dy dz).length = (nx - dx) * (ny - dy) * (nz - dz) := by
  have hcount := @Lattice.countP_move? [nx, ny, nz] [dx, dy, dz] rfl
  rw [prod_extents] at hcount
  rw [steps, List.length_filterMap_eq_countP]
  simp only [Option.isSome_map]
  rw [hcount]
  exact prod_extents (nx - dx) (ny - dy) (nz - dz)

/-- The steps of a box connect the vertices at their distance. -/
theorem connects_steps (h : 0 < dx + dy + dz) :
    (ofRange set a nx ny nz).Connects dx dy dz (steps a nx ny nz dx dy dz) where
  mem_iff := by
    intro i j
    rw [mem_steps_iff]
    simp only [at?_ofRange, Option.map_eq_some_iff]
    constructor
    · rintro ⟨x, y, z, k, l, hk, hl, rfl, rfl⟩
      exact ⟨x, y, z, _, _, ⟨k, hk, rfl⟩, ⟨l, hl, rfl⟩, rfl, rfl⟩
    · rintro ⟨x, y, z, _, _, ⟨k, hk, rfl⟩, ⟨l, hl, rfl⟩, rfl, rfl⟩
      exact ⟨x, y, z, k, l, hk, hl, rfl, rfl⟩
  ascending := pairwise_steps a nx ny nz dx dy dz
  lt := by
    rintro ⟨i, j⟩ hp
    obtain ⟨x, y, z, k, l, hk, hl, rfl, rfl⟩ := mem_steps_iff.1 hp
    have hle : List.Forall₂ (· ≤ ·) [x, y, z] [x + dx, y + dy, z + dz] := by simp
    have hne : [x, y, z] ≠ [x + dx, y + dy, z + dz] := by
      intro heq
      simp only [List.cons.injEq, and_true] at heq
      omega
    exact Nat.add_lt_add_left (Lattice.id?_lt_id? hle hne hk hl) a
  length_eq := length_steps a nx ny nz dx dy dz

/-- A pair of vertices is a step along one axis only. -/
theorem disjoint_steps {dx' dy' dz' : Nat} (h : [dx, dy, dz] ≠ [dx', dy', dz']) :
    (steps a nx ny nz dx dy dz).Disjoint (steps a nx ny nz dx' dy' dz') := by
  rintro ⟨i, j⟩ hp hp'
  obtain ⟨x, y, z, k, l, hk, hl, rfl, rfl⟩ := mem_steps_iff.1 hp
  obtain ⟨x', y', z', k', l', hk', hl', hlow, hhigh⟩ := mem_steps_iff.1 hp'
  rw [Nat.add_left_cancel hlow] at hk'
  rw [Nat.add_left_cancel hhigh] at hl'
  have hcoords := Lattice.eq_of_id? hk hk'
  have hcoords' := Lattice.eq_of_id? hl hl'
  refine h ?_
  simp only [List.cons.injEq, and_true] at hcoords hcoords' ⊢
  omega

/-- The steps along the three axes, axis by axis. -/
def axisSteps (a nx ny nz : Nat) : List (Nat × Nat) :=
  steps a nx ny nz 1 0 0 ++ steps a nx ny nz 0 1 0 ++ steps a nx ny nz 0 0 1

/-- The ends of the edges of a box are its steps along `x`, then `y`, then `z`. -/
theorem axisPairs_ofRange (set : SetId) (a nx ny nz : Nat) : (ofRange set a nx ny nz).axisPairs =
    (axisSteps a nx ny nz).map fun p => [⟨set, p.1⟩, ⟨set, p.2⟩] := by
  simp only [axisPairs, axisSteps, pairs_ofRange, List.map_append]

theorem nodup_axisSteps (a nx ny nz : Nat) : (axisSteps a nx ny nz).Nodup := by
  have hxy : (steps a nx ny nz 1 0 0).Disjoint (steps a nx ny nz 0 1 0) :=
    disjoint_steps (by decide)
  have hxz : (steps a nx ny nz 1 0 0).Disjoint (steps a nx ny nz 0 0 1) :=
    disjoint_steps (by decide)
  have hyz : (steps a nx ny nz 0 1 0).Disjoint (steps a nx ny nz 0 0 1) :=
    disjoint_steps (by decide)
  have hfirst := (nodup_steps a nx ny nz 1 0 0).append (nodup_steps a nx ny nz 0 1 0) hxy
  exact hfirst.append (nodup_steps a nx ny nz 0 0 1) (List.disjoint_append_left.2 ⟨hxz, hyz⟩)

/-- The number of edges of a box, axis by axis. -/
theorem length_axisSteps (a nx ny nz : Nat) : (axisSteps a nx ny nz).length =
    (nx - 1) * ny * nz + nx * (ny - 1) * nz + nx * ny * (nz - 1) := by
  simp only [axisSteps, List.length_append, length_steps, Nat.sub_zero]

end Box

/-! ## Boxes are built -/

variable {m : Mesh} {v e : MeshSet} {nx ny nz : Nat}

/-- No vertex and no edge of a box is refused. -/
theorem createBox_eq (hsets : v.endpointSets = []) (hextents : v.extents = none)
    (hends : e.endpointSets = [v.id, v.id]) (hsmall : v.size + nx * ny * nz < Word.span32) :
    createBox v e nx ny nz =
      { result := .ok (Box.ofRange v.id v.size nx ny nz)
        vertices := { v with size := v.size + nx * ny * nz }
        edges := e.appendRows ((Box.axisSteps v.size nx ny nz).map fun p => [p.1, p.2]) } := by
  -- The numbers of the new vertices are stored as they are.
  have hbox : (List.range' v.size (nx * ny * nz)).map
      (fun k => (⟨v.id, Word.low32 k⟩ : ElementRef)) =
        (List.range (nx * ny * nz)).map fun k => ⟨v.id, v.size + k⟩ := by
    rw [List.range'_eq_map_range, List.map_map]
    refine List.map_congr_left fun k hk => ?_
    have hlt := List.mem_range.1 hk
    rw [Function.comp_apply, Word.low32_eq_self (by omega)]
  have hpairs : ∀ ends ∈ (Box.ofRange v.id v.size nx ny nz).axisPairs,
      ends.map (·.set) = e.endpointSets := by
    intro ends hmem
    rw [Box.axisPairs_ofRange] at hmem
    obtain ⟨p, -, rfl⟩ := List.mem_map.1 hmem
    exact hends.symm
  have hidents : (Box.ofRange v.id v.size nx ny nz).axisPairs.map (fun ends => ends.map (·.ident)) =
      (Box.axisSteps v.size nx ny nz).map fun p => [p.1, p.2] := by
    rw [Box.axisPairs_ofRange, List.map_map]
    rfl
  have hedges := MeshSet.addEdges_eq_ok (by rw [hends]; simp) hpairs
  rw [hidents, Box.ofRange] at hedges
  rw [createBox, MeshSet.addVertices_eq_ok hsets hextents, hbox]
  simp only [hedges]
  rfl

/-- Over a plain vertex set and an edge set between its vertices, a box is built, and the elements
that the two sets hold already stay as they are. The vertices of the box follow those of the set,
numbered like the elements of a lattice. Its edges follow those of the set, first all steps along
`x`, then those along `y` and along `z`, each of them once. -/
theorem createBox_connects (hm : m.Reached) (he : e ∈ m.sets) (hsets : v.endpointSets = [])
    (hextents : v.extents = none) (hends : e.endpointSets = [v.id, v.id])
    (hsmall : v.size + nx * ny * nz < Word.span32) :
    ∃ (box : Box) (xs ys zs : List (Nat × Nat)), (createBox v e nx ny nz).result = .ok box ∧
      (createBox v e nx ny nz).vertices = { v with size := v.size + nx * ny * nz } ∧
      (createBox v e nx ny nz).edges = e.appendRows ((xs ++ ys ++ zs).map fun p => [p.1, p.2]) ∧
      (∀ i < e.size, (createBox v e nx ny nz).edges.ends i = e.ends i) ∧
      (List.range' e.size (xs ++ ys ++ zs).length).map (createBox v e nx ny nz).edges.ends =
        (xs ++ ys ++ zs).map (fun p => [p.1, p.2]) ∧
      (∀ x y z, box.at? x y z =
        (Lattice.id? [nx, ny, nz] [x, y, z]).map fun k => ⟨v.id, v.size + k⟩) ∧
      box.Connects 1 0 0 xs ∧ box.Connects 0 1 0 ys ∧ box.Connects 0 0 1 zs ∧
      (xs ++ ys ++ zs).Nodup ∧
      (xs ++ ys ++ zs).length = (nx - 1) * ny * nz + nx * (ny - 1) * nz + nx * ny * (nz - 1) := by
  have hfilled := (Mesh.consistent_of_reached hm).filled he
  have hrows : ∀ row ∈ (Box.axisSteps v.size nx ny nz).map (fun p => [p.1, p.2]),
      row.length = e.cardinality := by
    intro row hrow
    obtain ⟨p, -, rfl⟩ := List.mem_map.1 hrow
    rw [SetView.cardinality, hends]
    rfl
  have hnew := MeshSet.map_ends_appendRows hfilled hrows
  rw [List.length_map] at hnew
  rw [createBox_eq hsets hextents hends hsmall]
  exact ⟨_, Box.steps v.size nx ny nz 1 0 0, Box.steps v.size nx ny nz 0 1 0,
    Box.steps v.size nx ny nz 0 0 1, rfl, rfl, rfl,
    fun i hi => MeshSet.ends_appendRows_of_lt hfilled hi, hnew, Box.at?_ofRange,
    Box.connects_steps (by decide), Box.connects_steps (by decide), Box.connects_steps (by decide),
    Box.nodup_axisSteps v.size nx ny nz, Box.length_axisSteps v.size nx ny nz⟩

/-- Two by one by two vertices after the two that an edge connects already. -/
theorem createBox_connects_edgeMesh :
    let outcome := createBox Mesh.twoVertices Mesh.singleEdge 2 1 2
    ∃ (box : Box) (xs ys zs : List (Nat × Nat)), outcome.result = .ok box ∧
      outcome.vertices.size = 6 ∧ outcome.edges.ends 0 = [0, 1] ∧
      box.at? 1 0 1 = some ⟨⟨1⟩, 5⟩ ∧ box.at? 0 1 0 = none ∧
      box.Connects 1 0 0 xs ∧ box.Connects 0 1 0 ys ∧ box.Connects 0 0 1 zs ∧
      [1, 2, 3, 4].map outcome.edges.ends = (xs ++ ys ++ zs).map (fun p => [p.1, p.2]) ∧
      [1, 2, 3, 4].map outcome.edges.ends = [[2, 3], [4, 5], [2, 4], [3, 5]] := by
  intro outcome
  obtain ⟨box, xs, ys, zs, hok, hvertices, -, hold, hnew, hat, hx, hy, hz, -, hlength⟩ :=
    @createBox_connects Mesh.edgeMesh Mesh.twoVertices Mesh.singleEdge 2 1 2 Mesh.reached_edgeMesh
      (by decide) rfl rfl rfl (by decide)
  rw [hlength] at hnew
  exact ⟨box, xs, ys, zs, hok, congrArg (fun v => v.size) hvertices, hold 0 (by decide), hat 1 0 1,
    hat 0 1 0, hx, hy, hz, hnew, by decide +kernel⟩

end MeshPath
