import MeshPath.Mesh.Store
import MeshPath.Proofs.Mesh.Filled
import MeshPath.Proofs.Success

/-!
# Meshes that the operations give

* `Mesh.Step`, `Mesh.Reached`: one operation on a mesh, and the meshes that any number of them give
  from the empty one. Ends of edges are elements of stored sets, since only a set hands out
  references to its elements.
* `Mesh.Consistent`: sets have different identities, and every set is filled.
* `consistent_of_reached`: every mesh that is reached is consistent.
-/

namespace MeshPath.Mesh

open MeshSet Success

variable {m m' : Mesh} {s s' t : MeshSet}

/-- The number of elements of the set of identity `id`, and `0` if there is none. -/
def sizes (m : Mesh) (id : SetId) : Nat := ((m.find? id).map (·.size)).getD 0

/-- Sets are told apart by their identities, which are numbers that have been given out, and every
set is filled. -/
structure Consistent (m : Mesh) : Prop where
  distinct : ∀ {s t : MeshSet}, s ∈ m.sets → t ∈ m.sets → s.id = t.id → s = t
  numbered : ∀ {s : MeshSet}, s ∈ m.sets → s.id.number ≤ m.numbered
  filled : ∀ {s : MeshSet}, s ∈ m.sets → s.Filled m.sizes

/-- One operation on a mesh. A refused operation changes nothing, apart from `createBox`, which
keeps what it has added. -/
inductive Step : Mesh → Mesh → Prop
  | vertexSet (m : Mesh) (name : String) : Step m (m.addVertexSet name).2
  | edgeSet (m : Mesh) (name : String) {targets : List MeshSet} :
      (∀ t ∈ targets, t ∈ m.sets) → Step m (m.addEdgeSet name targets).2
  | lattice {m m' : Mesh} {name : String} {dims : List Nat} {s : MeshSet} :
      m.addLattice name dims = .ok (s, m') → Step m m'
  | reserve (m : Mesh) : Step m m.reserve.2
  | rename {m : Mesh} {s : MeshSet} (name : String) : s ∈ m.sets → Step m (m.put (s.rename name))
  | add {m : Mesh} {s s' : MeshSet} {r : ElementRef} :
      s ∈ m.sets → s.add = .ok (r, s') → Step m (m.put s')
  | addEdge {m : Mesh} {s s' : MeshSet} {ends : List ElementRef} {r : ElementRef} :
      s ∈ m.sets → (∀ e ∈ ends, ∃ t ∈ m.sets, t.id = e.set ∧ e.ident < t.size) →
        s.addEdge ends = .ok (r, s') → Step m (m.put s')
  | createBox {m m' : Mesh} {vertices edges : SetId} {nx ny nz : Nat}
      {result : Except MeshError Box} :
      vertices ≠ edges → m.createBox? vertices edges nx ny nz = some (result, m') → Step m m'

/-- The meshes that any number of operations give. -/
inductive Reached : Mesh → Prop
  | empty : Reached .empty
  | step {m m' : Mesh} : Reached m → Step m m' → Reached m'

/-! ## Looking sets up -/

/-- A stored set is found under its identity. -/
theorem find?_eq_some (h : m.Consistent) (hs : s ∈ m.sets) : m.find? s.id = some s := by
  cases hfind : m.find? s.id with
  | none => simpa using List.find?_eq_none.1 hfind s hs
  | some t =>
    have hid : t.id = s.id := by simpa using List.find?_some hfind
    rw [h.distinct (List.mem_of_find?_eq_some hfind) hs hid]

/-- The size of a stored set is found under its identity. -/
theorem sizes_of_mem (h : m.Consistent) (hs : s ∈ m.sets) : m.sizes s.id = s.size := by
  rw [sizes, find?_eq_some h hs]
  rfl

/-- A set that is found is stored and has the identity. -/
theorem mem_of_find? {id : SetId} (h : m.find? id = some s) : s ∈ m.sets ∧ s.id = id :=
  ⟨List.mem_of_find?_eq_some h, by simpa using List.find?_some h⟩

/-- Only stored sets have elements. -/
theorem exists_of_lt_sizes {id : SetId} {k : Nat} (h : k < m.sizes id) :
    ∃ s ∈ m.sets, s.id = id ∧ k < s.size := by
  unfold sizes at h
  cases hfind : m.find? id with
  | none =>
    rw [hfind] at h
    exact absurd h (Nat.not_lt_zero k)
  | some s =>
    rw [hfind] at h
    obtain ⟨hs, hid⟩ := mem_of_find? hfind
    exact ⟨s, hs, hid, h⟩

/-! ## New sets and new states -/

/-- A new set makes no other one smaller. -/
theorem sizes_le_insert (m : Mesh) (s : MeshSet) (id : SetId) :
    m.sizes id ≤ (m.insert s).2.sizes id := by
  have hfind : (m.insert s).2.find? id = (m.find? id).or ([s].find? (·.id = id)) :=
    List.find?_append
  rw [sizes, sizes, hfind]
  cases m.find? id with
  | none => exact Nat.zero_le _
  | some t => exact Nat.le_refl _

/-- A filled set under the next number may be stored. -/
theorem consistent_insert (h : m.Consistent) (hid : s.id = m.nextId) (hs : s.Filled m.sizes) :
    (m.insert s).2.Consistent := by
  have hmem : ∀ {t : MeshSet}, t ∈ (m.insert s).2.sets → t ∈ m.sets ∨ t = s := fun ht => by
    simpa [insert] using ht
  -- The new number is greater than those of the other sets.
  have hnew : ∀ {t : MeshSet}, t ∈ m.sets → t.id ≠ s.id := by
    intro t ht heq
    have hle := h.numbered ht
    rw [heq, hid, nextId] at hle
    exact Nat.not_succ_le_self _ hle
  refine ⟨?_, ?_, ?_⟩
  -- Two sets of one identity: both old, or both the new one.
  · intro t u ht hu heq
    rcases hmem ht with hold | rfl <;> rcases hmem hu with hold' | rfl
    · exact h.distinct hold hold' heq
    · exact absurd heq (hnew hold)
    · exact absurd heq.symm (hnew hold')
    · rfl
  · intro t ht
    rcases hmem ht with ht | rfl
    · exact Nat.le_succ_of_le (h.numbered ht)
    · rw [hid]
      exact Nat.le_refl _
  · intro t ht
    rcases hmem ht with ht | rfl
    · exact (h.filled ht).mono (sizes_le_insert m s)
    · exact hs.mono (sizes_le_insert m t)

/-- After a set is put back, the stored sets are this one and those of other identities. -/
theorem mem_put (ht : t ∈ (m.put s).sets) : t = s ∨ t ∈ m.sets ∧ t.id ≠ s.id := by
  obtain ⟨u, hu, rfl⟩ := List.mem_map.1 ht
  split
  · exact .inl rfl
  · next hne => exact .inr ⟨hu, hne⟩

theorem mem_put_self (ht : t ∈ m.sets) (hid : s.id = t.id) : s ∈ (m.put s).sets :=
  List.mem_map.2 ⟨t, ht, if_pos hid.symm⟩

theorem mem_put_of_ne (ht : t ∈ m.sets) (hid : t.id ≠ s.id) : t ∈ (m.put s).sets :=
  List.mem_map.2 ⟨t, ht, if_neg hid⟩

/-- Storing a set as it is changes nothing. -/
theorem put_self (h : m.Consistent) (hs : s ∈ m.sets) : m.put s = m := by
  have hsame : ∀ t ∈ m.sets, (if t.id = s.id then s else t) = t := by
    intro t ht
    split
    · next hid => exact h.distinct hs ht hid.symm
    · rfl
  rw [put, List.map_congr_left hsame, List.map_id']

/-- Sets of different identities can be put back in either order. -/
theorem put_comm (m : Mesh) (hid : s.id ≠ t.id) : (m.put s).put t = (m.put t).put s := by
  simp only [put, List.map_map]
  congr 1
  refine List.map_congr_left fun u _ => ?_
  simp only [Function.comp]
  by_cases hs : u.id = s.id <;> by_cases ht : u.id = t.id <;> simp_all

/-- A set that is put back is found under its identity, and the others as before. -/
theorem find?_put (m : Mesh) (s : MeshSet) (id : SetId) :
    (m.put s).find? id = (m.find? id).map fun t => if t.id = s.id then s else t := by
  rw [find?, find?, put, List.find?_map]
  congr 2
  funext t
  simp only [Function.comp]
  split
  · next h => rw [h]
  · rfl

/-- No set gets smaller if the one that is put back does not. -/
theorem sizes_le_put (h : m.Consistent) (hs : s ∈ m.sets) (hid : s'.id = s.id)
    (hle : s.size ≤ s'.size) (id : SetId) : m.sizes id ≤ (m.put s').sizes id := by
  rw [sizes, sizes, find?_put]
  cases hfind : m.find? id with
  | none => exact Nat.zero_le _
  | some t =>
    obtain ⟨ht, -⟩ := mem_of_find? hfind
    by_cases heq : t.id = s'.id
    · rw [h.distinct ht hs (heq.trans hid)] at *
      simpa [hid] using hle
    · simp [heq]

/-- The next state of a set, with its elements and more. -/
theorem consistent_put (h : m.Consistent) (hs : s ∈ m.sets) {rs : List ElementRef}
    (hextends : Extends m.sizes s s' rs) : (m.put s').Consistent := by
  have hle := sizes_le_put h hs hextends.id_eq hextends.size_le
  -- No size shrinks, so that ends in other sets, and in this one, stay inside.
  refine ⟨?_, ?_, ?_⟩
  · intro t u ht hu heq
    rcases mem_put ht with rfl | ⟨ht, hne⟩ <;> rcases mem_put hu with rfl | ⟨hu, hne'⟩
    · rfl
    · exact absurd heq.symm hne'
    · exact absurd heq hne
    · exact h.distinct ht hu heq
  · intro t ht
    rcases mem_put ht with rfl | ⟨ht, -⟩
    · rw [hextends.id_eq]
      exact h.numbered hs
    · exact h.numbered ht
  · intro t ht
    rcases mem_put ht with rfl | ⟨ht, -⟩
    · exact hextends.filled.mono hle
    · exact (h.filled ht).mono hle

/-! ## Runs -/

theorem consistent_empty : Consistent .empty :=
  ⟨fun hs => absurd hs List.not_mem_nil, fun hs => absurd hs List.not_mem_nil,
    fun hs => absurd hs List.not_mem_nil⟩

/-- A box keeps a mesh consistent, also when some vertex or edge of it is refused. -/
theorem consistent_of_createBox? {vertices edges : SetId} {nx ny nz : Nat}
    {result : Except MeshError Box} (h : m.Consistent) (hne : vertices ≠ edges)
    (hbox : m.createBox? vertices edges nx ny nz = some (result, m')) : m'.Consistent := by
  obtain ⟨v, hv, hbox⟩ := Option.bind_eq_some_iff.1 hbox
  obtain ⟨e, he, hbox⟩ := Option.map_eq_some_iff.1 hbox
  obtain ⟨hv, hvid⟩ := mem_of_find? hv
  obtain ⟨he, heid⟩ := mem_of_find? he
  have hids : v.id ≠ e.id := by
    rw [hvid, heid]
    exact hne
  -- The vertices are stored first, so that the edges are built over a consistent mesh.
  obtain ⟨v', hv'⟩ : ∃ v', v' = (createBox v e nx ny nz).vertices := ⟨_, rfl⟩
  have hvertices : Extends m.sizes v v' [] := by
    rw [hv']
    exact extends_vertices_createBox (h.filled hv) nx ny nz
  have hm := consistent_put h hv hvertices
  have hv₁ : v' ∈ (m.put v').sets := mem_put_self hv hvertices.id_eq
  have he₁ : e ∈ (m.put v').sets := mem_put_of_ne he (by rw [hvertices.id_eq]; exact hids.symm)
  have hsize : (createBox v e nx ny nz).vertices.size ≤ (m.put v').sizes v.id := by
    refine Nat.le_of_eq ?_
    rw [← hv', ← hvertices.id_eq, sizes_of_mem hm hv₁]
  have hedges := extends_edges_createBox (h.filled hv) (hm.filled he₁) hsize
  have hput : m' = (m.put v').put (createBox v e nx ny nz).edges := by
    rw [put_comm, hv']
    · exact (congrArg Prod.snd hbox).symm
    · rw [hvertices.id_eq, hedges.id_eq]
      exact hids
  rw [hput]
  exact consistent_put hm he₁ hedges

/-- Every operation keeps a mesh consistent. -/
theorem consistent_of_step (h : m.Consistent) (hstep : Step m m') : m'.Consistent := by
  cases hstep with
  | vertexSet name => exact consistent_insert h rfl (filled_vertexSet _ _)
  | edgeSet name _ => exact consistent_insert h rfl (filled_edgeSet _ _ _)
  | lattice hlattice =>
    obtain ⟨s, hs, hinsert⟩ := map_eq_ok hlattice
    obtain ⟨hfilled, hid⟩ := filled_lattice hs
    have hinsert' : m' = (m.insert s).2 := (congrArg Prod.snd hinsert).symm
    rw [hinsert']
    exact consistent_insert h hid hfilled
  | reserve => exact ⟨h.distinct, fun hs => Nat.le_succ_of_le (h.numbered hs), h.filled⟩
  | rename name hs => exact consistent_put h hs (Extends.rename (h.filled hs) name)
  | add hs hadd => exact consistent_put h hs (extends_add (h.filled hs) hadd)
  | addEdge hs howned hadd =>
    -- A reference names an element of a set that is stored, in its present state or an earlier one.
    refine consistent_put h hs (extends_addEdge (h.filled hs) (fun e he => ?_) hadd)
    obtain ⟨t, ht, hid, hlt⟩ := howned e he
    rw [← hid, sizes_of_mem h ht]
    exact hlt
  | createBox hne hbox => exact consistent_of_createBox? h hne hbox

/-- All meshes that operations give are consistent. -/
theorem consistent_of_reached (h : m.Reached) : m.Consistent := by
  induction h with
  | empty => exact consistent_empty
  | step _ hstep ih => exact consistent_of_step ih hstep

/-- A periodic lattice of three elements in one dimension. -/
def ring : MeshSet :=
  { vertexSet ⟨1⟩ "R" with size := 3, extents := some ⟨[3], by decide, by decide⟩ }

/-- The mesh of the ring alone. -/
def ringMesh : Mesh := ⟨[ring], 1⟩

theorem reached_ringMesh : ringMesh.Reached :=
  Reached.empty.step (@Step.lattice .empty ringMesh "R" [3] ring rfl)

/-- Two vertices. -/
def twoVertices : MeshSet := { vertexSet ⟨1⟩ "V" with size := 2 }

/-- A single edge, from the first vertex to the second. -/
def singleEdge : MeshSet :=
  { edgeSet ⟨2⟩ "E" [twoVertices, twoVertices] with size := 1, endpoints := #[0, 1] }

/-- The mesh of the two vertices and the edge. -/
def edgeMesh : Mesh := ⟨[twoVertices, singleEdge], 2⟩

theorem reached_edgeMesh : edgeMesh.Reached := by
  let v : MeshSet := .vertexSet ⟨1⟩ "V"
  let v₁ : MeshSet := (v.push []).2
  let e : MeshSet := .edgeSet ⟨2⟩ "E" [twoVertices, twoVertices]
  have hv : Step .empty ⟨[v], 1⟩ := .vertexSet _ "V"
  have hv₁ : Step ⟨[v], 1⟩ (put ⟨[v], 1⟩ v₁) := .add (List.mem_singleton_self v) rfl
  have hv₂ : Step ⟨[v₁], 1⟩ (put ⟨[v₁], 1⟩ twoVertices) :=
    .add (List.mem_singleton_self v₁) rfl
  have he : Step ⟨[twoVertices], 1⟩ ⟨[twoVertices, e], 2⟩ :=
    @Step.edgeSet ⟨[twoVertices], 1⟩ "E" [twoVertices, twoVertices] (by simp)
  have howned : ∀ r ∈ [(⟨⟨1⟩, 0⟩ : ElementRef), ⟨⟨1⟩, 1⟩],
      ∃ t ∈ [twoVertices, e], t.id = r.set ∧ r.ident < t.size := by decide
  have hmem : e ∈ [twoVertices, e] := List.mem_cons_of_mem twoVertices (List.mem_singleton_self e)
  have he₁ : Step ⟨[twoVertices, e], 2⟩ (put ⟨[twoVertices, e], 2⟩ singleEdge) :=
    .addEdge hmem howned rfl
  exact ((((Reached.empty.step hv).step hv₁).step hv₂).step he).step he₁

end MeshPath.Mesh
