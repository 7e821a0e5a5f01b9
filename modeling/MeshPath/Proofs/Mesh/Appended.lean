import MeshPath.Proofs.Mesh.Reached

/-!
# Sets with further elements

Vertices and edges can be added to a set at any time. A set that is made again takes another number,
and so do the sets behind its endpoint positions; what it holds is the same.

* `MeshSet.renumber`, `MeshSet.Appended`: a set under another number, and what further elements make
  of a set.
* `SetView.Outgrown`, `outgrown_of_appended`: it keeps what it had.
* `Mesh.Outgrown`: a set of one mesh, made again and grown further in another one.
-/

namespace MeshPath

namespace MeshSet

/-- The set under another number, over the sets that have the new numbers. -/
def renumber (ρ : SetId → SetId) (s : MeshSet) : MeshSet :=
  { s with
    id := ρ s.id
    endpointSets := s.endpointSets.map ρ }

theorem renumber_id (s : MeshSet) : s.renumber id = s := by
  rw [renumber, List.map_id]
  rfl

/-- A set, and what any number of further elements make of it. -/
inductive Appended (s : MeshSet) : MeshSet → Prop
  | refl : Appended s s
  | add {t t' : MeshSet} {r : ElementRef} :
      Appended s t → t.add = .ok (r, t') → Appended s t'
  | addEdge {t t' : MeshSet} {ends : List ElementRef} {r : ElementRef} :
      Appended s t → t.addEdge ends = .ok (r, t') → Appended s t'

end MeshSet

namespace SetView

/-- Under the new numbers, `s'` has what `s` had, and maybe more elements after that. -/
structure Outgrown (ρ : SetId → SetId) (s s' : SetView) : Prop where
  id_eq : s'.id = ρ s.id
  endpointSets_eq : s'.endpointSets = s.endpointSets.map ρ
  extents_eq : s'.extents = s.extents
  size_le : s.size ≤ s'.size
  endpoints_prefix : s.endpoints.toList <+: s'.endpoints.toList

variable {ρ : SetId → SetId} {s s' : SetView}

/-- Endpoint positions refer to the sets that have outgrown the old ones. -/
theorem Outgrown.endpointSet?_eq_some (h : s.Outgrown ρ s') {position : Nat} {id : SetId}
    (hset : s.endpointSet? position = some id) : s'.endpointSet? position = some (ρ id) := by
  rw [endpointSet?] at hset
  rw [endpointSet?, h.endpointSets_eq, List.getElem?_map, hset, Option.map_some]

/-- Every element keeps its ends. -/
theorem Outgrown.endpoint?_eq_some (h : s.Outgrown ρ s') {element position v : Nat}
    (hend : s.endpoint? element position = some v) : s'.endpoint? element position = some v := by
  obtain ⟨rest, hrest⟩ := h.endpoints_prefix
  have hcard : s'.cardinality = s.cardinality := by
    rw [cardinality, h.endpointSets_eq, List.length_map, cardinality]
  rw [endpoint?, ← Array.getElem?_toList] at hend
  rw [endpoint?, ← Array.getElem?_toList, ← hrest, hcard,
    List.getElem?_append_left (List.getElem?_eq_some_iff.1 hend).1, hend]

theorem Outgrown.dimensions?_eq (h : s.Outgrown ρ s') : s'.dimensions? = s.dimensions? := by
  rw [dimensions?, dimensions?, h.extents_eq]

end SetView

namespace MeshSet

variable {ρ : SetId → SetId} {s s' : MeshSet}

/-- A set that has one more element has outgrown what it had outgrown before. -/
theorem outgrown_push {t : SetView} (h : t.Outgrown ρ s.toSetView) (ends : List Nat) :
    t.Outgrown ρ (s.push ends).2.toSetView where
  id_eq := h.id_eq
  endpointSets_eq := h.endpointSets_eq
  extents_eq := h.extents_eq
  size_le := Nat.le_succ_of_le h.size_le
  endpoints_prefix := by
    rw [push, Array.toList_append]
    exact h.endpoints_prefix.trans (List.prefix_append _ _)

/-- Further elements leave the set as it was before them. -/
theorem outgrown_of_appended (h : (s.renumber ρ).Appended s') :
    s.toSetView.Outgrown ρ s'.toSetView := by
  induction h with
  | refl => exact ⟨rfl, rfl, rfl, Nat.le_refl _, List.prefix_rfl⟩
  | add _ hadd ih =>
    have hgrown := outgrown_push ih []
    rw [(push_of_add hadd).1] at hgrown
    exact hgrown
  | @addEdge t t' ends r _ hadd ih =>
    have hgrown := outgrown_push ih (ends.map (·.ident))
    rw [(push_of_addEdge hadd).1] at hgrown
    exact hgrown

end MeshSet

namespace Mesh

open MeshSet

/-- The set `set` of the mesh `m` has become `set'` in `m'`, where it has been grown further. -/
def Outgrown (m m' : Mesh) (ρ : SetId → SetId) (set set' : SetView) : Prop :=
  ∃ s ∈ m.sets, ∃ s' ∈ m'.sets, (s.renumber ρ).Appended s' ∧ s.toSetView = set ∧ s'.toSetView = set'

section Outgrown

variable {m m' : Mesh} {ρ : SetId → SetId} {set set' : SetView}

/-- The views of the sets have outgrown each other if the sets of the meshes have. -/
theorem Outgrown.view (h : m.Outgrown m' ρ set set') : set.Outgrown ρ set' := by
  obtain ⟨s, -, s', -, happended, rfl, rfl⟩ := h
  exact outgrown_of_appended happended

end Outgrown

/-- A third vertex beside the two. -/
def threeVertices : MeshSet := { twoVertices with size := 3 }

/-- A second edge, from the third vertex to the second. -/
def twoEdges : MeshSet := { singleEdge with size := 2, endpoints := #[0, 1, 2, 1] }

/-- The mesh of the two vertices and the edge with one more of each. -/
def pathMesh : Mesh := ⟨[threeVertices, twoEdges], 2⟩

theorem reached_pathMesh : pathMesh.Reached := by
  have hv : Step edgeMesh (edgeMesh.put threeVertices) := .add List.mem_cons_self rfl
  have howned : ∀ r ∈ [(⟨⟨1⟩, 2⟩ : ElementRef), ⟨⟨1⟩, 1⟩],
      ∃ t ∈ [threeVertices, singleEdge], t.id = r.set ∧ r.ident < t.size := by decide
  have hmem : singleEdge ∈ [threeVertices, singleEdge] :=
    List.mem_cons_of_mem threeVertices (List.mem_singleton_self singleEdge)
  have he : Step ⟨[threeVertices, singleEdge], 2⟩
      (put ⟨[threeVertices, singleEdge], 2⟩ twoEdges) := .addEdge hmem howned rfl
  exact (reached_edgeMesh.step hv).step he

theorem outgrown_threeVertices :
    edgeMesh.Outgrown pathMesh id twoVertices.toSetView threeVertices.toSetView := by
  refine ⟨twoVertices, List.mem_cons_self, threeVertices, List.mem_cons_self, ?_, rfl, rfl⟩
  rw [renumber_id]
  exact .add .refl rfl

theorem outgrown_twoEdges :
    edgeMesh.Outgrown pathMesh id singleEdge.toSetView twoEdges.toSetView := by
  refine ⟨singleEdge, by simp [edgeMesh], twoEdges, by simp [pathMesh], ?_, rfl, rfl⟩
  rw [renumber_id]
  exact @Appended.addEdge _ singleEdge twoEdges [⟨⟨1⟩, 2⟩, ⟨⟨1⟩, 1⟩] _ .refl rfl

end Mesh

end MeshPath
