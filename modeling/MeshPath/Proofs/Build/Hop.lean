import MeshPath.Proofs.Build.Links

/-!
# Links that do not fit their sets

* `Hop`: a link with the end from which it is read.
* `Hop.Fault`: the error of a link that does not fit its sets. `realize_of_fault`: it is the error
  with which the link is refused. `exists_fault_iff`: exactly the links that do not fit have one.
-/

namespace MeshPath

/-- A link as an evaluation meets it. -/
structure Hop where
  /-- The kind of the link. -/
  kind : LinkKind
  /-- The set at its first end. -/
  source : SetView
  /-- The set at its second end. -/
  sink : SetView
  /-- The end that is the source of the rows. -/
  rows : End

namespace Hop

/-- The set at the end that is the source of the rows. -/
def near (h : Hop) : SetView := h.rows.pick h.source h.sink

/-- The set at the opposite end. -/
def far (h : Hop) : SetView := h.rows.other.pick h.source h.sink

/-- The edge side and the vertex side of a link between edges and vertices. -/
def sides? (h : Hop) : Option (SetView × SetView) :=
  match h.kind with
  | .edgeToVertex => some (h.source, h.sink)
  | .vertexToEdge => some (h.sink, h.source)
  | .stencil _ => none

/-- The stencil of a link within a lattice, as it leads away from the source of the rows. -/
def stencil? (h : Hop) : Option Stencil :=
  match h.kind with
  | .stencil s => some (h.rows.pick s s.inverse)
  | _ => none

/-- The link fits its sets. -/
def WellTyped (h : Hop) : Prop := h.kind.WellTyped h.source h.sink

/-- The error of a link that does not fit its sets. The edge side of a link needs endpoint
positions, and one of them over the vertex side. A stencil needs a lattice at the source of the
rows, the same lattice at the other end, and as many dimensions as its offsets have components. -/
inductive Fault (h : Hop) : PathError → Prop
  | notAnEdgeSet {edges vertices : SetView} :
      h.sides? = some (edges, vertices) → edges.cardinality = 0 →
        Fault h (.notAnEdgeSet edges.name)
  | endpointSetMismatch {edges vertices : SetView} :
      h.sides? = some (edges, vertices) → edges.cardinality ≠ 0 →
        (∀ p, edges.endpointSet? p ≠ some vertices.id) →
          Fault h (.endpointSetMismatch edges.name vertices.name)
  | notALattice {s : Stencil} :
      h.stencil? = some s → h.near.dimensions? = none → Fault h (.notALattice h.near.name)
  | gridMismatch {s : Stencil} {dims : List Nat} :
      h.stencil? = some s → h.near.dimensions? = some dims → h.near.id ≠ h.far.id →
        Fault h (.gridMismatch h.near.name h.far.name)
  | stencilArity {s : Stencil} {dims : List Nat} {o : List Int} :
      h.stencil? = some s → h.near.dimensions? = some dims → h.near.id = h.far.id →
        s.arity ≠ dims.length → s.offsets.head? = some o →
          Fault h (.stencilArity h.near.name o dims.length s.arity)

/-- The index of the link. -/
def realize (options : BuildOptions) (h : Hop) : Except Failure PathIndex :=
  Link.realize options h.kind h.source h.sink h.rows

variable {options : BuildOptions} {h : Hop} {e : PathError}

/-! ## The error of a link -/

/-- What the positions of the edge side report, the link reports. -/
theorem realize_of_sides {edges vertices : SetView} (hsides : h.sides? = some (edges, vertices))
    (he : Link.incidentPositions edges vertices = .error e) :
    h.realize options = .error (.rejected e) := by
  have hev : Link.edgesToVertices options edges vertices = .error (.rejected e) := by
    rw [Link.edgesToVertices, he]
    rfl
  have hve : Link.verticesToEdges options vertices edges = .error (.rejected e) := by
    rw [Link.verticesToEdges, he]
    rfl
  obtain ⟨kind, source, sink, rows⟩ := h
  cases kind with
  | edgeToVertex =>
    cases hsides
    cases rows
    · exact hev
    · exact hve
  | vertexToEdge =>
    cases hsides
    cases rows
    · exact hve
    · exact hev
  | stencil s => cases hsides

/-- A hop along a stencil is realized from the stencil as it is read from its end. -/
theorem realize_of_stencil {s : Stencil} (hs : h.stencil? = some s) :
    h.realize options = Failure.ofPath (Link.stencilNeighbors h.near h.far s) := by
  obtain ⟨kind, source, sink, rows⟩ := h
  cases kind with
  | stencil s' =>
    cases hs
    cases rows <;> rfl
  | _ => cases hs

/-- A link with a fault is refused with the error of this fault. -/
theorem realize_of_fault (hfault : h.Fault e) : h.realize options = .error (.rejected e) := by
  cases hfault with
  | notAnEdgeSet hsides hcard =>
    refine realize_of_sides hsides ?_
    rw [Link.incidentPositions, if_pos hcard]
  | endpointSetMismatch hsides hcard hnone =>
    refine realize_of_sides hsides ?_
    have hnil : Link.positions _ _ = [] :=
      List.eq_nil_iff_forall_not_mem.2 fun p hp => hnone p (Link.mem_positions.1 hp)
    rw [Link.incidentPositions, if_neg hcard]
    exact if_pos hnil
  | notALattice hs hdims =>
    have hextents : h.near.extents = none := Option.map_eq_none_iff.1 hdims
    rw [realize_of_stencil hs, Link.stencilNeighbors, hextents]
    rfl
  | gridMismatch hs hdims hne =>
    obtain ⟨extents, hextents, -⟩ := Option.map_eq_some_iff.1 hdims
    rw [realize_of_stencil hs, Link.stencilNeighbors, hextents]
    simp only [if_pos hne]
    rfl
  | @stencilArity s dims o hs hdims heq harity ho =>
    obtain ⟨extents, hextents, rfl⟩ := Option.map_eq_some_iff.1 hdims
    -- All offsets have one length, so the first one is already wrong.
    have hlength : o.length = s.arity := s.length_of_mem o (List.mem_of_head? ho)
    have hfind : s.offsets.find? (·.length ≠ extents.dims.length) = some o := by
      cases hoffsets : s.offsets with
      | nil => exact absurd hoffsets s.offsets_ne_nil
      | cons first rest =>
        rw [hoffsets] at ho
        cases ho
        rw [List.find?_cons_of_pos]
        simpa [hlength] using harity
    rw [realize_of_stencil hs, Link.stencilNeighbors, hextents]
    simp only [if_neg (not_not_intro heq), hfind, hlength]
    rfl

/-! ## Faults and fitting sets -/

/-- A hop between edges and vertices fits if some endpoint position lies over the vertices. -/
theorem wellTyped_iff_of_sides {edges vertices : SetView}
    (hsides : h.sides? = some (edges, vertices)) :
    h.WellTyped ↔ ∃ p, edges.endpointSet? p = some vertices.id := by
  obtain ⟨kind, source, sink, rows⟩ := h
  cases kind with
  | stencil s => cases hsides
  | _ =>
    cases hsides
    exact Iff.rfl

/-- A hop along a stencil fits if both of its sets are one lattice with a dimension for each
component. -/
theorem wellTyped_iff_of_stencil (hsame : h.source.id = h.sink.id → h.source = h.sink)
    {s : Stencil} (hs : h.stencil? = some s) :
    h.WellTyped ↔
      h.near.id = h.far.id ∧ ∃ dims, h.near.dimensions? = some dims ∧ dims.length = s.arity := by
  obtain ⟨kind, source, sink, rows⟩ := h
  cases kind with
  | stencil s' =>
    cases hs
    cases rows with
    | first => exact Iff.rfl
    | second =>
      -- The condition names the set at the source of the rows, which is the other one here.
      show source.id = sink.id ∧ (∃ dims, source.dimensions? = some dims ∧ dims.length = s'.arity) ↔
        sink.id = source.id ∧ ∃ dims, sink.dimensions? = some dims ∧ dims.length = s'.arity
      rw [eq_comm (a := sink.id)]
      refine and_congr_right fun hid => ?_
      have heq : source = sink := hsame hid
      rw [heq]
  | _ => cases hs

/-- A hop is one between edges and vertices or one along a stencil. -/
theorem exists_sides_or_exists_stencil (h : Hop) :
    (∃ edges vertices, h.sides? = some (edges, vertices)) ∨ ∃ s, h.stencil? = some s := by
  obtain ⟨kind, source, sink, rows⟩ := h
  cases kind with
  | stencil s => exact .inr ⟨_, rfl⟩
  | _ => exact .inl ⟨_, _, rfl⟩

/-- A link does not fit its sets exactly if it has a fault. -/
theorem exists_fault_iff (hsame : h.source.id = h.sink.id → h.source = h.sink) :
    (∃ e, h.Fault e) ↔ ¬ h.WellTyped := by
  constructor
  · rintro ⟨e, hfault⟩
    cases hfault with
    | notAnEdgeSet hsides hcard =>
      rw [wellTyped_iff_of_sides hsides]
      rintro ⟨p, hp⟩
      exact absurd (SetView.lt_cardinality hp) (by omega)
    | endpointSetMismatch hsides _ hnone =>
      rw [wellTyped_iff_of_sides hsides]
      rintro ⟨p, hp⟩
      exact hnone p hp
    | notALattice hs hdims =>
      rw [wellTyped_iff_of_stencil hsame hs, hdims]
      rintro ⟨-, dims, hdims, -⟩
      cases hdims
    | gridMismatch hs _ hne =>
      rw [wellTyped_iff_of_stencil hsame hs]
      exact fun hfits => hne hfits.1
    | stencilArity hs hdims _ harity _ =>
      rw [wellTyped_iff_of_stencil hsame hs, hdims]
      rintro ⟨-, dims, hsome, hlength⟩
      cases hsome
      exact harity hlength.symm
  · intro hill
    rcases exists_sides_or_exists_stencil h with ⟨edges, vertices, hsides⟩ | ⟨s, hs⟩
    · rw [wellTyped_iff_of_sides hsides] at hill
      by_cases hcard : edges.cardinality = 0
      · exact ⟨_, .notAnEdgeSet hsides hcard⟩
      · exact ⟨_, .endpointSetMismatch hsides hcard fun p hp => hill ⟨p, hp⟩⟩
    · rw [wellTyped_iff_of_stencil hsame hs] at hill
      cases hdims : h.near.dimensions? with
      | none => exact ⟨_, .notALattice hs hdims⟩
      | some dims =>
        by_cases hid : h.near.id = h.far.id
        · obtain ⟨o, rest, ho⟩ := List.exists_cons_of_ne_nil s.offsets_ne_nil
          refine ⟨_, .stencilArity hs hdims hid (fun harity => ?_) (congrArg List.head? ho)⟩
          exact hill ⟨hid, dims, hdims, harity.symm⟩
        · exact ⟨_, .gridMismatch hs hdims hid⟩

end Hop

/-- A link that does not fit its sets is refused. -/
theorem Link.exists_realize_error {kind : LinkKind} {source sink : SetView}
    (options : BuildOptions) (hsame : source.id = sink.id → source = sink)
    (htyped : ¬ kind.WellTyped source sink) (rows : End) :
    ∃ e, realize options kind source sink rows = .error e := by
  obtain ⟨e, hfault⟩ := (Hop.exists_fault_iff (h := ⟨kind, source, sink, rows⟩) hsame).2 htyped
  exact ⟨.rejected e, Hop.realize_of_fault hfault⟩

end MeshPath
