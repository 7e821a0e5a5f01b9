import MeshPath.Proofs.Build.BoxStar
import MeshPath.Proofs.Build.Incidences
import MeshPath.Proofs.Build.Options

/-!
# Widths of built indices

A built index reports a width exactly if it has a row and all its rows have this length, whichever
way it is laid out. The one exception is a view of an edge set without edges, which reports the
number of ends that an edge would have.

* `Link.rowWidth_of_edgesToVertices`, `Link.rowWidth_of_stencilNeighbors`,
  `Link.tellsWidth_of_verticesToEdges`: the widths of links.
* `PathTree.ViewsNoEdge`: the exception. `tellsWidth_iff_of_eval`: it is the only one.
* `build_tellsWidth_iff`: the widths of all indices that builders return.
* `not_tellsWidth_noEdges`: a view without rows, and the same link copied.
-/

namespace MeshPath

open PathTree Success

theorem Failure.eq_ok_of_ofPath {α : Type} {x : Except PathError α} {a : α}
    (h : ofPath x = .ok a) : x = .ok a := by
  cases x with
  | error e => cases h
  | ok a' =>
    cases h
    rfl

/-! ## Links -/

namespace Link

variable {options : BuildOptions} {edges vertices source sink : SetView} {s : Stencil}
  {index : PathIndex}

/-- All positions of an edge set lie over one vertex set exactly if it has no other endpoint set. -/
theorem length_positions_eq_iff : (positions edges vertices).length = edges.cardinality ↔
    ∀ id ∈ edges.endpointSets, id = vertices.id := by
  rw [length_positions, SetView.cardinality, List.count_eq_length]
  simp only [eq_comm]

/-- A view reports the number of ends of an edge. Copied rows have the ends that lie in the vertex
set, and their number is reported if there is a row. -/
theorem rowWidth_of_edgesToVertices (htyped : ∃ p, edges.endpointSet? p = some vertices.id)
    (hok : edgesToVertices options edges vertices = .ok index) :
    index.rowWidth =
      if (positions edges vertices).length = edges.cardinality ∧ options.shareEndpoints = true then
        some edges.cardinality
      else if 0 < edges.size then some (positions edges vertices).length else none := by
  rw [edgesToVertices, ofPath_incidentPositions htyped] at hok
  obtain ⟨_, hpositions, hok⟩ := bind_eq_ok_iff.1 hok
  cases hpositions
  split at hok
  · next hshare =>
    obtain ⟨view, hview, hok⟩ := bind_eq_ok_iff.1 hok
    cases hok
    have hedges : view.edges = edges := by
      have hview := Failure.eq_ok_of_ofPath hview
      unfold EndpointView.ofSet at hview
      split at hview
      · cases hview
      · split at hview
        · cases hview
          rfl
        · cases hview
    rw [if_pos hshare, ← hedges]
    rfl
  · next hshare =>
    obtain ⟨sinks, -, hok⟩ := bind_eq_ok_iff.1 hok
    cases hok
    rw [if_neg hshare]
    rfl

/-- An index of a stencil has a neighbour for each offset in every row, and tells this width unless
it has no rows. -/
theorem rowWidth_of_stencilNeighbors (hok : stencilNeighbors source sink s = .ok index) :
    index.rowWidth = if 0 < source.size then some s.offsets.length else none := by
  unfold stencilNeighbors at hok
  split at hok
  · cases hok
  · split at hok
    · cases hok
    · split at hok
      · cases hok
      · cases hok
        rfl

/-- The rows from vertices to edges are compressed row by row. -/
theorem tellsWidth_of_verticesToEdges (hok : verticesToEdges options vertices edges = .ok index) :
    index.TellsWidth := by
  obtain ⟨positions, -, hok⟩ := bind_eq_ok_iff.1 hok
  obtain ⟨entries, -, hok⟩ := bind_eq_ok_iff.1 hok
  obtain ⟨rows, hrows, hok⟩ := bind_eq_ok_iff.1 hok
  cases hok
  have hpack := Failure.eq_ok_of_ofPath hrows
  rw [Segmented.pack_eq_ok _ (Segmented.forall_lt_of_pack hpack)] at hpack
  cases hpack
  exact PathIndex.tellsWidth_ofRows _

/-- From edges to vertices, the width is that of the rows unless there is a view without rows. -/
theorem tellsWidth_iff_of_edgesToVertices
    (htyped : ∃ p, edges.endpointSet? p = some vertices.id)
    (hok : edgesToVertices options edges vertices = .ok index)
    (hrows : index.HasRows edges.size (endsAt edges vertices)) :
    index.TellsWidth ↔ ¬ (options.shareEndpoints = true ∧
      (∀ id ∈ edges.endpointSets, id = vertices.id) ∧ edges.size = 0) := by
  rw [hrows.tellsWidth_iff fun e _ => List.length_map _, rowWidth_of_edgesToVertices htyped hok,
    ← length_positions_eq_iff]
  by_cases hall : (positions edges vertices).length = edges.cardinality
  · rw [hall]
    by_cases hsize : edges.size = 0 <;> by_cases hshare : options.shareEndpoints = true <;>
      simp [hsize, hshare, Nat.pos_iff_ne_zero]
  · simp [hall]

end Link

/-! ## Expressions -/

namespace PathTree

variable {options : BuildOptions} {z : BoundExpr} {rows : End} {index : PathIndex}
  {sizes : SetId → Nat} {U : SetView → Prop}

/-- The expression is a link that leads from edges to vertices, read from its edge side. -/
inductive LeadsFromEdges : BoundExpr → End → Prop
  | edgeToVertex (source sink : BoundVar) : LeadsFromEdges (link .edgeToVertex source sink) .first
  | vertexToEdge (source sink : BoundVar) : LeadsFromEdges (link .vertexToEdge source sink) .second

/-- The endpoint array of an edge set without edges is read in place of rows: endpoints are shared,
and all ends of the edges would lie in the vertex set. -/
structure ViewsNoEdge (options : BuildOptions) (z : BoundExpr) (rows : End) : Prop where
  shared : options.shareEndpoints = true
  leadsFromEdges : z.LeadsFromEdges rows
  homogeneous : ∀ id ∈ (z.endpoint rows).set.endpointSets, id = (z.endpoint rows.other).set.id
  size_eq : (z.endpoint rows).set.size = 0

/-- A link that leads from edges is evaluated from their ends. -/
theorem LeadsFromEdges.eval_eq (h : z.LeadsFromEdges rows) (options : BuildOptions) :
    z.eval options rows =
      Link.edgesToVertices options (z.endpoint rows).set (z.endpoint rows.other).set := by
  cases h <;> rfl

section Eval

variable (hU : RegularSets sizes U) (hzU : ∀ v ∈ z.vars, U v.set)
  (hok : z.eval options rows = .ok index)
include hU hzU hok

/-- The rows of such a link are the ends of the edges. -/
theorem LeadsFromEdges.hasRows (h : z.LeadsFromEdges rows) :
    index.HasRows (z.endpoint rows).set.size
      (Link.endsAt (z.endpoint rows).set (z.endpoint rows.other).set) := by
  cases h with
  | edgeToVertex source sink =>
    exact hasRows_of_eval_link hU (hzU source (by simp [vars])) (hzU sink (by simp [vars])) hok
  | vertexToEdge source sink =>
    exact hasRows_of_eval_link hU (hzU source (by simp [vars])) (hzU sink (by simp [vars])) hok

/-- Some endpoint position of the edges lies over the other set. -/
theorem LeadsFromEdges.exists_position (h : z.LeadsFromEdges rows) :
    ∃ p, (z.endpoint rows).set.endpointSet? p = some (z.endpoint rows.other).set.id := by
  have hwf : z.WellFormed := by cases h <;> trivial
  have htyped : z.WellTyped := by
    by_contra hill
    obtain ⟨e, he⟩ := exists_eval_error options hU.distinct hwf hzU hill rows
    cases hok.symm.trans he
  cases h <;> exact htyped

/-- Of the links from edges to vertices, those with a view without rows do not tell their width. -/
theorem LeadsFromEdges.tellsWidth_iff (h : z.LeadsFromEdges rows) :
    index.TellsWidth ↔ ¬ ViewsNoEdge options z rows := by
  have hrows := h.hasRows hU hzU hok
  have hposition := h.exists_position hU hzU hok
  rw [h.eval_eq] at hok
  rw [Link.tellsWidth_iff_of_edgesToVertices hposition hok hrows]
  refine not_congr ⟨fun ⟨hshare, hall, hsize⟩ => ⟨hshare, h, hall, hsize⟩, fun hview => ?_⟩
  exact ⟨hview.shared, hview.homogeneous, hview.size_eq⟩

/-- A view without rows reports the number of ends that an edge would have. -/
theorem ViewsNoEdge.rowWidth_eq (h : ViewsNoEdge options z rows) :
    index.numElements = 0 ∧ index.rowWidth = some (z.endpoint rows).set.cardinality := by
  have hrows := h.leadsFromEdges.hasRows hU hzU hok
  have hposition := h.leadsFromEdges.exists_position hU hzU hok
  rw [h.leadsFromEdges.eval_eq] at hok
  refine ⟨hrows.numElements_eq.trans h.size_eq, ?_⟩
  rw [Link.rowWidth_of_edgesToVertices hposition hok]
  exact if_pos ⟨Link.length_positions_eq_iff.2 h.homogeneous, h.shared⟩

end Eval

/-- The rows of a formula are compressed row by row. -/
theorem tellsWidth_of_eval_formula {c : Connective} {x y : BoundVar} {q : Option BoundVar}
    {lhs rhs : BoundExpr} (hz : WellFormed (formula c x y q lhs rhs))
    (hok : (formula c x y q lhs rhs).eval options rows = .ok index) : index.TellsWidth := by
  cases q with
  | none =>
    obtain ⟨le, re, -, -, hle, hre⟩ := operandEnds_plain hz rows
    rw [eval_combine hle hre] at hok
    obtain ⟨l, -, hok⟩ := bind_eq_ok_iff.1 hok
    obtain ⟨r, -, hok⟩ := bind_eq_ok_iff.1 hok
    cases hok
    exact PathIndex.tellsWidth_ofRows _
  | some q =>
    obtain ⟨ne, fe, -, -, hne, hfe⟩ := operandEnds_quantified hz rows
    rw [eval_eliminate hne hfe] at hok
    obtain ⟨n, -, hok⟩ := bind_eq_ok_iff.1 hok
    obtain ⟨f, -, hok⟩ := bind_eq_ok_iff.1 hok
    cases hok
    cases c <;> exact PathIndex.tellsWidth_ofRows _

/-- The indices of links that do not lead from edges to vertices tell their width. -/
theorem tellsWidth_of_eval_link (hU : RegularSets sizes U) {kind : LinkKind}
    {source sink : BoundVar} (hsource : U source.set) (hsink : U sink.set)
    (hedges : ¬ LeadsFromEdges (link kind source sink) rows)
    (hok : (link kind source sink).eval options rows = .ok index) : index.TellsWidth := by
  have hrows := hasRows_of_eval_link hU hsource hsink hok
  cases kind with
  | edgeToVertex =>
    cases rows with
    | first => exact absurd (.edgeToVertex source sink) hedges
    | second => exact Link.tellsWidth_of_verticesToEdges hok
  | vertexToEdge =>
    cases rows with
    | first => exact Link.tellsWidth_of_verticesToEdges hok
    | second => exact absurd (.vertexToEdge source sink) hedges
  | stencil s =>
    -- Every element has as many neighbours as the stencil has offsets.
    cases rows with
    | first =>
      rw [hrows.tellsWidth_iff fun i _ => List.length_map _]
      exact Link.rowWidth_of_stencilNeighbors (Failure.eq_ok_of_ofPath hok)
    | second =>
      rw [hrows.tellsWidth_iff fun i _ => List.length_map _]
      exact Link.rowWidth_of_stencilNeighbors (Failure.eq_ok_of_ofPath hok)

/-- The index of an expression tells its width unless it is a view without rows. -/
theorem tellsWidth_iff_of_eval (hU : RegularSets sizes U) (hz : z.WellFormed)
    (hzU : ∀ v ∈ z.vars, U v.set) (hok : z.eval options rows = .ok index) :
    index.TellsWidth ↔ ¬ ViewsNoEdge options z rows := by
  by_cases hedges : z.LeadsFromEdges rows
  · exact hedges.tellsWidth_iff hU hzU hok
  · refine iff_of_true ?_ fun h => hedges h.leadsFromEdges
    cases z with
    | link kind source sink =>
      exact tellsWidth_of_eval_link hU (hzU source (by simp [vars])) (hzU sink (by simp [vars]))
        hedges hok
    | formula => exact tellsWidth_of_eval_formula hz hok

end PathTree

namespace Builder

/-! ## Builders -/

/-- The builder serves the mesh and has realized an expression over it as `index`: one with the
bound form `z`, read from its end `rows`. -/
structure Returns (b : Builder) (m : Mesh) (z : BoundExpr) (rows : End) (index : PathIndex) :
    Prop where
  serves : b.Serves m
  carries : m.Carries z
  exists_build : ∃ x built, b.boundForm x = .ok z ∧
    (b.build x rows.toNat).1 = .ok built ∧ built.index = index

variable {m : Mesh} {b : Builder} {z : BoundExpr} {rows : End} {index : PathIndex}

theorem Returns.eval_eq_ok (h : b.Returns m z rows index) :
    z.eval b.options rows = .ok index := by
  obtain ⟨x, built, hform, hok, rfl⟩ := h.exists_build
  rw [build_eq_build_toOpen (End.ofNat?_toNat rows) hform] at hok
  exact h.serves.eval_eq_ok h.carries hok

/-- Every index that a builder returns tells its width, except for a view of an edge set without
edges. That one reports the number of ends that an edge would have, so that the same link has no
width if its ends are copied. All other indices with the same rows report the same width. -/
theorem build_tellsWidth_iff (hm : m.Reached) (h : b.Returns m z rows index) :
    (index.TellsWidth ↔ ¬ ViewsNoEdge b.options z rows) ∧
      (ViewsNoEdge b.options z rows →
        index.numElements = 0 ∧ index.rowWidth = some (z.endpoint rows).set.cardinality) ∧
      (∀ {m' : Mesh} {b' : Builder} {z' : BoundExpr} {rows' : End} {index' : PathIndex},
        m'.Reached → b'.Returns m' z' rows' index' → ¬ ViewsNoEdge b.options z rows →
          ¬ ViewsNoEdge b'.options z' rows' → index.numElements = index'.numElements →
            (∀ e, index.row e = index'.row e) → index.rowWidth = index'.rowWidth) ∧
      ∀ {b' : Builder} {index' : PathIndex}, b'.Returns m z rows index' →
        z.LeadsFromEdges rows → b.options.shareEndpoints = true →
          b'.options.shareEndpoints = false →
            (index.rowWidth = index'.rowWidth ↔ ¬ ViewsNoEdge b.options z rows) := by
  have hsets := Mesh.regularSets_of_reached hm
  have htells := tellsWidth_iff_of_eval hsets h.carries.wellFormed h.carries.regular h.eval_eq_ok
  have hview := fun hview : ViewsNoEdge b.options z rows =>
    hview.rowWidth_eq hsets h.carries.regular h.eval_eq_ok
  refine ⟨htells, hview, fun hm' h' hnot hnot' hn hrow => ?_, fun h' hedges hshare hcopy => ?_⟩
  · have htells' := tellsWidth_iff_of_eval (Mesh.regularSets_of_reached hm') h'.carries.wellFormed
      h'.carries.regular h'.eval_eq_ok
    exact (htells.2 hnot).rowWidth_eq (htells'.2 hnot') hn hrow
  · have hcopied := (hedges.tellsWidth_iff hsets h'.carries.regular h'.eval_eq_ok).2 fun h => by
      rw [h.shared] at hcopy
      cases hcopy
    have hrows := hedges.hasRows hsets h.carries.regular h.eval_eq_ok
    have hrows' := hedges.hasRows hsets h'.carries.regular h'.eval_eq_ok
    have hsame := hrows.sameRows hrows'
    constructor
    · intro hwidth hnone
      obtain ⟨hn, hsome⟩ := hview hnone
      -- The copied rows would report a width without a row.
      have hpos := ((hcopied _).1 (hwidth.symm.trans hsome)).1
      rw [← hsame.numElements_eq, hn] at hpos
      exact Nat.lt_irrefl 0 hpos
    · intro hnot
      exact (htells.2 hnot).rowWidth_eq hcopied hsame.numElements_eq hsame.row_eq

/-- From edges to their vertices. -/
def endsLink (edges vertices : SetView) : BoundExpr :=
  .link .edgeToVertex ⟨"e", edges⟩ ⟨"v", vertices⟩

theorem carries_endsLink {edges vertices : SetView} (hedges : m.Holds edges)
    (hvertices : m.Holds vertices) (hsmall : edges.size < Word.span32)
    (hsmall' : vertices.size < Word.span32) : m.Carries (endsLink edges vertices) where
  constructible := .link _ _ _
  holds := by
    simp only [endsLink, vars, List.forall_mem_cons]
    exact ⟨hedges, hvertices, fun _ h => absurd h List.not_mem_nil⟩
  small := by
    simp only [endsLink, vars, List.forall_mem_cons]
    exact ⟨hsmall, hsmall', fun _ h => absurd h List.not_mem_nil⟩

/-- The ends of a single edge, read from the endpoint array and copied. -/
theorem build_tellsWidth_iff_edgeMesh :
    let z := endsLink Mesh.singleEdge.toSetView Mesh.twoVertices.toSetView
    ∃ view copy, (new ⟨true, true⟩ : Builder).Returns Mesh.edgeMesh z .first (.endpoints view) ∧
      (new ⟨false, true⟩ : Builder).Returns Mesh.edgeMesh z .first (.segmented copy) ∧
      (PathIndex.endpoints view).TellsWidth ∧
      (PathIndex.endpoints view).rowWidth = (PathIndex.segmented copy).rowWidth := by
  intro z
  have hm := Mesh.reached_edgeMesh
  have hz : Mesh.edgeMesh.Carries z :=
    carries_endsLink ⟨Mesh.singleEdge, by decide, rfl⟩ ⟨Mesh.twoVertices, by decide, rfl⟩
      (by decide) (by decide)
  let view : EndpointView := ⟨Mesh.singleEdge.toSetView, rfl⟩
  let copy : Segmented := .ofWidth 1 2 [0, 1]
  have hview : ((new ⟨true, true⟩ : Builder).build z.toOpen 0).1 = .ok ⟨0, .endpoints view⟩ := by
    decide +kernel
  have hcopy : ((new ⟨false, true⟩ : Builder).build z.toOpen 0).1 = .ok ⟨0, .segmented copy⟩ := by
    decide +kernel
  have h : (new ⟨true, true⟩ : Builder).Returns Mesh.edgeMesh z .first (.endpoints view) :=
    ⟨serves_new _ hm, hz, z.toOpen, _, boundForm_toOpen _ z, hview, rfl⟩
  have h' : (new ⟨false, true⟩ : Builder).Returns Mesh.edgeMesh z .first (.segmented copy) :=
    ⟨serves_new _ hm, hz, z.toOpen, _, boundForm_toOpen _ z, hcopy, rfl⟩
  have hnot : ¬ ViewsNoEdge (new ⟨true, true⟩ : Builder).options z .first := fun hview =>
    absurd hview.size_eq (by decide)
  obtain ⟨htells, -, -, hsame⟩ := build_tellsWidth_iff hm h
  exact ⟨view, copy, h, h', htells.2 hnot, (hsame h' (.edgeToVertex _ _) rfl rfl).2 hnot⟩

/-- The view of an edge set without edges reports the width two, and its copy reports no width. Both
have no row. -/
theorem not_tellsWidth_noEdges :
    let z := endsLink Mesh.noEdges.toSetView Mesh.noVertices.toSetView
    ∃ built built', Mesh.bareMesh.Reached ∧ Mesh.bareMesh.Carries z ∧
      ((new ⟨true, true⟩ : Builder).build z.toOpen 0).1 = .ok built ∧
      ((new ⟨false, true⟩ : Builder).build z.toOpen 0).1 = .ok built' ∧
      built.index.rowWidth = some 2 ∧ built'.index.rowWidth = none ∧
      built.index.numElements = 0 ∧ built'.index.numElements = 0 ∧ ¬ built.index.TellsWidth := by
  intro z
  have hz : Mesh.bareMesh.Carries z :=
    carries_endsLink ⟨Mesh.noEdges, by decide, rfl⟩ ⟨Mesh.noVertices, by decide, rfl⟩
      (by decide) (by decide)
  let view : EndpointView := ⟨Mesh.noEdges.toSetView, rfl⟩
  refine ⟨⟨0, .endpoints view⟩, ⟨0, .segmented (.ofWidth 0 2 [])⟩, Mesh.reached_bareMesh, hz,
    by decide +kernel, by decide +kernel, rfl, rfl, rfl, rfl, fun htells => ?_⟩
  exact Nat.lt_irrefl 0 ((htells 2).1 rfl).1

end Builder

end MeshPath
