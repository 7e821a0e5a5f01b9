import Mathlib
import MeshPath.Proofs.Build.Outcome
import MeshPath.Proofs.Mesh.Appended

/-!
# Indices of growing sets

Adding elements to sets never takes a sink from a row.

* `Incident.mono`, `Neighbor.mono`, `LinkKind.Rel.mono`, `LinkKind.WellTyped.mono`: what a link
  relates it goes on relating, and it goes on fitting its sets.
* `PathTree.rel_map`, `PathTree.wellTyped_map`: the same for all expressions.
* `bind_eq_ok_map_reassign`: the bound forms of an expression from two tables.
* `build_regrown`: an expression that is built over some sets is built over what has become of
  them, and each row holds what it held.
-/

namespace MeshPath

variable {ρ : SetId → SetId}

/-! ## Links -/

section Link

variable {source sink source' sink' : SetView} {i j : Nat}

/-- An edge keeps its ends when sets grow. -/
theorem Incident.mono (hsource : source.Outgrown ρ source') (hsink : sink.Outgrown ρ sink')
    (h : Incident source sink i j) : Incident source' sink' i j := by
  obtain ⟨hlt, p, hset, hend⟩ := h
  refine ⟨Nat.lt_of_lt_of_le hlt hsource.size_le, p, ?_, hsource.endpoint?_eq_some hend⟩
  rw [hsink.id_eq]
  exact hsource.endpointSet?_eq_some hset

/-- A lattice does not grow, so that neighbours stay the same. -/
theorem Neighbor.mono (h : source.Outgrown ρ source') {s : Stencil} (hij : Neighbor source s i j) :
    Neighbor source' s i j := by
  obtain ⟨hlt, dims, hdims, hshift⟩ := hij
  exact ⟨Nat.lt_of_lt_of_le hlt h.size_le, dims, h.dimensions?_eq.trans hdims, hshift⟩

variable {kind : LinkKind}

/-- A link keeps what it relates when sets grow. -/
theorem LinkKind.Rel.mono (hsource : source.Outgrown ρ source') (hsink : sink.Outgrown ρ sink')
    {rows : End} (h : kind.Rel source sink rows i j) : kind.Rel source' sink' rows i j := by
  cases kind with
  | edgeToVertex => cases rows <;> exact Incident.mono hsource hsink h
  | vertexToEdge => cases rows <;> exact Incident.mono hsink hsource h
  | stencil s =>
    cases rows with
    | first => exact Neighbor.mono hsource h
    | second => exact Neighbor.mono hsink h

/-- A link that fits its sets still fits them when they have grown. -/
theorem LinkKind.WellTyped.mono (hsource : source.Outgrown ρ source')
    (hsink : sink.Outgrown ρ sink') (h : kind.WellTyped source sink) :
    kind.WellTyped source' sink' := by
  have hposition : ∀ {edges vertices edges' vertices' : SetView}, edges.Outgrown ρ edges' →
      vertices.Outgrown ρ vertices' → (∃ p, edges.endpointSet? p = some vertices.id) →
        ∃ p, edges'.endpointSet? p = some vertices'.id := by
    rintro edges vertices edges' vertices' hedges hvertices ⟨p, hp⟩
    exact ⟨p, by rw [hvertices.id_eq, hedges.endpointSet?_eq_some hp]⟩
  cases kind with
  | edgeToVertex => exact hposition hsource hsink h
  | vertexToEdge => exact hposition hsink hsource h
  | stencil s =>
    obtain ⟨hid, dims, hdims, harity⟩ := h
    refine ⟨?_, dims, hsource.dimensions?_eq.trans hdims, harity⟩
    rw [hsource.id_eq, hsink.id_eq, hid]

end Link

theorem Connective.Holds.imp {c : Connective} {p q p' q' : Prop} (hp : p → p') (hq : q → q')
    (h : c.Holds p q) : c.Holds p' q' := by
  cases c with
  | and => exact ⟨hp h.1, hq h.2⟩
  | or => exact Or.imp hp hq h

/-! ## Expressions -/

namespace PathTree

variable {f : BoundVar → BoundVar} {z : BoundExpr} {i j : Nat}

theorem endNamed?_map (hf : ∀ v, (f v).name = v.name) (x : BoundExpr) (name : String) :
    (x.map f).endNamed? name = x.endNamed? name := by
  rw [endNamed?, endNamed?, endName_map hf, endName_map hf]

/-- What an operand leads to, its image leads to as well. -/
theorem ReadFrom.map (hf : ∀ v, (f v).name = v.name) {R R' : End → Nat → Nat → Prop}
    {name : String} (hR : ∀ e, R e i j → R' e i j) (h : ReadFrom z R name i j) :
    ReadFrom (z.map f) R' name i j := by
  obtain ⟨e, he, hrel⟩ := h
  exact ⟨e, by rw [endNamed?_map hf, he], hR e hrel⟩

/-- Every variable keeps its name, and its set has become the one that it has under `f`. -/
structure Outgrows (ρ : SetId → SetId) (f : BoundVar → BoundVar) (vs : List BoundVar) : Prop where
  name_eq : ∀ v, (f v).name = v.name
  outgrown : ∀ v ∈ vs, v.set.Outgrown ρ (f v).set

theorem Outgrows.mono {us vs : List BoundVar} (h : Outgrows ρ f vs) (hsub : us ⊆ vs) :
    Outgrows ρ f us := ⟨h.name_eq, fun v hv => h.outgrown v (hsub hv)⟩

/-- An expression goes on relating what it relates. -/
theorem rel_map (h : Outgrows ρ f z.vars) {rows : End} (hrel : z.Rel rows i j) :
    (z.map f).Rel rows i j := by
  induction z generalizing rows i j with
  | link kind source sink =>
    exact LinkKind.Rel.mono (h.outgrown source (by simp [vars])) (h.outgrown sink (by simp [vars]))
      hrel
  | formula c x y q lhs rhs ihl ihr =>
    have hl : ∀ {name i j}, ReadFrom lhs lhs.Rel name i j →
        ReadFrom (lhs.map f) (lhs.map f).Rel name i j :=
      ReadFrom.map h.name_eq fun _ => ihl (h.mono fun _ => mem_vars_of_lhs)
    have hr : ∀ {name i j}, ReadFrom rhs rhs.Rel name i j →
        ReadFrom (rhs.map f) (rhs.map f).Rel name i j :=
      ReadFrom.map h.name_eq fun _ => ihr (h.mono fun _ => mem_vars_of_rhs)
    have hsource : (rows.pick (f x) (f y)).name = (rows.pick x y).name := by
      cases rows <;> exact h.name_eq _
    cases q with
    | none =>
      rw [Rel] at hrel
      rw [map, Option.map_none, Rel, hsource]
      exact hrel.imp hl hr
    | some q =>
      cases c with
      | and =>
        rw [Rel] at hrel
        obtain ⟨k, hrel⟩ := hrel
        rw [map, Option.map_some, Rel, hsource, h.name_eq]
        exact ⟨k, hrel.imp (.imp hl hr) (.imp hr hl)⟩
      | or =>
        rw [Rel] at hrel
        obtain ⟨⟨k, hhop⟩, hlt⟩ := hrel
        -- The set of the sink may have more elements, all of which are reached.
        have hgrown : (rows.other.pick x y).set.Outgrown ρ (rows.other.pick (f x) (f y)).set := by
          cases rows <;> exact h.outgrown _ (by simp [vars, End.pick, End.other])
        rw [map, Option.map_some, Rel, hsource]
        exact ⟨⟨k, hhop.imp hl hr⟩, Nat.lt_of_lt_of_le hlt hgrown.size_le⟩

/-- The links of an expression go on fitting their sets. -/
theorem wellTyped_map (h : Outgrows ρ f z.vars) (htyped : z.WellTyped) : (z.map f).WellTyped := by
  induction z with
  | link kind source sink =>
    exact LinkKind.WellTyped.mono (h.outgrown source (by simp [vars]))
      (h.outgrown sink (by simp [vars])) htyped
  | formula c x y q lhs rhs ihl ihr =>
    exact ⟨ihl (h.mono fun _ => mem_vars_of_lhs) htyped.1,
      ihr (h.mono fun _ => mem_vars_of_rhs) htyped.2⟩

end PathTree

/-! ## Bindings -/

namespace Bindings

/-- The variable over the set that the table has for its name. -/
def reassign (table : Bindings) (v : BoundVar) : BoundVar :=
  ⟨v.name, (table.get? v.name).getD v.set⟩

theorem name_reassign (table : Bindings) (v : BoundVar) : (table.reassign v).name = v.name := rfl

end Bindings

namespace PathTree

/-- The sets of a bound form are those of the table. -/
theorem exists_mem_vars_of_bind {table : Bindings} {x : OpenExpr} {z : BoundExpr}
    (h : x.bind table = .ok z.toOpen) {v : BoundVar} (hv : v ∈ z.vars) :
    ∃ w ∈ x.vars, w.name = v.name ∧ table.get? w.name = some v.set := by
  obtain ⟨-, -, hz⟩ := bind_eq_ok_iff_map.1 h
  have hmem : (⟨v.name, some v.set⟩ : OpenVar) ∈ z.toOpen.vars := by
    rw [toOpen, vars_map]
    exact List.mem_map_of_mem hv
  rw [hz, vars_map] at hmem
  obtain ⟨w, hw, hassign⟩ := List.mem_map.1 hmem
  obtain ⟨hname, hset⟩ := Var.mk.inj hassign
  exact ⟨w, hw, hname, hset⟩

/-- An expression that is bound from one table is bound from every other one that knows its names,
and the bound forms differ in their sets alone. -/
theorem bind_eq_ok_map_reassign {table table' : Bindings} {x : OpenExpr} {z : BoundExpr}
    (h : x.bind table = .ok z.toOpen)
    (hall : ∀ v ∈ x.vars, (table'.get? v.name).isSome = true) :
    x.bind table' = .ok (z.map table'.reassign).toOpen := by
  obtain ⟨hwf, -, hz⟩ := bind_eq_ok_iff_map.1 h
  refine bind_eq_ok_iff_map.2 ⟨hwf, hall, ?_⟩
  have hassign : ∀ v ∈ z.vars, (table'.get? v.name).isSome = true := by
    intro v hv
    obtain ⟨w, hw, hname, -⟩ := exists_mem_vars_of_bind h hv
    rw [← hname]
    exact hall w hw
  -- Both tables assign by name, so that the first assignment is lost in the second.
  calc (z.map table'.reassign).toOpen
      = z.toOpen.map table'.assign := by
        rw [toOpen, toOpen, map_map, map_map]
        refine map_congr fun v hv => ?_
        obtain ⟨set, hset⟩ := Option.isSome_iff_exists.1 (hassign v hv)
        simp [Bindings.reassign, Bindings.assign, hset]
    _ = (x.map table.assign).map table'.assign := by rw [hz]
    _ = x.map table'.assign := by rw [map_map]; rfl

end PathTree

/-! ## Indices -/

namespace Builder

open PathTree

variable {m m' : Mesh} {b b' : Builder} {x : OpenExpr} {z : BoundExpr} {ordinal : Nat}
  {built : Built}

/-- The sets that `b` binds to the names of `x` have become those that `b'` binds to them, and
stored numbers hold their elements. -/
def Regrown (m m' : Mesh) (ρ : SetId → SetId) (b b' : Builder) (x : OpenExpr) : Prop :=
  ∀ v ∈ x.vars, ∀ set, b.bindings.get? v.name = some set →
    ∃ set', b'.bindings.get? v.name = some set' ∧ m.Outgrown m' ρ set set' ∧
      set'.size < Word.span32

/-- A variable of the bound form has a set that has outgrown its old one. -/
theorem Regrown.reassign (h : Regrown m m' ρ b b' x) (hbind : x.bind b.bindings = .ok z.toOpen)
    {v : BoundVar} (hv : v ∈ z.vars) :
    m.Outgrown m' ρ v.set (b'.bindings.reassign v).set ∧
      (b'.bindings.reassign v).set.size < Word.span32 := by
  obtain ⟨w, hw, hname, hset⟩ := exists_mem_vars_of_bind hbind hv
  obtain ⟨set', hset', hgrown⟩ := h w hw v.set hset
  rw [hname] at hset'
  rw [Bindings.reassign, hset']
  exact hgrown

/-- All variables of the bound form have such sets. -/
theorem Regrown.outgrows (h : Regrown m m' ρ b b' x) (hbind : x.bind b.bindings = .ok z.toOpen) :
    Outgrows ρ b'.bindings.reassign z.vars where
  name_eq := b'.bindings.name_reassign
  outgrown _ hv := (h.reassign hbind hv).1.view

/-- The bound forms are expressions over the sets of the meshes. -/
theorem Regrown.carries (h : Regrown m m' ρ b b' x) (hbind : x.bind b.bindings = .ok z.toOpen) :
    m.Carries z ∧ m'.Carries (z.map b'.bindings.reassign) := by
  have hwf : z.WellFormed := wellFormed_toOpen.1 (wellFormed_of_bind hbind)
  have hwf' : (z.map b'.bindings.reassign).WellFormed :=
    (wellFormed_map b'.bindings.name_reassign).2 hwf
  refine ⟨⟨constructible_iff_wellFormed.2 (wellFormed_toOpen.2 hwf), fun v hv => ?_,
    fun v hv => ?_⟩, ⟨constructible_iff_wellFormed.2 (wellFormed_toOpen.2 hwf'), fun w hw => ?_,
    fun w hw => ?_⟩⟩
  · obtain ⟨⟨s, hs, -, -, -, hview, -⟩, -⟩ := h.reassign hbind hv
    exact ⟨s, hs, hview⟩
  · obtain ⟨hgrown, hsmall⟩ := h.reassign hbind hv
    exact Nat.lt_of_le_of_lt hgrown.view.size_le hsmall
  all_goals
    rw [vars_map] at hw
    obtain ⟨v, hv, rfl⟩ := List.mem_map.1 hw
  · obtain ⟨⟨-, -, s', hs', -, -, hview⟩, -⟩ := h.reassign hbind hv
    exact ⟨s', hs', hview⟩
  · exact (h.reassign hbind hv).2

/-- An expression that was bound over the old sets is bound over the new ones, each variable to the
set that has outgrown its own. -/
theorem Regrown.bind_eq_ok (h : Regrown m m' ρ b b' x)
    (hbind : x.bind b.bindings = .ok z.toOpen) :
    x.bind b'.bindings = .ok (z.map b'.bindings.reassign).toOpen := by
  refine bind_eq_ok_map_reassign hbind fun v hv => ?_
  obtain ⟨-, hall, -⟩ := bind_eq_ok_iff_map.1 hbind
  obtain ⟨set, hset⟩ := Option.isSome_iff_exists.1 (hall v hv)
  obtain ⟨set', hset', -⟩ := h v hv set hset
  rw [hset', Option.isSome_some]

/-- An expression without sets that is built over some sets is also built after further elements
have been added to them. No row loses a sink. The sets may have been made again for that, under
other numbers. -/
theorem build_regrown (hm : m.Reached) (hm' : m'.Reached) (hb : b.Serves m) (hb' : b'.Serves m')
    (hunbound : x.checkBound = .ok false) (hsets : Regrown m m' ρ b b' x)
    (hok : (b.build x ordinal).1 = .ok built) :
    ∃ built', (b'.build x ordinal).1 = .ok built' ∧
      ∀ i, built.index.row i ⊆ built'.index.row i := by
  obtain ⟨rows, z, hrows, hform⟩ := exists_boundForm_of_build hok
  have hbind := bind_of_boundForm hunbound hform
  have hbind' := hsets.bind_eq_ok hbind
  have hform' := boundForm_eq_ok_iff.2 (.inr ⟨hunbound, hbind'⟩)
  have houtgrows := hsets.outgrows hbind
  obtain ⟨hz, hz'⟩ := hsets.carries hbind
  rw [build_eq_build_toOpen hrows hform] at hok
  rw [build_eq_build_toOpen hrows hform']
  -- The links go on fitting their sets, so that there is an index over the second ones.
  have htyped := wellTyped_map houtgrows ((exists_build_iff hm hb hz rows).1 ⟨built, hok⟩)
  obtain ⟨built', hok'⟩ := (exists_build_iff hm' hb' hz' rows).2 htyped
  refine ⟨built', hok', fun i j hj => ?_⟩
  rw [(realizes_of_build hm hb hz (coherent_of_bind hbind) hok).mem_row_iff] at hj
  rw [(realizes_of_build hm' hb' hz' (coherent_of_bind hbind') hok').mem_row_iff]
  exact rel_map houtgrows hj

/-- From a vertex with an edge to all vertices. -/
def anyEdge : OpenExpr :=
  .formula .or (.unbound "u") (.unbound "w") (some (.unbound "e"))
    (.link .vertexToEdge (.unbound "u") (.unbound "e"))
    (.link .edgeToVertex (.unbound "e") (.unbound "w"))

/-- A builder that knows the vertices `u` and `w` and the edges `e`. -/
def edgeBuilder (vertices edges : SetView) : Builder :=
  ⟨.standard, .ofList [("u", vertices), ("w", vertices), ("e", edges)], .empty⟩

/-- The table of such a builder can be bound name by name. -/
theorem serves_edgeBuilder {vertices edges : SetView} (hm : m.Reached) (hv : m.Holds vertices)
    (he : m.Holds edges) : (edgeBuilder vertices edges).Serves m := by
  let b₁ : Builder := ⟨.standard, .ofList [("u", vertices)], .empty⟩
  let b₂ : Builder := ⟨.standard, .ofList [("u", vertices), ("w", vertices)], .empty⟩
  have hu : (new .standard : Builder).bind "u" vertices = .ok b₁ := rfl
  have hw : b₁.bind "w" vertices = .ok b₂ := rfl
  have he' : b₂.bind "e" edges = .ok (edgeBuilder vertices edges) := rfl
  exact ⟨m.Holds, .standard, Mesh.distinct_holds hm, fun _ h => h,
    ((Runs.refl.step (.bind hv hu)).step (.bind hv hw)).step (.bind he he')⟩

/-- Before and after a third vertex and a second edge. -/
theorem build_regrown_pathMesh :
    let b := edgeBuilder Mesh.twoVertices.toSetView Mesh.singleEdge.toSetView
    let b' := edgeBuilder Mesh.threeVertices.toSetView Mesh.twoEdges.toSetView
    ∃ built built', (b.build anyEdge 0).1 = .ok built ∧ (b'.build anyEdge 0).1 = .ok built' ∧
      built.index.rows = [[0, 1], [0, 1]] ∧ ∀ i, built.index.row i ⊆ built'.index.row i := by
  intro b b'
  have hb : b.Serves Mesh.edgeMesh := serves_edgeBuilder Mesh.reached_edgeMesh
    ⟨Mesh.twoVertices, by decide, rfl⟩ ⟨Mesh.singleEdge, by decide, rfl⟩
  have hb' : b'.Serves Mesh.pathMesh := serves_edgeBuilder Mesh.reached_pathMesh
    ⟨Mesh.threeVertices, by decide, rfl⟩ ⟨Mesh.twoEdges, by decide, rfl⟩
  have hsets : Regrown Mesh.edgeMesh Mesh.pathMesh id b b' anyEdge := by
    have hnames : ∀ v ∈ anyEdge.vars, v.name = "u" ∨ v.name = "w" ∨ v.name = "e" := by decide
    have hvertices : Mesh.threeVertices.size < Word.span32 := by decide
    have hedges : Mesh.twoEdges.size < Word.span32 := by decide
    intro v hv set hset
    rcases hnames v hv with hname | hname | hname <;> rw [hname] at hset ⊢
    · obtain rfl : Mesh.twoVertices.toSetView = set := Option.some.inj hset
      exact ⟨_, rfl, Mesh.outgrown_threeVertices, hvertices⟩
    · obtain rfl : Mesh.twoVertices.toSetView = set := Option.some.inj hset
      exact ⟨_, rfl, Mesh.outgrown_threeVertices, hvertices⟩
    · obtain rfl : Mesh.singleEdge.toSetView = set := Option.some.inj hset
      exact ⟨_, rfl, Mesh.outgrown_twoEdges, hedges⟩
  have hok : (b.build anyEdge 0).1 = .ok ⟨2, .segmented (.ofRows [[0, 1], [0, 1]])⟩ := by
    decide_cbv
  obtain ⟨built', hok', hrows⟩ := build_regrown Mesh.reached_edgeMesh Mesh.reached_pathMesh hb hb'
    rfl hsets hok
  exact ⟨_, built', hok, hok', by decide, hrows⟩

end Builder

end MeshPath
