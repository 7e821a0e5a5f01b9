import MeshPath.Proofs.Build.Outcome
import MeshPath.Proofs.Lattice.Action

/-!
# The two ends of an expression

Read from its other end, an expression has the converse relation, unless a disjunction with a
quantified variable broadcasts somewhere in it: only the side that it broadcasts to is then whole.

* `neighbor_inverse_iff`: the inverse stencil leads back, if its components can be negated.
* `PathTree.BroadcastFree`: no disjunction has a quantified variable. `PathTree.Negatable`: the
  components of all stencils can be negated.
* `rel_other_iff`: the relations of the two ends are converse to each other.
* `build_converse`: so are the indices.
-/

namespace MeshPath

open PathTree

variable {sizes : SetId → Nat} {i j : Nat}

/-! ## Links -/

/-- Over a lattice that fits the stencil, an offset leads to an element of the lattice. -/
theorem Neighbor.lt_size {lattice : SetView} {s : Stencil} (hregular : lattice.Regular sizes)
    (hfits : ∃ dims, lattice.dimensions? = some dims ∧ dims.length = s.arity)
    (h : Neighbor lattice s i j) : j < lattice.size := by
  obtain ⟨-, dims, hdims, o, ho, rfl⟩ := h
  obtain ⟨hsize, hextents⟩ := hregular.size_eq_and_pos_and_lt hdims
  obtain ⟨_, hsome, harity⟩ := hfits
  cases hdims.symm.trans hsome
  rw [hsize]
  exact Lattice.shift_lt_prod i ((s.length_of_mem o ho).trans harity.symm) hextents

/-- Over a lattice that fits the stencil, its inverse leads back. -/
theorem neighbor_inverse_iff {lattice : SetView} {s : Stencil} (hregular : lattice.Regular sizes)
    (hfits : ∃ dims, lattice.dimensions? = some dims ∧ dims.length = s.arity) (hs : s.Negatable) :
    Neighbor lattice s.inverse i j ↔ Neighbor lattice s j i := by
  obtain ⟨dims, hdims, harity⟩ := hfits
  obtain ⟨hsize, hextents⟩ := hregular.size_eq_and_pos_and_lt hdims
  -- Both ends of a step lie in the lattice, so that the negated offset undoes the step.
  have hback : ∀ o ∈ s.offsets, i < lattice.size → j < lattice.size →
      (Lattice.shift dims j o = i ↔ Lattice.shift dims i (o.map fun c => -c) = j) := by
    intro o ho hi hj
    rw [hsize] at hi hj
    exact Lattice.shift_eq_iff ((s.length_of_mem o ho).trans harity.symm) hj hi hextents
  constructor
  · intro h
    have hinverse : dims.length = s.inverse.arity := harity
    have hj : j < lattice.size := h.lt_size hregular ⟨dims, hdims, hinverse⟩
    obtain ⟨hi, dims', hdims', p, hp, hstep⟩ := h
    cases hdims.symm.trans hdims'
    rw [Stencil.offsets_inverse hs] at hp
    obtain ⟨o, ho, rfl⟩ := List.mem_map.1 hp
    exact ⟨hj, dims, hdims, o, ho, (hback o ho hi hj).2 hstep⟩
  · intro h
    have hi : i < lattice.size := h.lt_size hregular ⟨dims, hdims, harity⟩
    obtain ⟨hj, dims', hdims', o, ho, hstep⟩ := h
    cases hdims.symm.trans hdims'
    refine ⟨hi, dims, hdims, o.map fun c => -c, ?_, (hback o ho hi hj).1 hstep⟩
    rw [Stencil.offsets_inverse hs]
    exact List.mem_map_of_mem ho

/-- The components of a stencil can be negated. Other links have none. -/
def LinkKind.Negatable : LinkKind → Prop
  | stencil s => s.Negatable
  | _ => True

/-- Read from its other end, a link that fits its sets has the converse relation. -/
theorem LinkKind.rel_other_iff {kind : LinkKind} {source sink : SetView}
    (hsource : source.Regular sizes) (hsame : source.id = sink.id → source = sink)
    (htyped : kind.WellTyped source sink) (hkind : kind.Negatable) (rows : End) :
    kind.Rel source sink rows.other j i ↔ kind.Rel source sink rows i j := by
  cases kind with
  | stencil s =>
    obtain ⟨hid, hfits⟩ := htyped
    have heq : source = sink := hsame hid
    subst heq
    cases rows with
    | first => exact neighbor_inverse_iff hsource hfits hkind
    | second => exact (neighbor_inverse_iff hsource hfits hkind).symm
  -- Between edges and vertices, both ends read one incidence relation.
  | _ => cases rows <;> exact Iff.rfl

/-! ## Formulas -/

namespace PathTree

/-- No disjunction has a quantified variable. -/
def BroadcastFree {V : Type} : PathTree V → Prop
  | link _ _ _ => True
  | formula c _ _ q lhs rhs => (c = .or → q = none) ∧ lhs.BroadcastFree ∧ rhs.BroadcastFree

/-- The components of all stencils can be negated. -/
def Negatable {V : Type} : PathTree V → Prop
  | link kind _ _ => kind.Negatable
  | formula _ _ _ _ lhs rhs => lhs.Negatable ∧ rhs.Negatable

variable {c : Connective} {x y q : BoundVar} {lhs rhs : BoundExpr} {U : SetView → Prop}

/-- From the other end, the second hop is the first one. -/
theorem near_far_other (h : WellFormed (formula c x y (some q) lhs rhs)) (rows : End) :
    near lhs rhs (rows.other.pick x y).name = far lhs rhs (rows.pick x y).name ∧
      far lhs rhs (rows.other.pick x y).name = near lhs rhs (rows.pick x y).name := by
  obtain ⟨ne, fe, hn, hf⟩ := exists_hops h rows
  -- Only the second hop has the sink at an end.
  have hnear : (near lhs rhs (rows.pick x y).name).endNamed? (rows.other.pick x y).name = none :=
    hn.endNamed?_eq_none (source_ne_sink h rows).symm (quantified_ne h rows.other).symm
  have hfar : (far lhs rhs (rows.pick x y).name).endNamed? (rows.other.pick x y).name =
      some fe.other :=
    hf.other.endNamed?_eq_some (quantified_ne h rows.other).symm
  rcases near_far_eq lhs rhs (rows.pick x y).name with ⟨hl, hr⟩ | ⟨hr, hl⟩
  · rw [hl] at hnear
    rw [hl, hr, near, far, hnear]
    exact ⟨rfl, rfl⟩
  · rw [hl] at hfar
    rw [hl, hr, near, far, hfar]
    exact ⟨rfl, rfl⟩

/-- Without a quantified variable, both operands are read from the other end too. -/
theorem rel_other_plain_iff (h : WellFormed (formula c x y none lhs rhs)) (rows : End)
    (hl : ∀ e, lhs.Rel e.other j i ↔ lhs.Rel e i j)
    (hr : ∀ e, rhs.Rel e.other j i ↔ rhs.Rel e i j) :
    (formula c x y none lhs rhs).Rel rows.other j i ↔
      (formula c x y none lhs rhs).Rel rows i j := by
  obtain ⟨le, re, hlend, hrend⟩ := exists_ends h rows
  have hback : ∀ {o : BoundExpr} {e : End},
      o.Leads e (rows.pick x y).name (rows.other.pick x y).name →
        o.Leads e.other (rows.other.pick x y).name (rows.other.other.pick x y).name := by
    intro o e ho
    rw [End.other_other]
    exact ho.other
  rw [rel_plain_iff h (hback hlend) (hback hrend), rel_plain_iff h hlend hrend, hl, hr]

/-- A composition from the other end is that of the converse hops in the opposite order. -/
theorem rel_other_and_iff (h : WellFormed (formula .and x y (some q) lhs rhs)) (rows : End)
    (hl : ∀ e i j, lhs.Rel e.other j i ↔ lhs.Rel e i j)
    (hr : ∀ e i j, rhs.Rel e.other j i ↔ rhs.Rel e i j) :
    (formula .and x y (some q) lhs rhs).Rel rows.other j i ↔
      (formula .and x y (some q) lhs rhs).Rel rows i j := by
  obtain ⟨ne, fe, hn, hf⟩ := exists_hops h rows
  obtain ⟨hnear, hfar⟩ := near_far_other h rows
  have hhop : ∀ {o : BoundExpr}, o = lhs ∨ o = rhs → ∀ e i j, o.Rel e.other j i ↔ o.Rel e i j := by
    rintro o (rfl | rfl)
    · exact hl
    · exact hr
  have hhops := near_far_eq lhs rhs (rows.pick x y).name
  -- The hops change places, and each of them is read from its other end.
  have hn' : (near lhs rhs (rows.other.pick x y).name).Leads fe.other (rows.other.pick x y).name
      q.name := by
    rw [hnear]
    exact hf.other
  have hf' : (far lhs rhs (rows.other.pick x y).name).Leads ne.other q.name
      (rows.other.other.pick x y).name := by
    rw [hfar, End.other_other]
    exact hn.other
  rw [rel_and_iff h hn' hf', rel_and_iff h hn hf, hnear, hfar]
  refine exists_congr fun k => ?_
  rw [hhop (hhops.imp And.left And.left), hhop (hhops.imp And.right And.right).symm, and_comm]

/-- Read from its other end, an expression that fits its sets and broadcasts nowhere has the
converse relation. -/
theorem rel_other_iff (hU : RegularSets sizes U) {z : BoundExpr} (hz : z.WellFormed)
    (hzU : ∀ v ∈ z.vars, U v.set) (htyped : z.WellTyped) (hfree : z.BroadcastFree)
    (hneg : z.Negatable) (rows : End) (i j : Nat) : z.Rel rows.other j i ↔ z.Rel rows i j := by
  induction z generalizing rows i j with
  | link kind source sink =>
    have hsource := hzU source (by simp [vars])
    have hsink := hzU sink (by simp [vars])
    exact LinkKind.rel_other_iff (hU.regular _ hsource) (hU.distinct _ _ hsource hsink) htyped hneg
      rows
  | formula c x y q lhs rhs ihl ihr =>
    have hl := ihl hz.2.1 (fun v hv => hzU v (mem_vars_of_lhs hv)) htyped.1 hfree.2.1 hneg.1
    have hr := ihr hz.2.2 (fun v hv => hzU v (mem_vars_of_rhs hv)) htyped.2 hfree.2.2 hneg.2
    cases q with
    | none => exact rel_other_plain_iff hz rows (fun e => hl e i j) fun e => hr e i j
    | some q =>
      cases c with
      | and => exact rel_other_and_iff hz rows hl hr
      | or => exact absurd (hfree.1 rfl) (Option.some_ne_none q)

end PathTree

/-! ## Indices -/

namespace Builder

variable {m : Mesh} {b b' : Builder} {z : BoundExpr}

/-- A coherent expression that broadcasts nowhere is built from one end exactly if it is built from
the other. If the components of its stencils can be negated, the two indices are converse to each
other. -/
theorem build_converse (hm : m.Reached) (hb : b.Serves m) (hb' : b'.Serves m) (hz : m.Carries z)
    (hc : z.toOpen.Coherent) (hfree : z.BroadcastFree) :
    ((∃ built, (b.build z.toOpen 0).1 = .ok built) ↔
        ∃ built, (b'.build z.toOpen 1).1 = .ok built) ∧
      (z.Negatable → ∀ built built', (b.build z.toOpen 0).1 = .ok built →
        (b'.build z.toOpen 1).1 = .ok built' →
          ∀ i j, j ∈ built.index.row i ↔ i ∈ built'.index.row j) := by
  have hfirst := exists_build_iff hm hb hz .first
  have hsecond := exists_build_iff hm hb' hz .second
  refine ⟨hfirst.trans hsecond.symm, fun hneg built built' hok hok' i j => ?_⟩
  have htyped : z.WellTyped := hfirst.1 ⟨built, hok⟩
  have hrealizes : built.index.Realizes _ (z.Rel .first) := realizes_of_build hm hb hz hc hok
  have hrealizes' : built'.index.Realizes _ (z.Rel .second) := realizes_of_build hm hb' hz hc hok'
  rw [hrealizes.mem_row_iff, hrealizes'.mem_row_iff]
  exact (rel_other_iff (Mesh.regularSets_of_reached hm) hz.wellFormed hz.regular htyped hfree hneg
    .first i j).symm

/-- Two steps forth around the ring from one end are two steps back from the other. -/
theorem build_converse_ringPath :
    let z := Mesh.ringPath Mesh.forth Mesh.forth
    ∃ built built', ((new .standard : Builder).build z.toOpen 0).1 = .ok built ∧
      ((new .standard : Builder).build z.toOpen 1).1 = .ok built' ∧
        ∀ i j, j ∈ built.index.row i ↔ i ∈ built'.index.row j := by
  intro z
  have hz : Mesh.ringMesh.Carries z := Mesh.carries_ringPath Mesh.forth Mesh.forth
  have htyped : z.WellTyped := Mesh.wellTyped_ringPath rfl rfl
  have hfree : z.BroadcastFree := ⟨by decide, trivial, trivial⟩
  have hforth : Mesh.forth.Negatable := by decide
  obtain ⟨hiff, hconverse⟩ :=
    build_converse Mesh.reached_ringMesh serves_ringMesh serves_ringMesh hz (by decide) hfree
  obtain ⟨built, hok⟩ := (exists_build_iff Mesh.reached_ringMesh serves_ringMesh hz .first).2 htyped
  obtain ⟨built', hok'⟩ := hiff.1 ⟨built, hok⟩
  exact ⟨built, built', hok, hok', hconverse ⟨hforth, hforth⟩ built built' hok hok'⟩

end Builder

end MeshPath
