import MeshPath.Proofs.Build.Hop
import MeshPath.Proofs.Build.Transparent
import MeshPath.Proofs.Mesh.Reached

/-!
# Builds realize relations

Over the sets of a mesh, the index of a coherent expression has the rows of its relation.

* `rel_plain_iff`, `rel_and_iff`, `rel_or_iff`: the relation of a formula in terms of the operands
  in the order in which they are realized.
* `realized_of_wellTyped`, `exists_eval_error`: the evaluation of an expression succeeds exactly if
  all its links fit their sets, and then gives an index of the relation.
* `build_realizes`: the statement for builders and meshes that the operations give.
-/

namespace MeshPath

open PathTree Success

namespace PathTree

variable {c : Connective} {x y q : BoundVar} {lhs rhs : BoundExpr} {rows le re : End} {i j : Nat}

/-! ## Relations of formulas -/

/-- An operand that leads from a name to another one is read from the end of the first. -/
theorem readFrom_iff {z : BoundExpr} {R : End → Nat → Nat → Prop} {e : End} {a b : String}
    (h : z.Leads e a b) (hne : a ≠ b) : ReadFrom z R a i j ↔ R e i j := by
  rw [ReadFrom, h.endNamed?_eq_some hne]
  simp

/-- An operand is not read from a name that none of its ends has. -/
theorem not_readFrom {z : BoundExpr} {R : End → Nat → Nat → Prop} {e : End} {a b n : String}
    (h : z.Leads e a b) (ha : n ≠ a) (hb : n ≠ b) : ¬ ReadFrom z R n i j := by
  rw [ReadFrom, h.endNamed?_eq_none ha hb]
  simp

/-- The relation of a formula without a quantified variable, by the ends its operands are read from.
-/
theorem rel_plain_iff (h : WellFormed (formula c x y none lhs rhs))
    (hl : lhs.Leads le (rows.pick x y).name (rows.other.pick x y).name)
    (hr : rhs.Leads re (rows.pick x y).name (rows.other.pick x y).name) :
    (formula c x y none lhs rhs).Rel rows i j ↔ c.Holds (lhs.Rel le i j) (rhs.Rel re i j) := by
  have hne := source_ne_sink h rows
  rw [Rel, readFrom_iff hl hne, readFrom_iff hr hne]

/-- A statement about the operands in one order or the other is one about the two hops, if it can
only hold with the first hop first. -/
theorem or_iff_near_far {F : BoundExpr → BoundExpr → Prop} {source : String}
    (hnot : ¬ F (far lhs rhs source) (near lhs rhs source)) :
    F lhs rhs ∨ F rhs lhs ↔ F (near lhs rhs source) (far lhs rhs source) := by
  rcases near_far_eq lhs rhs source with ⟨hn, hf⟩ | ⟨hn, hf⟩
  · rw [hn, hf] at hnot ⊢
    exact or_iff_left hnot
  · rw [hn, hf] at hnot ⊢
    exact or_iff_right hnot

/-- The second hop leads from the quantified variable to the sink, so that the source is at neither
of its ends. -/
theorem not_readFrom_far (h : WellFormed (formula c x y (some q) lhs rhs)) {fe : End}
    (hf : (far lhs rhs (rows.pick x y).name).Leads fe q.name (rows.other.pick x y).name)
    {R : End → Nat → Nat → Prop} :
    ¬ ReadFrom (far lhs rhs (rows.pick x y).name) R (rows.pick x y).name i j :=
  not_readFrom hf (quantified_ne h rows).symm (source_ne_sink h rows)

/-- The relation of a quantified conjunction is the composition of its two hops. -/
theorem rel_and_iff (h : WellFormed (formula .and x y (some q) lhs rhs)) {ne fe : End}
    (hn : (near lhs rhs (rows.pick x y).name).Leads ne (rows.pick x y).name q.name)
    (hf : (far lhs rhs (rows.pick x y).name).Leads fe q.name (rows.other.pick x y).name) :
    (formula .and x y (some q) lhs rhs).Rel rows i j ↔
      ∃ k, (near lhs rhs (rows.pick x y).name).Rel ne i k ∧
        (far lhs rhs (rows.pick x y).name).Rel fe k j := by
  rw [Rel]
  refine exists_congr fun k => ?_
  rw [or_iff_near_far (F := fun l r => ReadFrom l l.Rel (rows.pick x y).name i k ∧
      ReadFrom r r.Rel q.name k j) fun hback => not_readFrom_far h hf hback.1,
    readFrom_iff hn (quantified_ne h rows).symm, readFrom_iff hf (quantified_ne h rows.other)]

/-- The relation of a quantified disjunction leads from wherever its first hop leads anywhere to the
whole set of the sink. -/
theorem rel_or_iff (h : WellFormed (formula .or x y (some q) lhs rhs)) {ne fe : End}
    (hn : (near lhs rhs (rows.pick x y).name).Leads ne (rows.pick x y).name q.name)
    (hf : (far lhs rhs (rows.pick x y).name).Leads fe q.name (rows.other.pick x y).name) :
    (formula .or x y (some q) lhs rhs).Rel rows i j ↔
      (∃ k, (near lhs rhs (rows.pick x y).name).Rel ne i k) ∧
        j < (rows.other.pick x y).set.size := by
  rw [Rel]
  -- The second hop is evaluated, but what it relates does not count.
  refine and_congr_left' (exists_congr fun k => ?_)
  rw [or_iff_near_far (F := fun l _ => ReadFrom l l.Rel (rows.pick x y).name i k)
      (not_readFrom_far h hf), readFrom_iff hn (quantified_ne h rows).symm]

/-! ## Evaluation -/

/-- The sets `U` are told apart by their identities, and each of them is regular. -/
structure RegularSets (sizes : SetId → Nat) (U : SetView → Prop) : Prop where
  distinct : Distinct U
  regular : ∀ s, U s → s.Regular sizes

variable {sizes : SetId → Nat} {U : SetView → Prop}

/-- If one of two evaluations fails, so do both of them one after the other. -/
theorem exists_error_of_operands {options : BuildOptions} {l r : BoundExpr} {le re : End}
    (f : PathIndex → PathIndex → Except Failure PathIndex)
    (h : (∃ e, l.eval options le = .error e) ∨ ∃ e, r.eval options re = .error e) :
    ∃ e, (do
      let i ← l.eval options le
      let j ← r.eval options re
      f i j : Except Failure PathIndex) = .error e := by
  rcases h with ⟨e, he⟩ | ⟨e, he⟩
  · exact ⟨e, by rw [he]; rfl⟩
  · -- The first evaluation may fail before the second one is reached.
    rcases l.eval options le with e' | i
    · exact ⟨e', rfl⟩
    · exact ⟨e, by rw [he]; rfl⟩

/-- The evaluation of an expression that does not fit its sets fails. -/
theorem exists_eval_error (options : BuildOptions) (hU : Distinct U) {z : BoundExpr}
    (hz : z.WellFormed) (hzU : ∀ v ∈ z.vars, U v.set) (htyped : ¬ z.WellTyped) (rows : End) :
    ∃ e, z.eval options rows = .error e := by
  induction z generalizing rows with
  | link kind source sink =>
    exact Link.exists_realize_error options
      (hU _ _ (hzU source (by simp [vars])) (hzU sink (by simp [vars]))) htyped rows
  | formula c x y q lhs rhs ihl ihr =>
    have hl := ihl hz.2.1 fun v hv => hzU v (mem_vars_of_lhs hv)
    have hr := ihr hz.2.2 fun v hv => hzU v (mem_vars_of_rhs hv)
    obtain ⟨l, r, le, re, f, hsides, -, heval⟩ := exists_operands options hz rows
    rw [heval]
    -- An operand does not fit its sets, and fails from whichever end it is read.
    have hill : ¬ lhs.WellTyped ∨ ¬ rhs.WellTyped := Classical.not_and_iff_not_or_not.1 htyped
    rcases hsides with ⟨rfl, rfl⟩ | ⟨rfl, rfl⟩
    · exact exists_error_of_operands f (hill.imp (fun h => hl h le) fun h => hr h re)
    · exact exists_error_of_operands f (hill.symm.imp (fun h => hr h le) fun h => hl h re)

/-- In a coherent expression, an operand has the set of the formula at an end that they share. -/
theorem set_eq_of_coherent {q : Option BoundVar} (hU : Distinct U)
    (hzU : ∀ v ∈ (formula c x y q lhs rhs).vars, U v.set)
    (hc : (formula c x y q lhs rhs).CoherentBy keyId) {v : BoundVar}
    (hv : v ∈ x :: y :: q.toList) {o : BoundExpr} (ho : o = lhs ∨ o = rhs) {e : End}
    (hname : o.endName e = v.name) : (o.endpoint e).set = v.set := by
  have hvU : U v.set := hzU v (List.mem_append_left (lhs.vars ++ rhs.vars) hv)
  -- The identities are the same, and they tell the sets of `U` apart.
  obtain ⟨hl, hr⟩ := hc.1 v hv e
  rcases ho with rfl | rfl
  · have hoU : U (o.endpoint e).set := hzU _ (by simp [vars, endpoint_mem_vars])
    exact hU _ _ hoU hvU (Option.some.inj (hl hname))
  · have hoU : U (o.endpoint e).set := hzU _ (by simp [vars, endpoint_mem_vars])
    exact hU _ _ hoU hvU (Option.some.inj (hr hname))

/-- Read from either end, the expression evaluates to an index of its relation. -/
def Realized (options : BuildOptions) (z : BoundExpr) : Prop :=
  ∀ rows, ∃ index, z.eval options rows = .ok index ∧
    index.Realizes (z.endpoint rows).set.size (z.Rel rows)

theorem small_of_regularSets (hU : RegularSets sizes U) {z : BoundExpr}
    (hzU : ∀ v ∈ z.vars, U v.set) (e : End) : (z.endpoint e).set.size < Word.span32 :=
  (hU.regular _ (hzU _ (endpoint_mem_vars z e))).small

section Formula

variable {options : BuildOptions} (hU : RegularSets sizes U) (hl : lhs.Realized options)
  (hr : rhs.Realized options)
include hU hl hr

/-- A formula without a quantified variable has the index of its relation, if its operands do. -/
theorem realized_plain (hz : WellFormed (formula c x y none lhs rhs))
    (hzU : ∀ v ∈ (formula c x y none lhs rhs).vars, U v.set)
    (hc : (formula c x y none lhs rhs).CoherentBy keyId) :
    (formula c x y none lhs rhs).Realized options := by
  intro rows
  obtain ⟨le, re, hlend, hrend, hle, hre⟩ := operandEnds_plain hz rows
  obtain ⟨l, hleval, hlr⟩ := hl le
  obtain ⟨r, hreval, hrr⟩ := hr re
  -- Both operands have the set of the source at the ends from which they are read.
  have hsource : rows.pick x y ∈ [x, y] := by cases rows <;> simp [End.pick]
  rw [set_eq_of_coherent hU.distinct hzU hc hsource (.inl rfl) hlend.1] at hlr
  rw [set_eq_of_coherent hU.distinct hzU hc hsource (.inr rfl) hrend.1] at hrr
  have hsmall : (rows.pick x y).set.size < Word.span32 := small_of_regularSets hU hzU rows
  refine ⟨Formula.combine c l r, ?_, ?_⟩
  · rw [eval_combine hle hre, hleval, hreval]
    rfl
  · exact (Formula.realizes_combine c hlr hrr hsmall).congr fun i j =>
      (rel_plain_iff hz hlend hrend).symm

/-- So has a quantified formula: its hops meet in the set of the quantified variable. -/
theorem realized_quantified (hz : WellFormed (formula c x y (some q) lhs rhs))
    (hzU : ∀ v ∈ (formula c x y (some q) lhs rhs).vars, U v.set)
    (hc : (formula c x y (some q) lhs rhs).CoherentBy keyId) :
    (formula c x y (some q) lhs rhs).Realized options := by
  intro rows
  obtain ⟨ne, fe, hnend, hfend, hne, hfe⟩ := operandEnds_quantified hz rows
  have hoperand : ∀ {o : BoundExpr}, o = lhs ∨ o = rhs → o.Realized options := by
    rintro o (rfl | rfl)
    · exact hl
    · exact hr
  have hhops := near_far_eq lhs rhs (rows.pick x y).name
  have hnear := hhops.imp And.left And.left
  obtain ⟨n, hneval, hnr⟩ := hoperand hnear ne
  obtain ⟨f, hfeval, hfr⟩ := hoperand (hhops.imp And.right And.right).symm fe
  -- Only the first hop starts from the source, so only its rows are counted by that set.
  have hsource : rows.pick x y ∈ [x, y, q] := by cases rows <;> simp [End.pick]
  rw [set_eq_of_coherent hU.distinct hzU hc hsource hnear hnend.1] at hnr
  have hsmall : (rows.pick x y).set.size < Word.span32 := small_of_regularSets hU hzU rows
  refine ⟨Formula.eliminate c n f (rows.other.pick x y).set, ?_, ?_⟩
  · rw [eval_eliminate hne hfe, hneval, hfeval]
    rfl
  · cases c with
    | and =>
      exact (Formula.realizes_join hnr hfr hsmall).congr fun i j =>
        (rel_and_iff hz hnend hfend).symm
    | or =>
      have hsink : (rows.other.pick x y).set.size < Word.span32 :=
        small_of_regularSets hU hzU rows.other
      rw [Formula.eliminate, Word.low32_eq_self hsink]
      exact (Formula.realizes_broadcast hnr hsmall _).congr fun i j =>
        (rel_or_iff hz hnend hfend).symm

end Formula

/-- The evaluation of a coherent expression that fits its sets gives an index of its relation. -/
theorem realized_of_wellTyped (options : BuildOptions) (hU : RegularSets sizes U) {z : BoundExpr}
    (hz : z.WellFormed) (hzU : ∀ v ∈ z.vars, U v.set) (hc : z.CoherentBy keyId)
    (htyped : z.WellTyped) : z.Realized options := by
  -- By induction over the expression, for both ends at once: the operands of a formula are read
  -- from whichever of their ends is named.
  induction z with
  | link kind source sink =>
    intro rows
    have hsource := hzU source (by simp [vars])
    have hsink := hzU sink (by simp [vars])
    obtain ⟨index, hindex, hrealizes⟩ := Link.exists_realize options (hU.regular _ hsource)
      (hU.regular _ hsink) (hU.distinct _ _ hsource hsink) htyped rows
    refine ⟨index, hindex, ?_⟩
    cases rows <;> exact hrealizes
  | formula c x y q lhs rhs ihl ihr =>
    have hl := ihl hz.2.1 (fun v hv => hzU v (mem_vars_of_lhs hv)) hc.2.1 htyped.1
    have hr := ihr hz.2.2 (fun v hv => hzU v (mem_vars_of_rhs hv)) hc.2.2 htyped.2
    cases q with
    | none => exact realized_plain hU hl hr hz hzU hc
    | some q => exact realized_quantified hU hl hr hz hzU hc

end PathTree

namespace Mesh

/-- The sets of the mesh. -/
def Holds (m : Mesh) (set : SetView) : Prop := ∃ s ∈ m.sets, s.toSetView = set

/-- The sets of a mesh that can be reached are told apart by their identities. -/
theorem distinct_holds {m : Mesh} (hm : m.Reached) : Distinct m.Holds := by
  rintro _ _ ⟨s, hs, rfl⟩ ⟨t, ht, rfl⟩ hid
  rw [(consistent_of_reached hm).distinct hs ht hid]

/-- The sets of a mesh whose elements fit stored numbers are regular. -/
theorem regularSets_of_reached {m : Mesh} (hm : m.Reached) :
    RegularSets m.sizes fun set => m.Holds set ∧ set.size < Word.span32 := by
  have hconsistent := consistent_of_reached hm
  refine ⟨fun s t hs ht => distinct_holds hm s t hs.1 ht.1, ?_⟩
  rintro _ ⟨⟨s, hs, rfl⟩, hsmall⟩
  exact ⟨hconsistent.filled hs, sizes_of_mem hconsistent hs, hsmall⟩

end Mesh

namespace Builder

/-- An expression that is bound from a table is coherent. Over the sets of a mesh, a coherent
expression is built exactly if all its links fit their sets, whatever has been asked of the builder
before. The index then has the elements of the set at the source of the rows, and its rows are
those of the relation of the expression. -/
theorem build_realizes {m : Mesh} (hm : m.Reached) {U : SetView → Prop} (hU : Distinct U)
    (hmU : ∀ set, m.Holds set → U set) {options : BuildOptions} {b : Builder}
    (hb : Runs U (new options) b) {x : OpenExpr} (hx : x.Constructible)
    (hc : x.isBound = true → x.Coherent) {z : BoundExpr} (hform : b.boundForm x = .ok z)
    (hz : ∀ v ∈ z.vars, m.Holds v.set) (hsmall : ∀ v ∈ z.vars, v.set.size < Word.span32)
    {ordinal : Nat} {rows : End} (hrows : End.ofNat? ordinal = some rows) :
    (∀ table y, x.bind table = .ok y → y.Coherent) ∧
      ((∃ built, (b.build x ordinal).1 = .ok built) ↔ z.WellTyped) ∧
      ∀ built, (b.build x ordinal).1 = .ok built →
        built.index.Realizes (z.endpoint rows).set.size (z.Rel rows) := by
  have hwf := wellFormed_of_boundForm (constructible_iff_wellFormed.1 hx) hform
  have hsets := Mesh.regularSets_of_reached hm
  have hzU : ∀ v ∈ z.vars, m.Holds v.set ∧ v.set.size < Word.span32 := fun v hv =>
    ⟨hz v hv, hsmall v hv⟩
  -- The bound form is coherent, by assumption if the expression is bound and else by the table.
  have hcoherent : z.CoherentBy keyId := by
    have hopen : z.toOpen.Coherent := by
      rcases boundForm_eq_ok_iff.1 hform with rfl | ⟨-, hbind⟩
      · exact hc (isBound_iff.2 ⟨z, rfl⟩)
      · exact coherent_of_bind hbind
    exact coherentBy_toOpen.1 hopen
  -- Whatever the memo holds, the outcome is that of the evaluation.
  have hbuild := build_eq_eval hU (sound_of_runs hU hb) hwf (fun v hv => hmU _ (hz v hv)) hrows
    hform
  have htyped : ∀ built, (b.build x ordinal).1 = .ok built → z.WellTyped := by
    intro built hok
    refine Classical.byContradiction fun hill => ?_
    obtain ⟨e, he⟩ := exists_eval_error b.options hsets.distinct hwf hzU hill rows
    rw [hok, he] at hbuild
    cases hbuild
  refine ⟨fun table y => coherent_of_bind, ⟨fun ⟨built, hok⟩ => htyped built hok, ?_⟩, ?_⟩
  · intro hlinks
    obtain ⟨index, hindex, -⟩ := realized_of_wellTyped b.options hsets hwf hzU hcoherent hlinks rows
    rw [hindex] at hbuild
    obtain ⟨built, hok, -⟩ := map_eq_ok hbuild
    exact ⟨built, hok⟩
  · intro built hok
    obtain ⟨index, hindex, hrealizes⟩ :=
      realized_of_wellTyped b.options hsets hwf hzU hcoherent (htyped built hok) rows
    rw [hok, hindex] at hbuild
    cases hbuild
    exact hrealizes

/-- Two vertices and an edge, with the index from one end realized after that from the other. -/
theorem build_realizes_sharedEdge :
    ∃ built, (((new .standard : Builder).build sharedEdge.toOpen 1).2.build sharedEdge.toOpen 0).1 =
      .ok built ∧ built.index.Realizes 2 (sharedEdge.Rel .first) := by
  let v : MeshSet := .vertexSet ⟨1⟩ "V"
  let v₁ : MeshSet := (v.push []).2
  let v₂ : MeshSet := (v₁.push []).2
  let e : MeshSet := .edgeSet ⟨2⟩ "E" [v₂, v₂]
  let e₁ : MeshSet := (e.push [0, 1]).2
  let m : Mesh := ⟨[v₂, e₁], 2⟩
  -- Two vertices are added, then an edge set over them, and one edge from one to the other.
  have hm : m.Reached := by
    have hv : Mesh.Step .empty ⟨[v], 1⟩ := .vertexSet _ "V"
    have hv₁ : Mesh.Step ⟨[v], 1⟩ (Mesh.put ⟨[v], 1⟩ v₁) := .add (List.mem_singleton_self v) rfl
    have hv₂ : Mesh.Step ⟨[v₁], 1⟩ (Mesh.put ⟨[v₁], 1⟩ v₂) := .add (List.mem_singleton_self v₁) rfl
    have he : Mesh.Step ⟨[v₂], 1⟩ ⟨[v₂, e], 2⟩ :=
      @Mesh.Step.edgeSet ⟨[v₂], 1⟩ "E" [v₂, v₂] (by simp)
    have howned : ∀ r ∈ [(⟨⟨1⟩, 0⟩ : ElementRef), ⟨⟨1⟩, 1⟩],
        ∃ t ∈ [v₂, e], t.id = r.set ∧ r.ident < t.size := by decide
    have hmem : e ∈ [v₂, e] := List.mem_cons_of_mem v₂ (List.mem_singleton_self e)
    have he₁ : Mesh.Step ⟨[v₂, e], 2⟩ (Mesh.put ⟨[v₂, e], 2⟩ e₁) := .addEdge hmem howned rfl
    exact ((((Mesh.Reached.empty.step hv).step hv₁).step hv₂).step he).step he₁
  have hsmall : ∀ w ∈ sharedEdge.vars, w.set.size < Word.span32 := by decide
  have hholds : ∀ w ∈ sharedEdge.vars, m.Holds w.set := by
    unfold Mesh.Holds
    decide
  have hx : sharedEdge.toOpen.Constructible := constructible_iff_wellFormed.2 (by decide)
  have hU : Distinct m.Holds := Mesh.distinct_holds hm
  have hruns : Runs m.Holds (new .standard)
      ((new .standard : Builder).build sharedEdge.toOpen 1).2 :=
    Runs.refl.step (.build _ 1 hx (over_toOpen.2 hholds))
  have hrows : End.ofNat? 0 = some .first := rfl
  obtain ⟨-, hiff, hrealizes⟩ := build_realizes hm hU (fun _ h => h) hruns hx
    (fun _ => by decide) (boundForm_toOpen _ sharedEdge) hholds hsmall hrows
  obtain ⟨built, hok⟩ := hiff.2 ⟨⟨0, rfl⟩, ⟨0, rfl⟩⟩
  exact ⟨built, hok, hrealizes built hok⟩

end Builder

end MeshPath
