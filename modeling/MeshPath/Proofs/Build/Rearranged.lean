import MeshPath.Proofs.Build.Outcome
import Mathlib.Data.List.Sort
import Mathlib.Logic.Relation

/-!
# Rearranged formulas

The order of the operands of a formula and of its free variables does not count.

* `PathTree.Rearranges`, `PathTree.Rearranged`: one exchange at any depth, and any number of them.
* `PathTree.Interchangeable`: one expression can stand where the other one does. It has the same
  ends, it fits its sets if the other one does, and read from an end of the same name it has the
  same relation. `interchangeable_of_rearranged`: rearranged expressions are interchangeable.
* `pairwise_row_eval`: the rows of a formula are strictly ascending, so that they are determined by
  their members.
* `build_rearranged`: rearranged formulas have the same rows.
-/

namespace MeshPath

namespace PathTree

/-! ## Exchanges -/

/-- The operands or the free variables of one formula of an expression are exchanged. -/
inductive Rearranges {V : Type} : PathTree V → PathTree V → Prop
  | operands (c : Connective) (x y : V) (q : Option V) (lhs rhs : PathTree V) :
      Rearranges (formula c x y q lhs rhs) (formula c x y q rhs lhs)
  | ends (c : Connective) (x y : V) (q : Option V) (lhs rhs : PathTree V) :
      Rearranges (formula c x y q lhs rhs) (formula c y x q lhs rhs)
  | inLhs {c : Connective} {x y : V} {q : Option V} {lhs lhs' rhs : PathTree V} :
      Rearranges lhs lhs' → Rearranges (formula c x y q lhs rhs) (formula c x y q lhs' rhs)
  | inRhs {c : Connective} {x y : V} {q : Option V} {lhs rhs rhs' : PathTree V} :
      Rearranges rhs rhs' → Rearranges (formula c x y q lhs rhs) (formula c x y q lhs rhs')

/-- Any number of exchanges. -/
def Rearranged {V : Type} : PathTree V → PathTree V → Prop := Relation.ReflTransGen Rearranges

variable {c : Connective} {a b : BoundVar} {q : Option BoundVar} {x y z lhs lhs' rhs : BoundExpr}

/-- Both expressions have the same variables at their ends, in the same or the opposite order. -/
def SameEnds (x y : BoundExpr) : Prop :=
  (∀ e, y.endpoint e = x.endpoint e) ∨ ∀ e, y.endpoint e = x.endpoint e.other

/-- Each end of one expression is an end of the other. -/
theorem SameEnds.exists_endpoint_eq (h : SameEnds x y) (e : End) :
    ∃ e', y.endpoint e = x.endpoint e' := by
  rcases h with h | h
  · exact ⟨e, h e⟩
  · exact ⟨e.other, h e⟩

theorem SameEnds.trans (h : SameEnds x y) (h' : SameEnds y z) : SameEnds x z := by
  rcases h with h | h <;> rcases h' with h' | h'
  · exact .inl fun e => (h' e).trans (h e)
  · exact .inr fun e => (h' e).trans (h e.other)
  · exact .inr fun e => (h' e).trans (h e)
  · refine .inl fun e => (h' e).trans ?_
    rw [h, End.other_other]

/-- Expressions with the same ends lead between the same names. -/
theorem SameEnds.exists_leads (h : SameEnds x y) {n n' : String} (hx : ∃ e, x.Leads e n n') :
    ∃ e, y.Leads e n n' := by
  obtain ⟨e, hn, hn'⟩ := hx
  rcases h with h | h
  · exact ⟨e, by rw [endName, h]; exact hn, by rw [endName, h]; exact hn'⟩
  · refine ⟨e.other, ?_, ?_⟩
    · rw [endName, h, End.other_other]
      exact hn
    · rw [endName, h, End.other_other]
      exact hn'

/-- In place of `x`, an expression may have `y`. -/
structure Interchangeable (x y : BoundExpr) : Prop where
  sameEnds : SameEnds x y
  connective?_eq : y.connective? = x.connective?
  mem_vars_iff : ∀ v, v ∈ y.vars ↔ v ∈ x.vars
  wellTyped_iff : y.WellTyped ↔ x.WellTyped
  wellFormed : x.WellFormed → y.WellFormed
  coherent : x.CoherentBy keyId → y.CoherentBy keyId
  readFrom_iff : x.WellFormed → ∀ name i j, ReadFrom y y.Rel name i j ↔ ReadFrom x x.Rel name i j

namespace Interchangeable

theorem refl (x : BoundExpr) : Interchangeable x x where
  sameEnds := .inl fun _ => rfl
  connective?_eq := rfl
  mem_vars_iff _ := Iff.rfl
  wellTyped_iff := Iff.rfl
  wellFormed h := h
  coherent h := h
  readFrom_iff _ _ _ _ := Iff.rfl

theorem trans (h : Interchangeable x y) (h' : Interchangeable y z) : Interchangeable x z where
  sameEnds := h.sameEnds.trans h'.sameEnds
  connective?_eq := h'.connective?_eq.trans h.connective?_eq
  mem_vars_iff v := (h'.mem_vars_iff v).trans (h.mem_vars_iff v)
  wellTyped_iff := h'.wellTyped_iff.trans h.wellTyped_iff
  wellFormed hx := h'.wellFormed (h.wellFormed hx)
  coherent hx := h'.coherent (h.coherent hx)
  readFrom_iff hx name i j :=
    (h'.readFrom_iff (h.wellFormed hx) name i j).trans (h.readFrom_iff hx name i j)

end Interchangeable

/-- Expressions with the same ends are read from the same end. -/
theorem readFrom_congr (hends : ∀ e, y.endpoint e = x.endpoint e)
    (hrel : ∀ e i j, y.Rel e i j ↔ x.Rel e i j) (name : String) (i j : Nat) :
    ReadFrom y y.Rel name i j ↔ ReadFrom x x.Rel name i j := by
  have hnames : ∀ e, y.endName e = x.endName e := fun e => congrArg Var.name (hends e)
  have hnamed : y.endNamed? name = x.endNamed? name := by
    simp only [endNamed?, hnames]
  simp only [ReadFrom, hnamed, hrel]

/-! ### Exchanged operands -/

/-- The operands of a formula can be exchanged. -/
theorem wellFormed_operands (h : WellFormed (formula c a b q lhs rhs)) :
    WellFormed (formula c a b q rhs lhs) := by
  cases q with
  | none =>
    obtain ⟨⟨hab, hl, hr⟩, hlhs, hrhs⟩ := wellFormed_plain_iff.1 h
    exact wellFormed_plain_iff.2 ⟨⟨hab, hr, hl⟩, hrhs, hlhs⟩
  | some q =>
    obtain ⟨⟨hab, hqa, hqb, hops⟩, hlhs, hrhs⟩ := wellFormed_quantified_iff.1 h
    exact wellFormed_quantified_iff.2
      ⟨⟨hab, hqa, hqb, hops.symm.imp And.symm And.symm⟩, hrhs, hlhs⟩

/-- The relation of a formula names no operand before the other. -/
theorem rel_operands_iff (e : End) (i j : Nat) :
    (formula c a b q rhs lhs).Rel e i j ↔ (formula c a b q lhs rhs).Rel e i j := by
  cases q with
  | none =>
    rw [Rel, Rel]
    cases c with
    | and => exact and_comm
    | or => exact or_comm
  | some q =>
    cases c with
    | and => exact exists_congr fun k => or_comm
    | or => exact and_congr_left' (exists_congr fun k => or_comm)

/-- The operands of a formula may change places. -/
theorem Interchangeable.operands (c : Connective) (a b : BoundVar) (q : Option BoundVar)
    (lhs rhs : BoundExpr) :
    Interchangeable (formula c a b q lhs rhs) (formula c a b q rhs lhs) where
  sameEnds := .inl fun _ => rfl
  connective?_eq := rfl
  mem_vars_iff v := by
    simp only [vars, List.mem_cons, List.mem_append, or_comm (a := v ∈ lhs.vars)]
  wellTyped_iff := and_comm
  wellFormed h := wellFormed_operands h
  coherent h := ⟨fun v hv e => (h.1 v hv e).symm, h.2.2, h.2.1⟩
  readFrom_iff _ := readFrom_congr (fun _ => rfl) rel_operands_iff

/-! ### Exchanged ends -/

/-- The ends of a formula can be exchanged. -/
theorem wellFormed_ends (h : WellFormed (formula c a b q lhs rhs)) :
    WellFormed (formula c b a q lhs rhs) := by
  cases q with
  | none =>
    obtain ⟨⟨hab, ⟨le, hl⟩, ⟨re, hr⟩⟩, hlhs, hrhs⟩ := wellFormed_plain_iff.1 h
    exact wellFormed_plain_iff.2
      ⟨⟨hab.symm, ⟨le.other, hl.other⟩, ⟨re.other, hr.other⟩⟩, hlhs, hrhs⟩
  | some q =>
    obtain ⟨⟨hab, hqa, hqb, hops⟩, hlhs, hrhs⟩ := wellFormed_quantified_iff.1 h
    exact wellFormed_quantified_iff.2 ⟨⟨hab.symm, hqb, hqa, hops.symm⟩, hlhs, hrhs⟩

/-- Exchanged ends are read as the other ones. -/
theorem rel_ends_iff (e : End) (i j : Nat) :
    (formula c b a q lhs rhs).Rel e.other i j ↔ (formula c a b q lhs rhs).Rel e i j := by
  cases q <;> cases c <;> cases e <;> exact Iff.rfl

/-- An end that is exchanged is found at the other place. -/
theorem endNamed?_ends (h : WellFormed (formula c a b q lhs rhs)) (name : String) :
    (formula c b a q lhs rhs).endNamed? name =
      ((formula c a b q lhs rhs).endNamed? name).map End.other := by
  have hab : a.name ≠ b.name := source_ne_sink h .first
  show (if b.name = name then some End.first else if a.name = name then some End.second else none) =
    (if a.name = name then some End.first else if b.name = name then some End.second
      else none).map End.other
  by_cases ha : a.name = name
  · have hb : b.name ≠ name := fun hb => hab (ha.trans hb.symm)
    simp [ha, hb, End.other]
  · by_cases hb : b.name = name
    · simp [ha, hb, End.other]
    · simp [ha, hb]

/-- The free variables of a formula may change places. -/
theorem Interchangeable.ends (c : Connective) (a b : BoundVar) (q : Option BoundVar)
    (lhs rhs : BoundExpr) :
    Interchangeable (formula c a b q lhs rhs) (formula c b a q lhs rhs) where
  sameEnds := .inr fun e => by cases e <;> rfl
  connective?_eq := rfl
  mem_vars_iff v := by
    simp only [vars, List.mem_cons, or_left_comm (a := v = a)]
  wellTyped_iff := Iff.rfl
  wellFormed h := wellFormed_ends h
  coherent h := by
    refine ⟨fun v hv => h.1 v ?_, h.2⟩
    simpa only [List.mem_cons, or_left_comm (a := v = b)] using hv
  readFrom_iff h name i j := by
    -- The end of a name is the opposite one, and so is the end from which it is read.
    simp only [ReadFrom, endNamed?_ends h, Option.map_eq_some_iff]
    constructor
    · rintro ⟨_, ⟨e, he, rfl⟩, hij⟩
      exact ⟨e, he, (rel_ends_iff e i j).1 hij⟩
    · rintro ⟨e, he, hij⟩
      exact ⟨e.other, ⟨e, he, rfl⟩, (rel_ends_iff e i j).2 hij⟩

/-! ### Exchanges inside an operand -/

/-- The check of a formula looks at the names at the ends of its operands only. -/
theorem wellFormed_inLhs (hends : SameEnds lhs lhs') (hlhs' : lhs.WellFormed → lhs'.WellFormed)
    (h : WellFormed (formula c a b q lhs rhs)) : WellFormed (formula c a b q lhs' rhs) := by
  cases q with
  | none =>
    obtain ⟨⟨hab, hl, hr⟩, hlhs, hrhs⟩ := wellFormed_plain_iff.1 h
    exact wellFormed_plain_iff.2 ⟨⟨hab, hends.exists_leads hl, hr⟩, hlhs' hlhs, hrhs⟩
  | some q =>
    obtain ⟨⟨hab, hqa, hqb, hops⟩, hlhs, hrhs⟩ := wellFormed_quantified_iff.1 h
    have hops' := hops.imp (And.imp_left hends.exists_leads) (And.imp_left hends.exists_leads)
    exact wellFormed_quantified_iff.2 ⟨⟨hab, hqa, hqb, hops'⟩, hlhs' hlhs, hrhs⟩

/-- The left operand of a formula may be replaced. -/
theorem Interchangeable.inLhs (h : Interchangeable lhs lhs') (c : Connective) (a b : BoundVar)
    (q : Option BoundVar) (rhs : BoundExpr) :
    Interchangeable (formula c a b q lhs rhs) (formula c a b q lhs' rhs) where
  sameEnds := .inl fun _ => rfl
  connective?_eq := rfl
  mem_vars_iff v := by
    simp only [vars, List.mem_cons, List.mem_append, h.mem_vars_iff]
  wellTyped_iff := and_congr_left' h.wellTyped_iff
  wellFormed hx := wellFormed_inLhs h.sameEnds h.wellFormed hx
  coherent hx := by
    refine ⟨fun v hv e => ⟨fun hname => ?_, (hx.1 v hv e).2⟩, h.coherent hx.2.1, hx.2.2⟩
    obtain ⟨e', he'⟩ := h.sameEnds.exists_endpoint_eq e
    rw [endName, he'] at hname
    rw [he']
    exact (hx.1 v hv e').1 hname
  readFrom_iff hx := by
    refine readFrom_congr (fun _ => rfl) fun e i j => ?_
    -- The relation of a formula is made from what is read from its operands by name.
    have hread := h.readFrom_iff hx.2.1
    cases q <;> cases c <;> simp only [Rel, hread]

/-- The right operand of a formula may be replaced. -/
theorem Interchangeable.inRhs {rhs' : BoundExpr} (h : Interchangeable rhs rhs') (c : Connective)
    (a b : BoundVar) (q : Option BoundVar) (lhs : BoundExpr) :
    Interchangeable (formula c a b q lhs rhs) (formula c a b q lhs rhs') :=
  -- The right operand is the left one of the formula with its operands exchanged.
  ((operands c a b q lhs rhs).trans (h.inLhs c a b q lhs)).trans (operands c a b q rhs' lhs)

/-! ### Any number of exchanges -/

/-- Steps at any depth give an expression that can stand for the other. -/
theorem interchangeable_of_rearranges (h : Rearranges x y) : Interchangeable x y := by
  induction h with
  | operands c a b q lhs rhs => exact .operands c a b q lhs rhs
  | ends c a b q lhs rhs => exact .ends c a b q lhs rhs
  | inLhs _ ih => exact ih.inLhs _ _ _ _ _
  | inRhs _ ih => exact ih.inRhs _ _ _ _ _

/-- Rearranged expressions are interchangeable. -/
theorem interchangeable_of_rearranged (h : Rearranged x y) : Interchangeable x y := by
  induction h with
  | refl => exact .refl x
  | tail _ hstep ih => exact ih.trans (interchangeable_of_rearranges hstep)

namespace Interchangeable

variable {s t : End}

/-- If the ends of an expression have different names, the ends of one name have one variable. -/
theorem endpoint_eq (h : Interchangeable x y) (hne : ∀ e, x.endName e ≠ x.endName e.other)
    (hname : x.endName s = y.endName t) : y.endpoint t = x.endpoint s := by
  obtain ⟨e, he⟩ := h.sameEnds.exists_endpoint_eq t
  have hse : x.endName s = x.endName e := by rw [hname, endName, he, endName]
  rcases End.eq_or_eq_other e s with rfl | rfl
  · exact he
  · exact absurd hse (hne s)

/-- If the ends of an expression have different names, the ends of one name have one relation. -/
theorem rel_iff (h : Interchangeable x y) (hx : x.WellFormed)
    (hne : ∀ e, x.endName e ≠ x.endName e.other) (hname : x.endName s = y.endName t) (i j : Nat) :
    y.Rel t i j ↔ x.Rel s i j := by
  have hney : ∀ e, y.endName e ≠ y.endName e.other := by
    intro e
    rcases h.sameEnds with hends | hends
    · rw [endName, endName, hends, hends]
      exact hne e
    · rw [endName, endName, hends, hends]
      exact hne e.other
  calc y.Rel t i j
      ↔ ReadFrom y y.Rel (y.endName t) i j :=
        (PathTree.readFrom_iff (show y.Leads t _ _ from ⟨rfl, rfl⟩) (hney t)).symm
    _ ↔ ReadFrom x x.Rel (x.endName s) i j := by
        rw [hname]
        exact h.readFrom_iff hx _ i j
    _ ↔ x.Rel s i j := PathTree.readFrom_iff (show x.Leads s _ _ from ⟨rfl, rfl⟩) (hne s)

end Interchangeable

end PathTree

/-! ## Ascending rows -/

namespace Formula

theorem pairwise_row_ofRows_map {f : Nat → List Nat} (h : ∀ e, (f e).Pairwise (· < ·))
    (elements : List Nat) (i : Nat) :
    ((Segmented.ofRows (elements.map f)).row i).Pairwise (· < ·) := by
  rw [Segmented.row_ofRows, List.getElem?_map]
  cases elements[i]? with
  | none => exact .nil
  | some e => exact h e

/-- The rows of a formula without a quantified variable are strictly ascending. -/
theorem pairwise_row_combine (c : Connective) (l r : PathIndex) (i : Nat) :
    ((combine c l r).row i).Pairwise (· < ·) := by
  cases c with
  | and => exact pairwise_row_ofRows_map (fun e => Row.pairwise_inter _ _) _ i
  | or => exact pairwise_row_ofRows_map (fun e => Row.pairwise_union _ _) _ i

/-- So are those of a quantified formula. -/
theorem pairwise_row_eliminate (c : Connective) (near far : PathIndex) (sinks : SetView)
    (i : Nat) : ((eliminate c near far sinks).row i).Pairwise (· < ·) := by
  cases c with
  | and => exact pairwise_row_ofRows_map (fun e => Row.pairwise_distinct _) _ i
  | or =>
    refine pairwise_row_ofRows_map (fun e => ?_) _ i
    split
    · exact .nil
    · exact List.pairwise_lt_range

end Formula

namespace PathTree

open Success

/-- All rows of a formula are strictly ascending. -/
theorem pairwise_row_eval {options : BuildOptions} {z : BoundExpr} (hz : z.WellFormed)
    (hformula : z.connective?.isSome = true) {rows : End} {index : PathIndex}
    (hok : z.eval options rows = .ok index) (i : Nat) : (index.row i).Pairwise (· < ·) := by
  cases z with
  | link => cases hformula
  | formula c x y q lhs rhs =>
    cases q with
    | none =>
      obtain ⟨le, re, -, -, hle, hre⟩ := operandEnds_plain hz rows
      rw [eval_combine hle hre] at hok
      obtain ⟨l, -, hok⟩ := bind_eq_ok_iff.1 hok
      obtain ⟨r, -, hok⟩ := bind_eq_ok_iff.1 hok
      cases hok
      exact Formula.pairwise_row_combine c l r i
    | some q =>
      obtain ⟨ne, fe, -, -, hne, hfe⟩ := operandEnds_quantified hz rows
      rw [eval_eliminate hne hfe] at hok
      obtain ⟨n, -, hok⟩ := bind_eq_ok_iff.1 hok
      obtain ⟨f, -, hok⟩ := bind_eq_ok_iff.1 hok
      cases hok
      exact Formula.pairwise_row_eliminate c n f _ i

end PathTree

/-! ## Builds -/

open PathTree

/-- In place of `x`, a mesh also carries `y`. -/
theorem Mesh.Carries.interchange {m : Mesh} {x y : BoundExpr} (hx : m.Carries x)
    (h : Interchangeable x y) : m.Carries y where
  constructible :=
    constructible_iff_wellFormed.2 (wellFormed_toOpen.2 (h.wellFormed hx.wellFormed))
  holds v hv := hx.holds v ((h.mem_vars_iff v).1 hv)
  small v hv := hx.small v ((h.mem_vars_iff v).1 hv)

namespace Builder

variable {m : Mesh} {b b' : Builder} {x y z : BoundExpr} {built : Built} {rows s t : End}

/-- What is built for a formula has strictly ascending rows, wherever it was remembered. -/
theorem pairwise_row_of_build (hb : b.Serves m) (hz : m.Carries z)
    (hformula : z.connective?.isSome = true)
    (hok : (b.build z.toOpen rows.toNat).1 = .ok built) (i : Nat) :
    (built.index.row i).Pairwise (· < ·) :=
  pairwise_row_eval hz.wellFormed hformula (hb.eval_eq_ok hz hok) i

/-- However the operands and the free variables of the formulas in it are arranged, a coherent
formula is built or not, and it has the same rows from the end of the same name. -/
theorem build_rearranged (hm : m.Reached) (hb : b.Serves m) (hb' : b'.Serves m)
    (hx : m.Carries x) (hc : x.toOpen.Coherent) (hformula : x.connective?.isSome = true)
    (hxy : Rearranged x y) (hname : x.endName s = y.endName t) :
    ((∃ built, (b.build x.toOpen s.toNat).1 = .ok built) ↔
        ∃ built, (b'.build y.toOpen t.toNat).1 = .ok built) ∧
      ∀ built built', (b.build x.toOpen s.toNat).1 = .ok built →
        (b'.build y.toOpen t.toNat).1 = .ok built' →
          built.index.numElements = built'.index.numElements ∧
            ∀ e, built.index.row e = built'.index.row e := by
  have h := interchangeable_of_rearranged hxy
  have hy : m.Carries y := hx.interchange h
  have hcy : y.toOpen.Coherent := coherentBy_toOpen.2 (h.coherent (coherentBy_toOpen.1 hc))
  have hformulay : y.connective?.isSome = true := by rw [h.connective?_eq, hformula]
  have hne := names_ne_of_formula hx.wellFormed hformula
  refine ⟨?_, fun built built' hok hok' => ⟨?_, fun e => ?_⟩⟩
  · rw [exists_build_iff hm hb hx, exists_build_iff hm hb' hy, h.wellTyped_iff]
  -- Both indices realize one relation over the set at the end of this name.
  · rw [(realizes_of_build hm hb hx hc hok).numElements_eq,
      (realizes_of_build hm hb' hy hcy hok').numElements_eq, h.endpoint_eq hne hname]
  · refine (pairwise_row_of_build hb hx hformula hok e).eq_of_mem_iff
      (pairwise_row_of_build hb' hy hformulay hok' e) fun i => ?_
    rw [(realizes_of_build hm hb hx hc hok).mem_row_iff,
      (realizes_of_build hm hb' hy hcy hok').mem_row_iff, h.rel_iff hx.wellFormed hne hname]

/-- Two steps around the ring, and the same path with its hops and its ends exchanged. -/
theorem build_rearranged_ringPath :
    let v (name : String) : BoundVar := ⟨name, Mesh.ring.toSetView⟩
    let x := Mesh.ringPath Mesh.forth (.star 1)
    let y : BoundExpr := .formula .and (v "w") (v "u") (some (v "v"))
      (.link (.stencil (.star 1)) (v "v") (v "w")) (.link (.stencil Mesh.forth) (v "u") (v "v"))
    ∃ built built', ((new .standard : Builder).build x.toOpen 0).1 = .ok built ∧
      ((new .standard : Builder).build y.toOpen 1).1 = .ok built' ∧
        built.index.numElements = built'.index.numElements ∧
          ∀ e, built.index.row e = built'.index.row e := by
  intro v x y
  have hx : Mesh.ringMesh.Carries x := Mesh.carries_ringPath Mesh.forth (.star 1)
  have htyped : x.WellTyped := Mesh.wellTyped_ringPath rfl rfl
  have hxy : Rearranged x y :=
    (Relation.ReflTransGen.single (.operands _ _ _ _ _ _)).tail (.ends _ _ _ _ _ _)
  have hname : x.endName .first = y.endName .second := rfl
  obtain ⟨hiff, hequal⟩ :=
    build_rearranged Mesh.reached_ringMesh serves_ringMesh serves_ringMesh hx (by decide) rfl hxy
      hname
  obtain ⟨built, hok⟩ := (exists_build_iff Mesh.reached_ringMesh serves_ringMesh hx .first).2 htyped
  obtain ⟨built', hok'⟩ := hiff.1 ⟨built, hok⟩
  exact ⟨built, built', hok, hok', hequal built built' hok hok'⟩

end Builder

end MeshPath
