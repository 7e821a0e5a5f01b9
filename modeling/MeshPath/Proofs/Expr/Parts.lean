import MeshPath.Proofs.Expr.WellFormed

/-!
# The parts of an expression

A part of an expression is the expression itself or a part of one of its operands. What the check
says of a formula holds of all parts of an expression, since operands are checked before the formula
is.

* `parts`: all parts, in preorder; the expression is the first one.
* `Fits`: the shapes of a formula, by the names at the ends of its operands.
* `formula?_eq_ok_iff`: a formula is built exactly from parts that fit.
* `formulas_fit`: the formulas of every expression fit, at every depth.
-/

namespace MeshPath.PathTree

variable {V S : Type}

/-! ## Parts -/

/-- The expression and all parts of its operands, in preorder. -/
def parts : PathTree V → List (PathTree V)
  | link kind source sink => [link kind source sink]
  | formula c x y q lhs rhs => formula c x y q lhs rhs :: (lhs.parts ++ rhs.parts)

theorem parts_eq_cons (x : PathTree V) : x.parts = x :: x.parts.tail := by
  cases x <;> rfl

theorem self_mem_parts (x : PathTree V) : x ∈ x.parts := by
  rw [parts_eq_cons]
  exact List.mem_cons_self

/-- A part of an operand of a part is a part. -/
theorem mem_parts_trans {x y z : PathTree V} (hy : y ∈ x.parts) (hz : z ∈ y.parts) :
    z ∈ x.parts := by
  induction x with
  | link kind source sink =>
    rw [List.mem_singleton.1 hy] at hz
    exact hz
  | formula c a b q lhs rhs ihl ihr =>
    rw [parts, List.mem_cons, List.mem_append] at hy
    rcases hy with rfl | hy | hy
    · exact hz
    · exact List.mem_cons_of_mem _ (List.mem_append_left _ (ihl hy))
    · exact List.mem_cons_of_mem _ (List.mem_append_right _ (ihr hy))

/-- A part of a part of an operand is one of an operand. -/
theorem mem_tail_parts_trans {x y z : PathTree V} (hy : y ∈ x.parts.tail) (hz : z ∈ y.parts) :
    z ∈ x.parts.tail := by
  cases x with
  | link kind source sink => exact absurd hy List.not_mem_nil
  | formula c a b q lhs rhs =>
    rcases List.mem_append.1 hy with hy | hy
    · exact List.mem_append_left _ (mem_parts_trans hy hz)
    · exact List.mem_append_right _ (mem_parts_trans hy hz)

/-- All parts of a well-formed expression are well formed. -/
theorem wellFormed_of_mem_parts {x y : PathExpr S} (hx : x.WellFormed) (hy : y ∈ x.parts) :
    y.WellFormed := by
  induction x with
  | link kind source sink =>
    rw [List.mem_singleton.1 hy]
    exact hx
  | formula c a b q lhs rhs ihl ihr =>
    rw [parts, List.mem_cons, List.mem_append] at hy
    rcases hy with rfl | hy | hy
    · exact hx
    · exact ihl hx.2.1 hy
    · exact ihr hx.2.2 hy

/-! ## Shapes -/

/-- The operands `lhs` and `rhs` fit a formula over the free variables `x` and `y`, with or without
a quantified variable. -/
inductive Fits (x y : Var S) (lhs rhs : PathExpr S) : Option (Var S) → Prop
  /-- Without a quantified variable, the ends of both operands have the names of the free variables,
  in some order. -/
  | plain : x.name ≠ y.name → (∃ e, lhs.Leads e x.name y.name) →
      (∃ e, rhs.Leads e x.name y.name) → Fits x y lhs rhs none
  /-- With a quantified variable, the left operand has its name at one end and that of a free
  variable at the other end, and the right operand its name and that of the other free variable. -/
  | quantified {q : Var S} (i : End) : x.name ≠ y.name → q.name ≠ x.name → q.name ≠ y.name →
      (∃ e, lhs.Leads e (i.pick x y).name q.name) →
      (∃ e, rhs.Leads e q.name (i.other.pick x y).name) → Fits x y lhs rhs (some q)

variable {c : Connective} {x y : Var S} {q : Option (Var S)} {lhs rhs : PathExpr S}

/-- The formulas without a defect are those whose operands fit. -/
theorem defect?_eq_none_iff_fits :
    defect? (formula c x y q lhs rhs) = none ↔ Fits x y lhs rhs q := by
  cases q with
  | none =>
    rw [defect?_plain_iff]
    constructor
    · rintro ⟨hxy, hl, hr⟩
      exact .plain hxy hl hr
    · rintro ⟨hxy, hl, hr⟩
      exact ⟨hxy, hl, hr⟩
  | some q =>
    rw [defect?_quantified_iff]
    -- The left operand may reach either of the two free variables, and the right one the other.
    constructor
    · rintro ⟨hxy, hqx, hqy, ⟨⟨le, hl⟩, hr⟩ | ⟨⟨le, hl⟩, hr⟩⟩
      · exact .quantified .first hxy hqx hqy ⟨le.other, hl.other⟩ hr
      · exact .quantified .second hxy hqx hqy ⟨le.other, hl.other⟩ hr
    · rintro (_ | ⟨i, hxy, hqx, hqy, ⟨le, hl⟩, hr⟩)
      refine ⟨hxy, hqx, hqy, ?_⟩
      cases i with
      | first => exact .inl ⟨⟨le.other, hl.other⟩, hr⟩
      | second => exact .inr ⟨⟨le.other, hl.other⟩, hr⟩

variable [Identified S]

/-- A formula is built exactly from two free variables, at most one quantified variable and operands
that fit them. -/
theorem formula?_eq_ok_iff {c : Connective} {free quantified : List (OpenVar S)}
    {lhs rhs z : OpenExpr S} : formula? c free quantified lhs rhs = .ok z ↔
      ∃ x y q, free = [x, y] ∧ quantified = q.toList ∧ Fits x y lhs rhs q ∧
        z = formula c x y q lhs rhs := by
  constructor
  · intro h
    unfold formula? at h
    -- Only two free variables and at most one quantified variable get as far as the check.
    split at h
    · next x y =>
      obtain ⟨hdefect, rfl⟩ := checked_eq_ok_iff.1 h
      exact ⟨x, y, none, rfl, rfl, defect?_eq_none_iff_fits.1 hdefect, rfl⟩
    · next x y q =>
      obtain ⟨hdefect, rfl⟩ := checked_eq_ok_iff.1 h
      exact ⟨x, y, some q, rfl, rfl, defect?_eq_none_iff_fits.1 hdefect, rfl⟩
    · cases h
    · cases h
  · rintro ⟨x, y, q, rfl, rfl, hfits, rfl⟩
    have hcheck : checked (formula c x y q lhs rhs) = .ok (formula c x y q lhs rhs) :=
      checked_eq_ok_iff.2 ⟨defect?_eq_none_iff_fits.2 hfits, rfl⟩
    cases q <;> exact hcheck

/-- Formulas are built exactly from operands that fit. So the operands of every formula fit, at
every depth of every expression: their ends are among its variables, and its own ends differ. -/
theorem formulas_fit :
    (∀ (c : Connective) (free quantified : List (OpenVar S)) (lhs rhs z : OpenExpr S),
      formula? c free quantified lhs rhs = .ok z ↔
        ∃ x y q, free = [x, y] ∧ quantified = q.toList ∧ Fits x y lhs rhs q ∧
          z = formula c x y q lhs rhs) ∧
    ∀ z : OpenExpr S, z.Constructible →
      ∀ c x y q lhs rhs, formula c x y q lhs rhs ∈ z.parts →
        Fits x y lhs rhs q ∧
        (∀ e, (∃ v ∈ x :: y :: q.toList, lhs.endName e = v.name) ∧
          ∃ v ∈ x :: y :: q.toList, rhs.endName e = v.name) ∧
        ∀ e, (formula c x y q lhs rhs).endName e ≠ (formula c x y q lhs rhs).endName e.other := by
  refine ⟨fun c free quantified lhs rhs z => formula?_eq_ok_iff, ?_⟩
  intro z hz c x y q lhs rhs hpart
  have hwf := wellFormed_of_mem_parts (constructible_iff_wellFormed.1 hz) hpart
  exact ⟨defect?_eq_none_iff_fits.1 hwf.1, exists_endName_eq hwf, names_ne_of_formula hwf rfl⟩

/-- A path whose second step is a path. In the inner formula the left operand reaches the quantified
variable from the second free variable. -/
theorem formulas_fit_crossed :
    let v := Var.unbound
    let inner : OpenExpr := .formula .or (v "v") (v "w") (some (v "u"))
      (.link .edgeToVertex (v "u") (v "w")) (.link .vertexToEdge (v "v") (v "u"))
    ∃ z, formula? .and [v "u", v "w"] [v "v"] (.link .vertexToEdge (v "u") (v "v")) inner = .ok z ∧
      inner ∈ z.parts ∧
      Fits (v "v") (v "w") (.link .edgeToVertex (v "u") (v "w"))
        (.link .vertexToEdge (v "v") (v "u")) (some (v "u")) := by
  intro v inner
  let z : OpenExpr :=
    .formula .and (v "u") (v "w") (some (v "v")) (.link .vertexToEdge (v "u") (v "v")) inner
  have hz : z.Constructible := constructible_iff_wellFormed.2 (by decide)
  have hinner : inner ∈ z.parts := by decide
  have hfits : Fits (v "u") (v "w") (.link .vertexToEdge (v "u") (v "v")) inner (some (v "v")) :=
    .quantified .first (by decide) (by decide) (by decide) ⟨.first, rfl, rfl⟩ ⟨.first, rfl, rfl⟩
  have hbuilt := (formulas_fit.1 .and [v "u", v "w"] [v "v"] _ inner z).2
    ⟨v "u", v "w", some (v "v"), rfl, rfl, hfits, rfl⟩
  exact ⟨z, hbuilt, hinner, (formulas_fit.2 z hz _ _ _ _ _ _ hinner).1⟩

end MeshPath.PathTree
