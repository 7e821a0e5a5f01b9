import MeshPath.Proofs.Expr.Renaming

/-!
# Quantified variables of renamed expressions

A renaming moves a quantified variable away from a name that it brings in. These variables are the
only ones at which a reading of names, such as a table of bindings, can tell the result from the
expression that it came from.

* `PathTree.quantified`: the quantified variables of an expression.
* `quantified_of_substitute`: they stay if the new variables have other names.
* `map_vars_eq_iff_of_substitute`: a reading of names that agrees on the old and new ends agrees on
  all occurrences exactly if it agrees on the quantified variables.
-/

namespace MeshPath

namespace Substitution

variable {S : Type}

/-- Below a quantifier of a name that the substitution does not bring in, it brings in no more. -/
theorem introduces_inside {σ : Substitution S} {q : Option (OpenVar S)} {taken : List String}
    (hq : ∀ v ∈ q.toList, σ.introduces v.name = false) {name : String}
    (h : σ.introduces name = false) : (σ.inside q taken).introduces name = false := by
  cases q with
  | none => exact h
  | some q =>
    have hstays : σ.introduces q.name = false := hq q (by simp)
    rw [inside, under, hstays]
    simp only [introduces, List.any_eq_false] at h ⊢
    exact fun entry hentry => h entry (List.mem_of_mem_filter hentry)

/-- A quantified variable that has none of the new names stays as it is. -/
theorem map_apply_inside {σ : Substitution S} {q : Option (OpenVar S)} {taken : List String}
    (hq : ∀ v ∈ q.toList, σ.introduces v.name = false) : q.map (σ.inside q taken).apply = q := by
  cases q with
  | none => rfl
  | some q =>
    have hstays : σ.introduces q.name = false := hq q (by simp)
    rw [inside, Option.map_some, apply_under_self, hstays]
    rfl

end Substitution

namespace PathTree

variable {S V W : Type} {x y : OpenExpr S} {σ : Substitution S}

/-- The quantified variables of all formulas, in preorder. -/
def quantified : PathTree V → List V
  | link _ _ _ => []
  | formula _ _ _ q lhs rhs => q.toList ++ (lhs.quantified ++ rhs.quantified)

theorem length_quantified (t : PathTree V) : t.quantified.length = t.quantifierCount := by
  induction t with
  | link => rfl
  | formula c x y q lhs rhs ihl ihr => simp [quantified, quantifierCount, ihl, ihr]

theorem length_quantified_of_shape {t : PathTree V} {u : PathTree W} (h : t.shape = u.shape) :
    t.quantified.length = u.quantified.length := by
  rw [length_quantified, length_quantified, quantifierCount_of_shape h]

/-- Substitution leaves the quantified variables if it brings in none of their names. -/
theorem quantified_of_substitute [Identified S] (h : x.substitute σ = .ok y)
    (hfree : ∀ v ∈ x.quantified, σ.introduces v.name = false) : y.quantified = x.quantified := by
  induction x generalizing σ y with
  | link =>
    cases h
    rfl
  | formula c x₁ x₂ q lhs rhs ihl ihr =>
    obtain ⟨inner, lhs', rhs', rfl, hl, hr, rfl⟩ := formula_of_substitute h
    rw [quantified] at hfree
    simp only [List.forall_mem_append] at hfree
    obtain ⟨hq, hlhs, hrhs⟩ := hfree
    rw [quantified, quantified, Substitution.map_apply_inside hq,
      ihl hl fun v hv => Substitution.introduces_inside hq (hlhs v hv),
      ihr hr fun v hv => Substitution.introduces_inside hq (hrhs v hv)]

/-! ## Readings of names -/

variable {α : Type} {read : String → α} {c : Connective} {x₁ x₂ : OpenVar S}
  {q : Option (OpenVar S)} {lhs rhs : OpenExpr S}

/-- A reading that agrees on the old and the new name of every variable of a formula agrees on those
of the ends of its operands. -/
theorem read_operands_eq (hx : WellFormed (formula c x₁ x₂ q lhs rhs))
    (hvars : ∀ v ∈ x₁ :: x₂ :: q.toList, read (σ.newName v.name) = read v.name) (e : End) :
    read (σ.newName (lhs.endName e)) = read (lhs.endName e) ∧
      read (σ.newName (rhs.endName e)) = read (rhs.endName e) := by
  obtain ⟨⟨v, hv, hl⟩, ⟨w, hw, hr⟩⟩ := exists_endName_eq hx e
  rw [hl, hr, hvars v hv, hvars w hw]
  exact ⟨rfl, rfl⟩

/-- In the operands of a formula its ends are renamed as outside. -/
theorem newName_inside (hx : WellFormed (formula c x₁ x₂ q lhs rhs)) {inner : Substitution S}
    (hinner : inner = σ.inside q ((formula c x₁ x₂ q lhs rhs).vars.map (·.name))) :
    inner.newName x₁.name = σ.newName x₁.name ∧ inner.newName x₂.name = σ.newName x₂.name := by
  cases q with
  | none =>
    rw [hinner]
    exact ⟨rfl, rfl⟩
  | some q =>
    obtain ⟨⟨hfirst, -⟩, ⟨hsecond, -⟩⟩ := newName_under_formula hx hinner
    exact ⟨hfirst, hsecond⟩

/-- If a reading agrees on the old and the new names of the ends, it agrees on all occurrences of
the old and the new expression exactly if it agrees on the quantified variables. -/
theorem map_vars_eq_iff_of_substitute [Identified S] (hx : x.WellFormed)
    (h : x.substitute σ = .ok y)
    (hends : ∀ e, read (σ.newName (x.endName e)) = read (x.endName e)) :
    (y.vars.map fun v => read v.name) = (x.vars.map fun v => read v.name) ↔
      (y.quantified.map fun v => read v.name) = x.quantified.map fun v => read v.name := by
  induction x generalizing σ y with
  | link kind source sink =>
    cases h
    have hsource : read (σ.newName source.name) = read source.name := hends .first
    have hsink : read (σ.newName sink.name) = read sink.name := hends .second
    simp [vars, quantified, hsource, hsink]
  | formula c x₁ x₂ q lhs rhs ihl ihr =>
    have hfirst : read (σ.newName x₁.name) = read x₁.name := hends .first
    have hsecond : read (σ.newName x₂.name) = read x₂.name := hends .second
    obtain ⟨inner, lhs', rhs', hinner, hl, hr, rfl⟩ := formula_of_substitute h
    obtain ⟨hinner₁, hinner₂⟩ := newName_inside hx hinner
    have hlength : ((q.map inner.apply).toList.map fun v => read v.name).length =
        (q.toList.map fun v => read v.name).length := by
      cases q <;> rfl
    have hvars := length_vars_of_shape (shape_of_substitute hl)
    have hquantified := length_quantified_of_shape (shape_of_substitute hl)
    simp only [vars, quantified, List.map_cons, List.map_append, List.cons.injEq,
      Substitution.name_apply, hfirst, hsecond, true_and]
    rw [append_eq_append_iff hlength, append_eq_append_iff hlength,
      append_eq_append_iff (by simpa using hvars),
      append_eq_append_iff (by simpa using hquantified)]
    -- If the reading tells the quantified variables apart, both sides fail. Otherwise it agrees on
    -- the ends of the operands.
    refine and_congr_right fun hq => ?_
    have hagrees : ∀ v ∈ x₁ :: x₂ :: q.toList, read (inner.newName v.name) = read v.name := by
      simp only [List.forall_mem_cons]
      refine ⟨by rw [hinner₁, hfirst], by rw [hinner₂, hsecond], fun v hv => ?_⟩
      have hsome : q = some v := by simpa using hv
      rw [hsome] at hq
      simpa using hq
    have hends' := read_operands_eq hx hagrees
    rw [ihl hx.2.1 hl fun e => (hends' e).1, ihr hx.2.2 hr fun e => (hends' e).2]

end PathTree

end MeshPath
