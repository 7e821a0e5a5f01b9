import MeshPath.Proofs.Expr.Binding

/-!
# Names without a binding

Binding visits the variables of an expression in preorder and stops at the first one whose name the
table does not have. The formulas that it rebuilds have the names that they had, so that their check
never fails.

* `Bindings.missing?`: the first variable whose name is not bound.
* `Bindings.outcome`: what a step that binds some variables gives. `outcome_bind`: two steps, one
  after the other, are a step for the variables of both.
* `bind_eq_outcome`: binding is such a step for all variables of an expression.
* `bind_bind`: only the last of several tables counts.
* `BoundByName`, `bind_boundByName`: what binding gives, and when it fails.
-/

namespace MeshPath

namespace Bindings

variable {S α β : Type} {table : Bindings S} {us vs : List (OpenVar S)}

/-- The first of the variables whose name is not bound. -/
def missing? (table : Bindings S) (vs : List (OpenVar S)) : Option (OpenVar S) :=
  vs.find? fun v => (table.get? v.name).isNone

/-- The first missing name of two lists is that of the first one, if it has any. -/
theorem missing?_append (table : Bindings S) (us vs : List (OpenVar S)) :
    table.missing? (us ++ vs) = (table.missing? us).or (table.missing? vs) := List.find?_append

/-- No name is missing exactly if the table has all of them. -/
theorem missing?_eq_none_iff :
    table.missing? vs = none ↔ ∀ v ∈ vs, (table.get? v.name).isSome = true := by
  simp [missing?, List.find?_eq_none, Option.isSome_iff_ne_none]

/-- Which name is missing depends on the names alone. -/
theorem missing?_map {f : OpenVar S → OpenVar S} (hf : ∀ v, (f v).name = v.name)
    (vs : List (OpenVar S)) : table.missing? (vs.map f) = (table.missing? vs).map f := by
  have hsame : ((fun v => (table.get? v.name).isNone) ∘ f) =
      fun v => (table.get? v.name).isNone := by
    funext v
    rw [Function.comp, hf]
  rw [missing?, missing?, List.find?_map, hsame]

/-- The outcome of a step that needs a binding for each of the variables `vs`, and gives `a`. -/
def outcome (table : Bindings S) (vs : List (OpenVar S)) (a : α) : Except PathError α :=
  match table.missing? vs with
  | none => .ok a
  | some v => .error (.unboundVar v.name)

/-- A step that fails ends the run, so that the first missing name of both steps is reported. -/
theorem outcome_bind {a : α} {b : β} {next : α → Except PathError β}
    (h : next a = table.outcome us b) :
    table.outcome vs a >>= next = table.outcome (vs ++ us) b := by
  rw [outcome, outcome, missing?_append]
  cases table.missing? vs with
  | some v => rfl
  | none => exact h

/-- Binding succeeds exactly if no name is missing. -/
theorem outcome_eq_ok_iff {a b : α} :
    table.outcome vs a = .ok b ↔ (∀ v ∈ vs, (table.get? v.name).isSome = true) ∧ b = a := by
  rw [outcome, ← missing?_eq_none_iff]
  cases table.missing? vs with
  | some v => simp
  | none => simp [eq_comm]

/-- Binding reports the first name that is missing. -/
theorem outcome_eq_error_iff {a : α} {e : PathError} :
    table.outcome vs a = .error e ↔ ∃ v, table.missing? vs = some v ∧ e = .unboundVar v.name := by
  rw [outcome]
  cases table.missing? vs with
  | some v => simp [eq_comm]
  | none => simp

end Bindings

namespace PathTree

open Bindings

variable {S : Type} {table table' : Bindings S} {x y : OpenExpr S}

/-- A variable is bound as a list of one. -/
theorem bindVar_eq_outcome (table : Bindings S) (v : OpenVar S) :
    bindVar table v = table.outcome [v] (table.assign v) := by
  rw [bindVar, outcome, missing?, List.find?_singleton, assign]
  cases table.get? v.name <;> rfl

theorem mapM_bindVar_eq_outcome (table : Bindings S) (q : Option (OpenVar S)) :
    q.mapM (bindVar table) = table.outcome q.toList (q.map table.assign) := by
  cases q with
  | none => rfl
  | some q =>
    have hstep : table.outcome [q] (table.assign q) >>= (fun v => .ok (some v)) =
        table.outcome ([q] ++ []) (some (table.assign q)) := outcome_bind rfl
    rw [Option.mapM_some, bindVar_eq_outcome]
    exact hstep

variable [Identified S]

/-- A well-formed expression is bound unless a name is missing, and then the first one in preorder
is reported. -/
theorem bind_eq_outcome (hx : x.WellFormed) (table : Bindings S) :
    x.bind table = table.outcome x.vars (x.map table.assign) := by
  induction x with
  | link kind source sink =>
    have hvars : (link kind source sink).vars = [source] ++ ([sink] ++ []) := rfl
    rw [bind_link, bindVar_eq_outcome, bindVar_eq_outcome, hvars]
    exact outcome_bind (outcome_bind rfl)
  | formula c x₁ x₂ q lhs rhs ihl ihr =>
    have hchecked : checked ((formula c x₁ x₂ q lhs rhs).map table.assign) =
        table.outcome [] ((formula c x₁ x₂ q lhs rhs).map table.assign) :=
      checked_eq_ok_iff.2 ⟨((wellFormed_map table.name_assign).2 hx).1, rfl⟩
    have hvars : (formula c x₁ x₂ q lhs rhs).vars =
        [x₁] ++ ([x₂] ++ (q.toList ++ (lhs.vars ++ (rhs.vars ++ [])))) := by
      rw [List.append_nil]
      rfl
    -- The variables are bound in preorder, and the check at the end needs no binding.
    rw [bind_formula, bindVar_eq_outcome, bindVar_eq_outcome, mapM_bindVar_eq_outcome, ihl hx.2.1,
      ihr hx.2.2, hvars]
    exact outcome_bind <| outcome_bind <| outcome_bind <| outcome_bind <| outcome_bind hchecked

/-- An expression that has been bound is bound again as if it had not been. -/
theorem bind_bind (h : x.bind table = .ok y) (table' : Bindings S) :
    y.bind table' = x.bind table' := by
  obtain ⟨hx, -, rfl⟩ := bind_eq_ok_iff_map.1 h
  have hy : (x.map table.assign).WellFormed := (wellFormed_map table.name_assign).2 hx
  -- The second table assigns by name, and the first one has left the names as they were.
  have hassign : (x.map table.assign).map table'.assign = x.map table'.assign := by
    rw [map_map]
    rfl
  rw [bind_eq_outcome hx, bind_eq_outcome hy, hassign, vars_map, outcome, outcome,
    missing?_map table.name_assign]
  cases table'.missing? x.vars <;> rfl

/-! ## Bound expressions -/

/-- The expression `y` is `x` bound by name from the table. -/
structure BoundByName (table : Bindings S) (x y : OpenExpr S) : Prop where
  /-- Every occurrence keeps its name, and has the set of that name. -/
  eq_map : y = x.map fun v => ⟨v.name, table.get? v.name⟩
  /-- Every name has a set in the table. -/
  exists_set_eq : ∀ v ∈ y.vars, ∃ set, v.set = some set ∧ table.get? v.name = some set
  /-- The expression is bound. -/
  checkBound_eq : y.checkBound = .ok true
  /-- The shape is the same. -/
  structuralEq : y.structuralEq x = true
  /-- In every formula, an end of an operand has the set of the variable of its name. -/
  coherent : y.CoherentBy fun set => set

/-- What is bound from a table is bound by name. -/
theorem boundByName_of_bind (h : x.bind table = .ok y) : BoundByName table x y where
  eq_map := (bind_eq_ok_iff_map.1 h).2.2
  exists_set_eq := get?_of_bind h
  checkBound_eq := by
    refine checkBound_eq_ok_true_iff.2 (all_isBound_iff.1 (List.all_eq_true.2 fun v hv => ?_))
    obtain ⟨set, hset, -⟩ := get?_of_bind h v hv
    rw [Var.isBound, hset]
    rfl
  structuralEq := by
    obtain ⟨-, -, rfl⟩ := bind_eq_ok_iff_map.1 h
    exact structuralEq_iff.2 ⟨shape_map table.assign x, binders_map table.name_assign x⟩
  coherent := coherentBy_of_set_eq _ (set_eq_of_bind h)

/-- An expression is bound by name if the table has all its names, in whatever order they stand and
however often they are quantified. Otherwise the first name that the table does not have is
reported. Binding once more is binding from the last table. -/
theorem bind_boundByName (hx : x.Constructible) (table : Bindings S) :
    ((∃ y, x.bind table = .ok y) ↔ ∀ v ∈ x.vars, (table.get? v.name).isSome = true) ∧
    (∀ e, x.bind table = .error e ↔
      ∃ v, x.vars.find? (fun v => (table.get? v.name).isNone) = some v ∧
        e = .unboundVar v.name) ∧
    (∀ y, x.bind table = .ok y → BoundByName table x y) ∧
    ∀ y table', x.bind table = .ok y → y.bind table' = x.bind table' := by
  have houtcome := bind_eq_outcome (constructible_iff_wellFormed.1 hx) table
  refine ⟨?_, fun e => ?_, fun y => boundByName_of_bind, fun y table' h => bind_bind h table'⟩
  · simp only [houtcome, outcome_eq_ok_iff]
    exact ⟨fun ⟨_, hall, _⟩ => hall, fun hall => ⟨_, hall, rfl⟩⟩
  · rw [houtcome]
    exact outcome_eq_error_iff

/-- An expression of which one occurrence has a set, and whose quantified variable of the last two
steps has the name of the first end. It is bound from one table and then from another one, which has
no set for `v`. -/
theorem bind_boundByName_hiddenEnd :
    let set : SetView := ⟨⟨1⟩, "V", 2, [], #[], none⟩
    let v := Var.unbound
    let x : OpenExpr := .formula .and (.bound "u" set) (v "w") (some (v "v"))
      (.link .vertexToEdge (v "u") (v "v"))
      (.formula .and (v "v") (v "w") (some (v "u")) (.link .edgeToVertex (v "v") (v "u"))
        (.link .vertexToEdge (v "u") (v "w")))
    let table : Bindings := .ofList [("u", set), ("v", set), ("w", set)]
    ∃ y, x.bind table = .ok y ∧ BoundByName table x y ∧
      y.bind (.ofList [("u", set), ("w", set)]) = .error (.unboundVar "v") := by
  intro set v x table
  have hx : x.Constructible := constructible_iff_wellFormed.2 (by decide)
  obtain ⟨hok, -, hbound, hlast⟩ := bind_boundByName hx table
  obtain ⟨y, hy⟩ := hok.2 (by decide)
  refine ⟨y, hy, hbound y hy, ?_⟩
  rw [hlast y _ hy]
  exact ((bind_boundByName hx _).2.1 _).2 ⟨v "v", by decide, rfl⟩

end PathTree

end MeshPath
