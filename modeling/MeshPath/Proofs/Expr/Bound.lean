import MeshPath.Expr.Bind
import MeshPath.Expr.Key
import MeshPath.Proofs.Success

/-!
# Fully bound expressions

An expression all of whose variables have sets is the open form of a bound expression. Its check,
its closed form and its bound key are read off this form.

* `close_eq_ok_iff`, `isBound_iff`: closing and the check succeed exactly on open forms.
* `boundEq_iff`: two expressions are bound-equal exactly if they are open forms with one bound key.
-/

namespace MeshPath.PathTree

open Success

variable {S : Type}

theorem vars_ne_nil {V : Type} (t : PathTree V) : t.vars ≠ [] := by
  cases t <;> simp [vars]

/-- A variable is closed exactly if it has a set. -/
theorem close_var_eq_ok_iff {v : OpenVar S} {w : BoundVar S} :
    v.close = .ok w ↔ v = ⟨w.name, some w.set⟩ := by
  obtain ⟨name, set⟩ := v
  obtain ⟨name', set'⟩ := w
  cases set with
  | none => simp [Var.close, Var.binding, Except.map]
  | some set => simp [Var.close, Var.binding, Except.map]

/-- Closing succeeds exactly on open forms, and undoes them. -/
theorem close_eq_ok_iff {x : OpenExpr S} {y : BoundExpr S} : x.close = .ok y ↔ x = y.toOpen := by
  constructor
  · intro h
    -- Each variable is closed by itself, in the order in which they stand.
    induction x generalizing y with
    | link kind source sink =>
      obtain ⟨source', hsource, h⟩ := bind_eq_ok_iff.1 h
      obtain ⟨sink', hsink, h⟩ := bind_eq_ok_iff.1 h
      cases h
      rw [close_var_eq_ok_iff.1 hsource, close_var_eq_ok_iff.1 hsink]
      rfl
    | formula c x y q lhs rhs ihl ihr =>
      obtain ⟨x', hx, h⟩ := bind_eq_ok_iff.1 h
      obtain ⟨y', hy, h⟩ := bind_eq_ok_iff.1 h
      obtain ⟨q', hq, h⟩ := bind_eq_ok_iff.1 h
      obtain ⟨lhs', hl, h⟩ := bind_eq_ok_iff.1 h
      obtain ⟨rhs', hr, h⟩ := bind_eq_ok_iff.1 h
      cases h
      rw [close_var_eq_ok_iff.1 hx, close_var_eq_ok_iff.1 hy, ihl hl, ihr hr]
      cases q with
      | none =>
        cases hq
        rfl
      | some v =>
        rw [Option.mapM_some] at hq
        obtain ⟨w, hw, hq⟩ := bind_eq_ok_iff.1 hq
        cases hq
        rw [close_var_eq_ok_iff.1 hw]
        rfl
  · rintro rfl
    induction y with
    | link kind source sink => rfl
    | formula c x y q lhs rhs ihl ihr =>
      refine bind_eq_ok_iff.2 ⟨x, rfl, bind_eq_ok_iff.2 ⟨y, rfl, bind_eq_ok_iff.2 ⟨q, ?_, ?_⟩⟩⟩
      · cases q <;> rfl
      · exact bind_eq_ok_iff.2 ⟨lhs, ihl, bind_eq_ok_iff.2 ⟨rhs, ihr, rfl⟩⟩

theorem exists_of_isBound {v : OpenVar S} (h : v.isBound = true) :
    ∃ w : BoundVar S, v = ⟨w.name, some w.set⟩ := by
  obtain ⟨set, hset⟩ := Option.isSome_iff_exists.1 h
  exact ⟨⟨v.name, set⟩, by rw [← hset]⟩

/-- The expressions whose variables all have sets are the open forms of bound ones. -/
theorem all_isBound_iff {x : OpenExpr S} :
    x.vars.all (·.isBound) = true ↔ ∃ y : BoundExpr S, x = y.toOpen := by
  constructor
  · intro h
    induction x with
    | link kind source sink =>
      simp only [vars, List.all_cons, List.all_nil, Bool.and_eq_true] at h
      obtain ⟨source', rfl⟩ := exists_of_isBound h.1
      obtain ⟨sink', rfl⟩ := exists_of_isBound h.2.1
      exact ⟨.link kind source' sink', rfl⟩
    | formula c x y q lhs rhs ihl ihr =>
      simp only [vars, List.all_cons, List.all_append, Bool.and_eq_true] at h
      obtain ⟨hx, hy, hq, hl, hr⟩ := h
      obtain ⟨x', rfl⟩ := exists_of_isBound hx
      obtain ⟨y', rfl⟩ := exists_of_isBound hy
      obtain ⟨lhs', rfl⟩ := ihl hl
      obtain ⟨rhs', rfl⟩ := ihr hr
      cases q with
      | none => exact ⟨.formula c x' y' none lhs' rhs', rfl⟩
      | some q =>
        rw [Option.toList_some, List.all_cons, List.all_nil, Bool.and_true] at hq
        obtain ⟨q', rfl⟩ := exists_of_isBound hq
        exact ⟨.formula c x' y' (some q') lhs' rhs', rfl⟩
  · rintro ⟨y, rfl⟩
    simp [toOpen, Var.isBound]

theorem toOpen_formula (c : Connective) (x y : BoundVar S) (q : Option (BoundVar S))
    (lhs rhs : BoundExpr S) :
    (formula c x y q lhs rhs).toOpen =
      formula c ⟨x.name, some x.set⟩ ⟨y.name, some y.set⟩ (q.map fun v => ⟨v.name, some v.set⟩)
        lhs.toOpen rhs.toOpen := rfl

theorem set_endpoint_toOpen (y : BoundExpr S) (e : End) :
    (y.toOpen.endpoint e).set = some (y.endpoint e).set := by
  rw [toOpen, endpoint_map]

@[simp]
theorem endName_toOpen (y : BoundExpr S) (e : End) : y.toOpen.endName e = y.endName e := by
  rw [endName, endName, toOpen, endpoint_map]

variable [Identified S]

/-- The check finds a bound expression to be bound. -/
@[simp]
theorem checkBound_toOpen (y : BoundExpr S) : y.toOpen.checkBound = .ok true := by
  have hall : y.toOpen.vars.all (·.isBound) = true := all_isBound_iff.2 ⟨y, rfl⟩
  -- There is at least one occurrence, so that not all of them can be unbound as well.
  obtain ⟨v, hv⟩ := List.exists_mem_of_ne_nil _ (vars_ne_nil y.toOpen)
  have hsome : ¬ y.toOpen.vars.all (!·.isBound) = true := by
    intro hnone
    have hbound := List.all_eq_true.1 hall v hv
    have hunbound := List.all_eq_true.1 hnone v hv
    rw [hbound] at hunbound
    cases hunbound
  rw [checkBound, if_neg hsome, if_pos hall]

/-- The bound expressions are the open forms. -/
theorem checkBound_eq_ok_true_iff {x : OpenExpr S} :
    x.checkBound = .ok true ↔ ∃ y : BoundExpr S, x = y.toOpen := by
  constructor
  · intro h
    unfold checkBound at h
    -- The check succeeds with `true` only where it has found every variable bound.
    split at h
    · cases h
    · split at h
      · next hall => exact all_isBound_iff.1 hall
      · cases h
  · rintro ⟨y, rfl⟩
    exact checkBound_toOpen y

/-- The check answers `false` exactly if no variable has a set. -/
theorem checkBound_eq_ok_false_iff {x : OpenExpr S} :
    x.checkBound = .ok false ↔ ∀ v ∈ x.vars, v.set = none := by
  have hnone : x.vars.all (!·.isBound) = true ↔ ∀ v ∈ x.vars, v.set = none := by
    simp [Var.isBound]
  rw [← hnone, checkBound]
  constructor
  · intro h
    split at h
    · next hall => exact hall
    · split at h <;> cases h
  · exact fun h => if_pos h

/-- The check fails exactly if some variables have sets and others have none. -/
theorem checkBound_eq_error_iff {x : OpenExpr S} {e : PathError} :
    x.checkBound = .error e ↔ (∃ v ∈ x.vars, v.set ≠ none) ∧ (∃ v ∈ x.vars, v.set = none) ∧
      e = .partiallyBound x.text := by
  have hnone : x.vars.all (!·.isBound) = true ↔ ¬ ∃ v ∈ x.vars, v.set ≠ none := by
    simp [Var.isBound]
  have hall : x.vars.all (·.isBound) = true ↔ ¬ ∃ v ∈ x.vars, v.set = none := by
    simp [Var.isBound, Option.isSome_iff_ne_none]
  rw [checkBound]
  split
  · next h => simp [hnone.1 h]
  · next h =>
    have hsome := Classical.not_not.1 (mt hnone.2 h)
    split
    · next h' => simp [hall.1 h']
    · next h' => simp [hsome, Classical.not_not.1 (mt hall.2 h'), eq_comm]

/-- The bound expressions are the open forms. -/
theorem isBound_iff {x : OpenExpr S} : x.isBound = true ↔ ∃ y : BoundExpr S, x = y.toOpen := by
  rw [← checkBound_eq_ok_true_iff, isBound]
  cases h : x.checkBound with
  | error e => simp
  | ok b => simp

/-- A bound expression has a bound key, the one of its closed form. -/
@[simp]
theorem boundKey?_toOpen (y : BoundExpr S) : y.toOpen.boundKey? = .ok y.boundKey := by
  rw [boundKey?, close_eq_ok_iff.2 rfl]
  rfl

/-- Two expressions are bound-equal exactly if both are bound and their keys agree. -/
theorem boundEq_iff {x y : OpenExpr S} :
    x.boundEq y = true ↔
      ∃ x' y' : BoundExpr S, x = x'.toOpen ∧ y = y'.toOpen ∧ x'.boundKey = y'.boundKey := by
  constructor
  · intro h
    unfold boundEq boundKey? at h
    -- An expression that cannot be closed has no bound key, and is equal to nothing.
    rcases hx : x.close with e | x'
    · rw [hx] at h
      cases h
    · rcases hy : y.close with e | y'
      · rw [hx, hy] at h
        cases h
      · rw [hx, hy] at h
        exact ⟨x', y', close_eq_ok_iff.1 hx, close_eq_ok_iff.1 hy, of_decide_eq_true h⟩
  · rintro ⟨x', y', rfl, rfl, h⟩
    rw [boundEq, boundKey?_toOpen, boundKey?_toOpen]
    exact decide_eq_true h

/-- Bound expressions are equal as such exactly if their keys are. -/
theorem boundEq_toOpen_iff {y z : BoundExpr S} :
    y.toOpen.boundEq z.toOpen = true ↔ y.boundKey = z.boundKey := by
  rw [boundEq, boundKey?_toOpen, boundKey?_toOpen]
  exact decide_eq_true_iff

/-! ## Names and sets of the open form -/

theorem map_setId?_toOpen (y : BoundExpr S) :
    y.toOpen.vars.map Var.setId? = y.vars.map fun v => some (Identified.id v.set) := by
  rw [toOpen, vars_map, List.map_map]
  rfl

end MeshPath.PathTree
