import MeshPath.Proofs.Expr.Substitution

/-!
# Renaming the ends of an expression

* `exists_rename`: two different names can always be given to the ends, whatever names the
  expression has inside, and the key of the shape stays.
* `keyWith_of_rename`: the sets of a coherent expression stay as well.
* `exists_rename_error`: the ends of a formula cannot be given one name.
-/

namespace MeshPath.PathTree

variable {S : Type} {x y : OpenExpr S} {p q : OpenVar S}

/-! ## New variables for the ends -/

/-- The new variables for the ends of an expression. -/
def newEnds (x : OpenExpr S) (p q : OpenVar S) : Substitution S :=
  [(x.endName .first, replacement (x.endpoint .first) p),
    (x.endName .second, replacement (x.endpoint .second) q)]

@[simp]
theorem name_replacement (old new : OpenVar S) : (replacement old new).name = new.name := by
  unfold replacement
  split
  · split <;> rfl
  · rfl

/-- A new variable without a set takes over that of the end. -/
theorem set_replacement {old new : OpenVar S} (hnew : new.isBound = false) :
    (replacement old new).set = old.set := by
  unfold replacement
  split
  -- The end has a set, which is passed on; without one, the new variable stays without a set.
  · next set hset =>
    rw [hnew]
    exact hset.symm
  · next hset =>
    rw [hset]
    exact Option.isSome_eq_false_iff.1 hnew |> Option.isNone_iff_eq_none.1

/-- Each end is replaced by the new variable for it. -/
theorem apply_newEnds (hne : x.endName .first ≠ x.endName .second) (e : End) :
    (x.newEnds p q).apply (x.endpoint e) = replacement (x.endpoint e) (e.pick p q) := by
  rw [Substitution.apply, newEnds]
  have hname : (x.endpoint e).name = x.endName e := rfl
  rw [hname]
  cases e with
  | first =>
    rw [List.lookup_cons_self]
    rfl
  | second =>
    rw [List.lookup_cons, beq_false_of_ne hne.symm]
    simp only [List.lookup_cons_self]
    rfl

/-- Each end takes the name of the new variable for it. -/
theorem newName_newEnds (hne : x.endName .first ≠ x.endName .second) (e : End) :
    (x.newEnds p q).newName (x.endName e) = (e.pick p q).name := by
  have happly := congrArg Var.name (apply_newEnds (p := p) (q := q) hne e)
  rw [Substitution.name_apply, name_replacement] at happly
  exact happly

/-! ## Renamed expressions -/

variable [Identified S]

/-- Renaming the ends is a substitution for them. -/
theorem rename_eq_substitute (x : OpenExpr S) (p q : OpenVar S) :
    x.rename [p, q] = x.substitute (x.newEnds p q) := rfl

/-- Renaming the ends of an expression to two different names succeeds, gives the ends these names
and leaves the key of the shape as it was. -/
theorem exists_rename (hx : x.WellFormed)
    (hne : x.endName .first ≠ x.endName .second) (hpq : p.name ≠ q.name) :
    ∃ y, x.rename [p, q] = .ok y ∧ y.endName .first = p.name ∧ y.endName .second = q.name ∧
      y.structuralKey = x.structuralKey := by
  have hnew : ∀ e, (x.newEnds p q).newName (x.endName e) = (e.pick p q).name :=
    newName_newEnds hne
  obtain ⟨y, hy⟩ := exists_substitute (σ := x.newEnds p q) hx (by
    rw [hnew, hnew]
    exact hpq)
  have hname : ∀ e, y.endName e = (e.pick p q).name := fun e => by
    rw [endName_of_substitute hy, hnew]
  refine ⟨y, hy, hname .first, hname .second, ?_⟩
  -- The key of the shape records no sets, and as far as that goes every expression is coherent.
  refine keyWith_of_substitute hy hx (coherentBy_const none x) hne ?_ fun e => rfl
  rw [hname, hname]
  exact hpq

/-- If the expression is coherent and the new variables have no set, renaming also keeps the sets,
occurrence by occurrence. -/
theorem keyWith_of_rename (hx : x.WellFormed) (hc : x.Coherent)
    (hne : x.endName .first ≠ x.endName .second) (hpq : p.name ≠ q.name)
    (hp : p.isBound = false) (hq : q.isBound = false) (hy : x.rename [p, q] = .ok y) :
    (y.keyWith fun set => set.map Identified.id) = x.keyWith fun set => set.map Identified.id := by
  rw [rename_eq_substitute] at hy
  have hname : ∀ e, y.endName e = (e.pick p q).name := fun e => by
    rw [endName_of_substitute hy, newName_newEnds hne]
  refine keyWith_of_substitute hy hx hc hne ?_ fun e => ?_
  · rw [hname, hname]
    exact hpq
  · have hunbound : (e.pick p q).isBound = false := by
      cases e
      · exact hp
      · exact hq
    rw [apply_newEnds hne, set_replacement hunbound]

/-- Renaming the ends of a formula to one name fails, whatever the formula is. -/
theorem exists_rename_error (hx : x.WellFormed)
    (hformula : x.connective?.isSome = true) (hpq : p.name = q.name) :
    ∃ text, x.rename [p, q] = .error (.malformedFormula text .equalFreeVars) := by
  have hne : x.endName .first ≠ x.endName .second := by
    cases x with
    | link => cases hformula
    | formula c x y quantified lhs rhs =>
      cases quantified with
      | none => exact (wellFormed_plain_iff.1 hx).1.1
      | some => exact (wellFormed_quantified_iff.1 hx).1.1
  rw [rename_eq_substitute]
  refine exists_substitute_error hx hformula ?_
  rw [newName_newEnds hne, newName_newEnds hne]
  exact hpq

/-! ## Keys of bound expressions -/

/-- The key of an open form by identities is the bound key. -/
theorem keyWith_toOpen (z : BoundExpr S) :
    (z.toOpen.keyWith fun set => set.map Identified.id) = z.boundKey := by
  refine keyWith_eq_iff.2 ⟨shape_toOpen z, binders_toOpen z, ?_⟩
  exact map_setId?_toOpen z

/-- An expression with the key of a bound one is bound. -/
theorem exists_of_keyWith_eq {z : BoundExpr S}
    (h : (y.keyWith fun set => set.map Identified.id) = z.boundKey) :
    ∃ z' : BoundExpr S, y = z'.toOpen ∧ z'.boundKey = z.boundKey := by
  obtain ⟨-, -, hsets⟩ := keyWith_eq_iff.1 h
  -- The key records a set at each occurrence, so each variable has one.
  have hall : y.vars.all (·.isBound) = true := by
    rw [List.all_eq_true]
    intro v hv
    have hmem : v.setId? ∈ z.vars.map fun w => some (Identified.id w.set) := by
      rw [← hsets]
      exact List.mem_map.2 ⟨v, hv, rfl⟩
    obtain ⟨w, -, hw⟩ := List.mem_map.1 hmem
    rw [Var.setId?] at hw
    cases hset : v.set with
    | none =>
      rw [hset] at hw
      cases hw
    | some set =>
      rw [Var.isBound, hset]
      rfl
  obtain ⟨z', rfl⟩ := all_isBound_iff.1 hall
  refine ⟨z', rfl, ?_⟩
  rw [← keyWith_toOpen, h]

end MeshPath.PathTree
