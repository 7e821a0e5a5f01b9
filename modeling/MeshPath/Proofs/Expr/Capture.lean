import MeshPath.Proofs.Expr.Binding

/-!
# Names under a function

Names of variables may be replaced by any function, which may give several of them one name. If an
expression passes the check of formulas before and after, no occurrence has come under another
quantifier.

* `wellFormed_map_of_injOn`: an expression stays well formed if its names stay apart.
* `bindersIn_map`, `binders_map_of_formula`: an expression that stays well formed keeps its binders,
  whatever names are merged.
-/

namespace MeshPath.PathTree

variable {S T : Type} {g : String → String} {f : Var S → Var T}

/-- A map that acts on names acts so on the names of the ends. -/
theorem endName_map_eq (hf : ∀ v, (f v).name = g v.name) (x : PathExpr S) (e : End) :
    (x.map f).endName e = g (x.endName e) := by
  rw [endName, endpoint_map, hf, endName]

/-- An expression leads between the new names where it led between the old ones. -/
theorem Leads.map (hf : ∀ v, (f v).name = g v.name) {x : PathExpr S} {e : End} {a b : String}
    (h : x.Leads e a b) : (x.map f).Leads e (g a) (g b) :=
  ⟨by rw [endName_map_eq hf, h.1], by rw [endName_map_eq hf, h.2]⟩

/-- An expression whose names stay apart stays well formed. -/
theorem wellFormed_map_of_injOn (hf : ∀ v, (f v).name = g v.name) {x : PathExpr S}
    (hx : x.WellFormed)
    (hg : ∀ v ∈ x.vars, ∀ w ∈ x.vars, g v.name = g w.name → v.name = w.name) :
    (x.map f).WellFormed := by
  induction x with
  | link => trivial
  | formula c x y q lhs rhs ihl ihr =>
    have hl := ihl hx.2.1 fun v hv w hw => hg v (mem_vars_of_lhs hv) w (mem_vars_of_lhs hw)
    have hr := ihr hx.2.2 fun v hv w hw => hg v (mem_vars_of_rhs hv) w (mem_vars_of_rhs hw)
    have hne : ∀ v ∈ x :: y :: q.toList, ∀ w ∈ x :: y :: q.toList, v.name ≠ w.name →
        (f v).name ≠ (f w).name := by
      intro v hv w hw hvw heq
      rw [hf, hf] at heq
      exact hvw (hg v (List.mem_append_left (lhs.vars ++ rhs.vars) hv) w
        (List.mem_append_left (lhs.vars ++ rhs.vars) hw) heq)
    have hleads : ∀ {o : PathExpr S} {a b : Var S}, (∃ e, o.Leads e a.name b.name) →
        ∃ e, (o.map f).Leads e (f a).name (f b).name := by
      rintro o a b ⟨e, h⟩
      rw [hf, hf]
      exact ⟨e, h.map hf⟩
    cases q with
    | none =>
      obtain ⟨⟨hxy, hlhs, hrhs⟩, -, -⟩ := wellFormed_plain_iff.1 hx
      exact wellFormed_plain_iff.2
        ⟨⟨hne x (by simp) y (by simp) hxy, hleads hlhs, hleads hrhs⟩, hl, hr⟩
    | some q =>
      obtain ⟨⟨hxy, hqx, hqy, hhops⟩, -, -⟩ := wellFormed_quantified_iff.1 hx
      refine wellFormed_quantified_iff.2 ⟨⟨hne x (by simp) y (by simp) hxy,
        hne q (by simp) x (by simp) hqx, hne q (by simp) y (by simp) hqy, ?_⟩, hl, hr⟩
      exact hhops.imp (.imp hleads hleads) (.imp hleads hleads)

/-- If two scopes agree on the variables of a formula, they agree on the ends of its operands. -/
theorem lookup_endName_operands {c : Connective} {x y : Var S} {q : Option (Var S)}
    {lhs rhs : PathExpr S} (h : WellFormed (formula c x y q lhs rhs))
    {bs bs' : List (String × Binder)}
    (hscope : ∀ v ∈ x :: y :: q.toList, bs'.lookup (g v.name) = bs.lookup v.name) :
    (∀ e, bs'.lookup (g (lhs.endName e)) = bs.lookup (lhs.endName e)) ∧
      ∀ e, bs'.lookup (g (rhs.endName e)) = bs.lookup (rhs.endName e) := by
  constructor
  · intro e
    obtain ⟨v, hv, hname⟩ := (exists_endName_eq h e).1
    rw [hname]
    exact hscope v hv
  · intro e
    obtain ⟨v, hv, hname⟩ := (exists_endName_eq h e).2
    rw [hname]
    exact hscope v hv

/-- An expression that is well formed before and after keeps its binders, if its ends do. Names
may be merged: the check keeps the variables of every formula apart, and at the ends of its operands
there are no other ones. -/
theorem bindersIn_map (hf : ∀ v, (f v).name = g v.name) {x : PathExpr S} (hx : x.WellFormed)
    (hmap : (x.map f).WellFormed) {bs bs' : List (String × Binder)} (place : Place)
    (hends : ∀ e, bs'.lookup (g (x.endName e)) = bs.lookup (x.endName e)) :
    (x.map f).bindersIn bs' place = x.bindersIn bs place := by
  induction x generalizing bs bs' place with
  | link kind source sink =>
    have hsource : bs'.lookup (g source.name) = bs.lookup source.name := hends .first
    have hsink : bs'.lookup (g sink.name) = bs.lookup sink.name := hends .second
    rw [PathTree.map, bindersIn, bindersIn, hf, hf, hsource, hsink]
  | formula c x y q lhs rhs ihl ihr =>
    have hfirst : bs'.lookup (g x.name) = bs.lookup x.name := hends .first
    have hsecond : bs'.lookup (g y.name) = bs.lookup y.name := hends .second
    cases q with
    | none =>
      have hfree : ∀ v ∈ [x, y], bs'.lookup (g v.name) = bs.lookup v.name := by
        simp [hfirst, hsecond]
      obtain ⟨hl, hr⟩ := lookup_endName_operands hx hfree
      rw [PathTree.map, Option.map_none, bindersIn_plain, bindersIn_plain, hf, hf, hfirst, hsecond,
        ihl hx.2.1 hmap.2.1 _ hl, ihr hx.2.2 hmap.2.2 _ hr]
    | some q =>
      obtain ⟨⟨-, hqx, hqy, -⟩, -, -⟩ := wellFormed_quantified_iff.1 hx
      obtain ⟨⟨-, hqx', hqy', -⟩, -, -⟩ := wellFormed_quantified_iff.1 hmap
      rw [hf, hf] at hqx' hqy'
      -- The quantifier hides the names around it that are its own, before and after, but neither
      -- of the free variables.
      have hpush : ∀ v ∈ [x, y, q],
          List.lookup (g v.name) ((g q.name, Binder.quantifier place) :: bs') =
            List.lookup v.name ((q.name, Binder.quantifier place) :: bs) := by
        simp [List.lookup_cons, beq_false_of_ne hqx.symm, beq_false_of_ne hqy.symm,
          beq_false_of_ne hqx'.symm, beq_false_of_ne hqy'.symm, hfirst, hsecond]
      obtain ⟨hl, hr⟩ := lookup_endName_operands hx hpush
      rw [PathTree.map, Option.map_some, bindersIn_quantified, bindersIn_quantified, hf, hf, hf,
        hfirst, hsecond, ihl hx.2.1 hmap.2.1 _ hl, ihr hx.2.2 hmap.2.2 _ hr]

/-- Ends of different names are found by them. -/
theorem lookup_rootBinders {x : PathExpr S} (h : x.endName .first ≠ x.endName .second) (e : End) :
    x.rootBinders.lookup (x.endName e) = some (.root e) := by
  cases e with
  | first => rw [rootBinders, List.lookup_cons_self]
  | second => rw [rootBinders, List.lookup_cons, beq_false_of_ne h.symm, List.lookup_cons_self]

/-- A formula that is well formed before and after keeps its binders. -/
theorem binders_map_of_formula (hf : ∀ v, (f v).name = g v.name) {x : PathExpr S}
    (hx : x.WellFormed) (hmap : (x.map f).WellFormed) (hformula : x.connective?.isSome = true) :
    (x.map f).binders = x.binders := by
  have hformula' : (x.map f).connective?.isSome = true := by
    cases x with
    | link => cases hformula
    | formula => rfl
  refine bindersIn_map hf hx hmap [] fun e => ?_
  rw [lookup_rootBinders (names_ne_of_formula hx hformula .first), ← endName_map_eq hf,
    lookup_rootBinders (names_ne_of_formula hmap hformula' .first)]

end MeshPath.PathTree
