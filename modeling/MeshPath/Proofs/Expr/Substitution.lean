import MeshPath.Proofs.Expr.Binder
import MeshPath.Proofs.Expr.Coherent
import MeshPath.Proofs.Expr.FreshName

/-!
# Substitution

Substitution never captures a variable, and it succeeds whenever the two ends keep different names.

* `Substitution.under`: the substitution below a quantifier. It does what the outer one does to all
  other names (`apply_under_of_ne`), and what it makes of the quantified variable differs from all
  of that (`name_apply_under_ne`).
* `formula_of_substitute`: what a successful substitution makes of a formula. The result has the
  same shape (`shape_of_substitute`).
* `exists_substitute`: substitution succeeds if it keeps the names of the ends apart.
* `keyWith_of_substitute`: a successful substitution does not change the key.
* `exists_substitute_error`: substitution fails at a formula whose ends it makes equal.
-/

namespace MeshPath

namespace Substitution

variable {S : Type} {σ : Substitution S} {v w q : OpenVar S} {taken : List String}

/-! ## Substitutions below a quantifier -/

/-- The name that takes the place of `name`. -/
def newName (σ : Substitution S) (name : String) : String :=
  ((σ.lookup name).map (·.name)).getD name

@[simp]
theorem name_apply (σ : Substitution S) (v : OpenVar S) : (σ.apply v).name = σ.newName v.name := by
  rw [apply, newName]
  cases σ.lookup v.name <;> rfl

theorem mem_of_lookup {name : String} (h : σ.lookup name = some v) : (name, v) ∈ σ := by
  obtain ⟨before, after, rfl, -⟩ := List.lookup_eq_some_iff.1 h
  simp

theorem lookup_without (σ : Substitution S) {name other : String} (h : other ≠ name) :
    (σ.without name).lookup other = σ.lookup other := Bindings.lookup_filter_ne σ h

theorem lookup_without_self (σ : Substitution S) (name : String) :
    (σ.without name).lookup name = none := by
  rw [List.lookup_eq_none_iff]
  intro entry hentry
  have hne : entry.1 ≠ name := by simpa using (List.mem_filter.1 hentry).2
  exact bne_iff_ne.2 hne.symm

/-- The substitution in the operands of a formula that quantifies `q`. If it would capture a new
variable, `q` moves to a name that is neither in `taken` nor in the substitution. -/
def under (σ : Substitution S) (q : OpenVar S) (taken : List String) : Substitution S :=
  if σ.introduces q.name then
    σ.without q.name ++ [(q.name, q.rename (unusedName q.name (taken ++ σ.names)))]
  else σ.without q.name

/-- The substitution in the operands of a formula with the quantified variable `q`, if any. -/
def inside (σ : Substitution S) (q : Option (OpenVar S)) (taken : List String) : Substitution S :=
  match q with
  | none => σ
  | some q => σ.under q taken

/-- Other names fare as outside. -/
theorem apply_under_of_ne (h : v.name ≠ q.name) : (σ.under q taken).apply v = σ.apply v := by
  have hlookup : (σ.under q taken).lookup v.name = σ.lookup v.name := by
    rw [under]
    split
    · rw [List.lookup_append, lookup_without σ h, List.lookup_cons, beq_false_of_ne h]
      simp
    · exact lookup_without σ h
  rw [apply, apply, hlookup]

/-- A quantified variable is moved to an unused name exactly if a replacement has its own. -/
theorem apply_under_self : (σ.under q taken).apply q =
    if σ.introduces q.name then q.rename (unusedName q.name (taken ++ σ.names)) else q := by
  rw [apply, under]
  split
  · rw [List.lookup_append, lookup_without_self, List.lookup_cons]
    simp
  · rw [lookup_without_self]
    rfl

/-- Moving a quantified variable does not change its set. -/
theorem set_apply_under_self : ((σ.under q taken).apply q).set = q.set := by
  rw [apply_under_self]
  split <;> rfl

/-- A name stays, or it becomes one of those that the substitution brings. -/
theorem newName_mem_names_or_eq (σ : Substitution S) (name : String) :
    σ.newName name = name ∨ ∃ new, σ.lookup name = some new ∧ σ.newName name = new.name ∧
      new.name ∈ σ.names := by
  rw [newName]
  cases hlookup : σ.lookup name with
  | none => exact .inl rfl
  | some new =>
    refine .inr ⟨new, rfl, rfl, ?_⟩
    exact List.mem_flatMap.2 ⟨_, mem_of_lookup hlookup, by simp⟩

/-- What becomes of the quantified variable differs from what becomes of any other name. -/
theorem name_apply_under_ne (htaken : v.name ∈ taken) (h : v.name ≠ q.name) :
    ((σ.under q taken).apply q).name ≠ (σ.apply v).name := by
  rw [apply_under_self, name_apply]
  split
  -- The quantified variable moves to a name that nothing else has or gets.
  · next hintroduces =>
    have hunused := unusedName_notMem q.name (taken ++ σ.names)
    intro heq
    apply hunused
    have hname : unusedName q.name (taken ++ σ.names) = σ.newName v.name := heq
    rw [hname]
    rcases newName_mem_names_or_eq σ v.name with hsame | ⟨new, -, hnew, hmem⟩
    · rw [hsame]
      exact List.mem_append_left _ htaken
    · rw [hnew]
      exact List.mem_append_right _ hmem
  -- It stays, since the substitution brings in no variable of its name.
  · next hintroduces =>
    rcases newName_mem_names_or_eq σ v.name with hsame | ⟨new, hlookup, hnew, -⟩
    · rw [hsame]
      exact h.symm
    · rw [hnew]
      intro heq
      exact hintroduces (List.any_eq_true.2
        ⟨_, mem_of_lookup hlookup, decide_eq_true heq.symm⟩)

end Substitution

namespace PathTree

open Success

variable {S : Type} {σ : Substitution S} {x y : OpenExpr S}

/-! ## Names below a quantifier -/

/-- The new ends of an operand that leads between names kept apart differ. -/
theorem Leads.newName_endName_ne {e : End} {a b : String} (hleads : x.Leads e a b)
    (h : σ.newName a ≠ σ.newName b) :
    σ.newName (x.endName .first) ≠ σ.newName (x.endName .second) := by
  obtain ⟨rfl, rfl⟩ := hleads
  cases e
  · exact h
  · exact h.symm

/-- Below a quantifier, other names fare as outside, and the quantified variable gets none of the
names that they get. -/
theorem newName_under {q v : OpenVar S} {taken : List String} (htaken : v.name ∈ taken)
    (hne : q.name ≠ v.name) :
    (σ.under q taken).newName v.name = σ.newName v.name ∧
      (σ.under q taken).newName q.name ≠ (σ.under q taken).newName v.name := by
  rw [← Substitution.name_apply, ← Substitution.name_apply, ← Substitution.name_apply,
    Substitution.apply_under_of_ne hne.symm]
  exact ⟨rfl, Substitution.name_apply_under_ne htaken hne.symm⟩

/-- What the substitution below a quantifier does to the variables of the formula: the free ones
fare as outside, and neither gets the name of the quantified one. -/
theorem newName_under_formula {c : Connective} {x y q : OpenVar S} {lhs rhs : OpenExpr S}
    {inner : Substitution S} (hx : WellFormed (formula c x y (some q) lhs rhs))
    (hinner : inner = σ.under q ((formula c x y (some q) lhs rhs).vars.map (·.name))) :
    (inner.newName x.name = σ.newName x.name ∧ inner.newName q.name ≠ inner.newName x.name) ∧
      inner.newName y.name = σ.newName y.name ∧ inner.newName q.name ≠ inner.newName y.name := by
  obtain ⟨⟨-, hqx, hqy, -⟩, -, -⟩ := wellFormed_quantified_iff.1 hx
  rw [hinner]
  exact ⟨newName_under (by simp [vars]) hqx, newName_under (by simp [vars]) hqy⟩

/-- Below a quantifier, the ends of both operands are kept apart whatever happens outside. -/
theorem newName_operands_ne {c : Connective} {x y q : OpenVar S} {lhs rhs : OpenExpr S}
    {inner : Substitution S} (hx : WellFormed (formula c x y (some q) lhs rhs))
    (hinner : inner = σ.under q ((formula c x y (some q) lhs rhs).vars.map (·.name))) :
    inner.newName (lhs.endName .first) ≠ inner.newName (lhs.endName .second) ∧
      inner.newName (rhs.endName .first) ≠ inner.newName (rhs.endName .second) := by
  obtain ⟨⟨-, hx'⟩, ⟨-, hy'⟩⟩ := newName_under_formula hx hinner
  obtain ⟨⟨-, -, -, hops⟩, -, -⟩ := wellFormed_quantified_iff.1 hx
  rcases hops with ⟨⟨le, hl⟩, ⟨re, hr⟩⟩ | ⟨⟨le, hl⟩, ⟨re, hr⟩⟩
  · exact ⟨hl.newName_endName_ne hx', hr.newName_endName_ne hy'⟩
  · exact ⟨hl.newName_endName_ne hy', hr.newName_endName_ne hx'⟩

/-! ## What substitution keeps around an expression -/

/-- If the new variable for a name agrees with one variable of that name on what `f` says of the
set, it agrees with all that `f` does not tell from it. -/
theorem set_apply_of_name_eq {α : Type} {f : Option S → α} {v w : OpenVar S}
    (hname : w.name = v.name) (hset : f w.set = f v.set) (h : f (σ.apply v).set = f v.set) :
    f (σ.apply w).set = f w.set := by
  rw [Substitution.apply] at h ⊢
  rw [hname]
  cases hlookup : σ.lookup v.name with
  | none => rfl
  | some new =>
    rw [hlookup] at h
    exact h.trans hset.symm

/-- What substitution may not change around an expression: the slots of its ends and what is
recorded of their sets. -/
structure Keeps (f : Option S → Option SetId) (σ : Substitution S) (scope scope' : Scope)
    (v : OpenVar S) : Prop where
  slot : scope'.lookup (σ.newName v.name) = scope.lookup v.name
  set : f (σ.apply v).set = f v.set

/-- A replacement that keeps the number and the set of a variable keeps its slot. -/
theorem Keeps.slot_eq {f : Option S → Option SetId} {scope scope' : Scope} {v : OpenVar S}
    (h : Keeps f σ scope scope' v) (next : Nat) :
    PathTree.slot f scope' next (σ.apply v) = PathTree.slot f scope next v := by
  rw [PathTree.slot, PathTree.slot, Substitution.name_apply, h.slot, h.set]

/-- The ends of an operand are kept if the variables of the formula are. -/
theorem Keeps.endpoint {f : Option S → Option SetId} {scope scope' : Scope}
    {vars : List (OpenVar S)} {o : OpenExpr S} {e : End}
    (h : ∀ v ∈ vars, Keeps f σ scope scope' v) (hname : ∃ v ∈ vars, o.endName e = v.name)
    (hset : ∀ v ∈ vars, o.endName e = v.name → f (o.endpoint e).set = f v.set) :
    Keeps f σ scope scope' (o.endpoint e) := by
  obtain ⟨v, hv, hname⟩ := hname
  have hkeeps := h v hv
  refine ⟨?_, set_apply_of_name_eq hname (hset v hv hname) hkeeps.set⟩
  have hname' : (o.endpoint e).name = v.name := hname
  rw [hname', hkeeps.slot]

/-- If the variables of a coherent formula are kept, so are the ends of its operands, which have
their names and sets. -/
theorem Keeps.operands {f : Option S → Option SetId} {scope scope' : Scope} {c : Connective}
    {x₁ x₂ : OpenVar S} {q : Option (OpenVar S)} {lhs rhs : OpenExpr S}
    (hx : WellFormed (formula c x₁ x₂ q lhs rhs)) (hc : (formula c x₁ x₂ q lhs rhs).CoherentBy f)
    (h : ∀ v ∈ x₁ :: x₂ :: q.toList, Keeps f σ scope scope' v) (e : End) :
    Keeps f σ scope scope' (lhs.endpoint e) ∧ Keeps f σ scope scope' (rhs.endpoint e) :=
  ⟨.endpoint h (exists_endName_eq hx e).1 fun v hv => (hc.1 v hv e).1,
    .endpoint h (exists_endName_eq hx e).2 fun v hv => (hc.1 v hv e).2⟩

/-- The names under a quantifier are kept if those around it are. -/
theorem Keeps.under {f : Option S → Option SetId} {scope scope' : Scope} {v q : OpenVar S}
    {taken : List String} (h : Keeps f σ scope scope' v) (htaken : v.name ∈ taken)
    (hne : q.name ≠ v.name) (next : Nat) :
    Keeps f (σ.under q taken) ((q.name, next) :: scope)
      (((σ.under q taken).newName q.name, next) :: scope') v := by
  obtain ⟨hout, hapart⟩ := newName_under (σ := σ) htaken hne
  constructor
  · rw [List.lookup_cons, beq_false_of_ne hapart.symm, List.lookup_cons, beq_false_of_ne hne.symm,
      hout]
    exact h.slot
  · rw [Substitution.apply_under_of_ne hne.symm]
    exact h.set

/-- Below its quantifier, a quantified variable is kept, moved or not. -/
theorem Keeps.under_self {f : Option S → Option SetId} {scope scope' : Scope} {q : OpenVar S}
    {taken : List String} (next : Nat) :
    Keeps f (σ.under q taken) ((q.name, next) :: scope)
      (((σ.under q taken).newName q.name, next) :: scope') q := by
  constructor
  · rw [List.lookup_cons_self, List.lookup_cons_self]
  · rw [Substitution.set_apply_under_self]

/-- At the root, each end has its own ordinal as its number. -/
theorem lookup_rootScope (hne : x.endName .first ≠ x.endName .second) (e : End) :
    x.rootScope.lookup (x.endName e) = some e.toNat := by
  rw [rootScope, if_neg hne]
  cases e with
  | first =>
    rw [List.lookup_cons, beq_false_of_ne hne]
    exact List.lookup_cons_self
  | second => exact List.lookup_cons_self

/-! ## Substitution keeps the shape of a formula -/

variable [Identified S]

/-- A substitution goes on below a quantified variable, which may have been moved. -/
theorem substitute_quantified (σ : Substitution S) (c : Connective) (x y q : OpenVar S)
    (lhs rhs : OpenExpr S) :
    (formula c x y (some q) lhs rhs).substitute σ = (do
      let inner := σ.under q ((formula c x y (some q) lhs rhs).vars.map (·.name))
      let newLhs ← lhs.substitute inner
      let newRhs ← rhs.substitute inner
      checked (formula c (σ.apply x) (σ.apply y) (some (inner.apply q)) newLhs newRhs)) := by
  simp only [Substitution.apply_under_self]
  rw [substitute, Substitution.under]
  split <;> rfl

/-- What a successful substitution makes of a formula. -/
theorem formula_of_substitute {c : Connective} {x₁ x₂ : OpenVar S} {q : Option (OpenVar S)}
    {lhs rhs : OpenExpr S} (h : (formula c x₁ x₂ q lhs rhs).substitute σ = .ok y) :
    ∃ inner lhs' rhs', inner = σ.inside q ((formula c x₁ x₂ q lhs rhs).vars.map (·.name)) ∧
      lhs.substitute inner = .ok lhs' ∧ rhs.substitute inner = .ok rhs' ∧
        y = formula c (σ.apply x₁) (σ.apply x₂) (q.map inner.apply) lhs' rhs' := by
  cases q with
  | none =>
    obtain ⟨lhs', hl, h⟩ := bind_eq_ok_iff.1 h
    obtain ⟨rhs', hr, h⟩ := bind_eq_ok_iff.1 h
    exact ⟨σ, lhs', rhs', rfl, hl, hr, (checked_eq_ok_iff.1 h).2⟩
  | some q =>
    rw [substitute_quantified] at h
    obtain ⟨lhs', hl, h⟩ := bind_eq_ok_iff.1 h
    obtain ⟨rhs', hr, h⟩ := bind_eq_ok_iff.1 h
    exact ⟨_, lhs', rhs', rfl, hl, hr, (checked_eq_ok_iff.1 h).2⟩

/-- The ends of the result are the new variables for the ends. -/
theorem endpoint_of_substitute (h : x.substitute σ = .ok y) (e : End) :
    y.endpoint e = σ.apply (x.endpoint e) := by
  cases x with
  | link =>
    cases h
    cases e <;> rfl
  | formula =>
    obtain ⟨inner, lhs', rhs', -, -, -, rfl⟩ := formula_of_substitute h
    cases e <;> rfl

/-- The ends take their new names. -/
theorem endName_of_substitute (h : x.substitute σ = .ok y) (e : End) :
    y.endName e = σ.newName (x.endName e) := by
  rw [endName, endpoint_of_substitute h, Substitution.name_apply]
  rfl

/-- Substitution replaces variables and nothing else. -/
theorem shape_of_substitute (h : x.substitute σ = .ok y) : y.shape = x.shape := by
  induction x generalizing σ y with
  | link =>
    cases h
    rfl
  | formula c x₁ x₂ q lhs rhs ihl ihr =>
    obtain ⟨inner, lhs', rhs', -, hl, hr, rfl⟩ := formula_of_substitute h
    exact shape_formula_eq_iff.2 ⟨rfl, by cases q <;> rfl, ihl hl, ihr hr⟩

theorem quantifierCount_of_substitute (h : x.substitute σ = .ok y) :
    y.quantifierCount = x.quantifierCount := quantifierCount_of_shape (shape_of_substitute h)

/-- An expression leads between the new names of the ends that it led between. -/
theorem Leads.substitute {e : End} {a b : String} (hleads : x.Leads e a b)
    (h : x.substitute σ = .ok y) : y.Leads e (σ.newName a) (σ.newName b) := by
  rw [Leads, endName_of_substitute h, endName_of_substitute h, hleads.1, hleads.2]
  exact ⟨rfl, rfl⟩

/-- Substitution succeeds if it keeps the names of the two ends apart. -/
theorem exists_substitute (hx : x.WellFormed)
    (hne : σ.newName (x.endName .first) ≠ σ.newName (x.endName .second)) :
    ∃ y, x.substitute σ = .ok y := by
  -- For every substitution: the operands get the one below the quantifier.
  induction x generalizing σ with
  | link => exact ⟨_, rfl⟩
  | formula c x y q lhs rhs ihl ihr =>
    have hends : σ.newName x.name ≠ σ.newName y.name := hne
    cases q with
    | none =>
      obtain ⟨⟨-, ⟨le, hl⟩, ⟨re, hr⟩⟩, hlhs, hrhs⟩ := wellFormed_plain_iff.1 hx
      obtain ⟨lhs', hl'⟩ := ihl hlhs (hl.newName_endName_ne hends)
      obtain ⟨rhs', hr'⟩ := ihr hrhs (hr.newName_endName_ne hends)
      rw [substitute, hl', hr']
      -- The new operands lead between the new names of the ends, so the result passes the check.
      refine ⟨_, checked_eq_ok_iff.2 ⟨defect?_plain_iff.2 ?_, rfl⟩⟩
      rw [Substitution.name_apply, Substitution.name_apply]
      exact ⟨hends, ⟨le, hl.substitute hl'⟩, ⟨re, hr.substitute hr'⟩⟩
    | some q =>
      obtain ⟨⟨-, -, -, hops⟩, hlhs, hrhs⟩ := wellFormed_quantified_iff.1 hx
      obtain ⟨inner, hinner⟩ :
          ∃ inner, inner = σ.under q ((formula c x y (some q) lhs rhs).vars.map (·.name)) :=
        ⟨_, rfl⟩
      obtain ⟨⟨hx₁, hx₂⟩, ⟨hy₁, hy₂⟩⟩ := newName_under_formula hx hinner
      obtain ⟨hlne, hrne⟩ := newName_operands_ne hx hinner
      obtain ⟨lhs', hl'⟩ := ihl hlhs hlne
      obtain ⟨rhs', hr'⟩ := ihr hrhs hrne
      rw [substitute_quantified, ← hinner]
      simp only [hl', hr']
      refine ⟨_, checked_eq_ok_iff.2 ⟨defect?_quantified_iff.2 ?_, rfl⟩⟩
      simp only [Substitution.name_apply, ← hx₁, ← hy₁]
      refine ⟨by rw [hx₁, hy₁]; exact hends, hx₂, hy₂, ?_⟩
      rcases hops with ⟨⟨le, hl⟩, ⟨re, hr⟩⟩ | ⟨⟨le, hl⟩, ⟨re, hr⟩⟩
      · exact .inl ⟨⟨le, hl.substitute hl'⟩, ⟨re, hr.substitute hr'⟩⟩
      · exact .inr ⟨⟨le, hl.substitute hl'⟩, ⟨re, hr.substitute hr'⟩⟩

/-- Whatever the operands turn into, the check finds that both ends have one name. -/
theorem exists_checked_error {c : Connective} {x y : OpenVar S} (q : Option (OpenVar S))
    (lhs rhs : OpenExpr S) (heq : x.name = y.name) :
    ∃ text, checked (formula c x y q lhs rhs) =
      .error (.malformedFormula text .equalFreeVars) := by
  have hdefect : defect? (formula c x y q lhs rhs) = some .equalFreeVars := if_pos heq
  rw [checked, hdefect]
  exact ⟨_, rfl⟩

/-- An operand whose ends get one name is a link or, if formulas fail, fails. -/
theorem exists_substitute_or_error {e : End} {a b : String} (hleads : x.Leads e a b)
    (heq : σ.newName a = σ.newName b)
    (hformula : x.connective?.isSome = true →
      σ.newName (x.endName .first) = σ.newName (x.endName .second) →
        ∃ text, x.substitute σ = .error (.malformedFormula text .equalFreeVars)) :
    (∃ y, x.substitute σ = .ok y) ∨
      ∃ text, x.substitute σ = .error (.malformedFormula text .equalFreeVars) := by
  obtain ⟨rfl, rfl⟩ := hleads
  cases x with
  | link => exact .inl ⟨_, rfl⟩
  | formula =>
    refine .inr (hformula rfl ?_)
    cases e
    · exact heq
    · exact heq.symm

/-- Substitution fails at a formula if it gives both ends one name. -/
theorem exists_substitute_error (hx : x.WellFormed) (hformula : x.connective?.isSome = true)
    (heq : σ.newName (x.endName .first) = σ.newName (x.endName .second)) :
    ∃ text, x.substitute σ = .error (.malformedFormula text .equalFreeVars) := by
  induction x with
  | link => cases hformula
  | formula c x y q lhs rhs ihl ihr =>
    have hends : (σ.apply x).name = (σ.apply y).name := by
      rw [Substitution.name_apply, Substitution.name_apply]
      exact heq
    cases q with
    | none =>
      obtain ⟨⟨-, ⟨le, hl⟩, ⟨re, hr⟩⟩, hlhs, hrhs⟩ := wellFormed_plain_iff.1 hx
      rw [substitute]
      -- The operands have the same two ends: the first formula among them fails before the check.
      rcases exists_substitute_or_error hl heq (ihl hlhs) with ⟨lhs', hl'⟩ | ⟨text, hl'⟩
      · rcases exists_substitute_or_error hr heq (ihr hrhs) with ⟨rhs', hr'⟩ | ⟨text, hr'⟩
        · rw [hl', hr']
          exact exists_checked_error none lhs' rhs' hends
        · rw [hl', hr']
          exact ⟨text, rfl⟩
      · rw [hl']
        exact ⟨text, rfl⟩
    | some q =>
      -- Each operand has the quantified variable at one end, which is kept apart from the other.
      obtain ⟨-, hlhs, hrhs⟩ := wellFormed_quantified_iff.1 hx
      obtain ⟨hlne, hrne⟩ := newName_operands_ne (σ := σ) hx rfl
      obtain ⟨lhs', hl'⟩ := exists_substitute hlhs hlne
      obtain ⟨rhs', hr'⟩ := exists_substitute hrhs hrne
      rw [substitute_quantified]
      simp only [hl', hr']
      exact exists_checked_error _ lhs' rhs' hends

/-! ## Substitution keeps the key -/

/-- A successful substitution that keeps the ends of a coherent expression keeps its slots. -/
theorem slots_of_substitute {f : Option S → Option SetId} {scope scope' : Scope} {next : Nat}
    (h : x.substitute σ = .ok y) (hx : x.WellFormed) (hc : x.CoherentBy f)
    (hkeeps : ∀ e, Keeps f σ scope scope' (x.endpoint e)) :
    y.slots f scope' next = x.slots f scope next := by
  -- Both scopes grow together under a quantifier, by its old name and by its new one.
  induction x generalizing σ y scope scope' next with
  | link kind source sink =>
    cases h
    have hsource : Keeps f σ scope scope' source := hkeeps .first
    have hsink : Keeps f σ scope scope' sink := hkeeps .second
    rw [slots, slots, hsource.slot_eq, hsink.slot_eq]
  | formula c x₁ x₂ q lhs rhs ihl ihr =>
    have hfirst : Keeps f σ scope scope' x₁ := hkeeps .first
    have hsecond : Keeps f σ scope scope' x₂ := hkeeps .second
    have hcl := hc.2.1
    have hcr := hc.2.2
    cases q with
    | none =>
      obtain ⟨-, hlhs, hrhs⟩ := wellFormed_plain_iff.1 hx
      obtain ⟨inner, lhs', rhs', hinner, hl, hr, rfl⟩ := formula_of_substitute h
      have hsame : inner = σ := hinner
      rw [hsame] at hl hr
      have hvars : ∀ v ∈ x₁ :: x₂ :: (none : Option (OpenVar S)).toList,
          Keeps f σ scope scope' v := by
        simpa using ⟨hfirst, hsecond⟩
      have hends := Keeps.operands hx hc hvars
      rw [Option.map_none, slots, slots, hfirst.slot_eq, hsecond.slot_eq,
        quantifierCount_of_substitute hl, ihl hl hlhs hcl fun e => (hends e).1,
        ihr hr hrhs hcr fun e => (hends e).2]
    | some q =>
      obtain ⟨⟨-, hqx, hqy, -⟩, hlhs, hrhs⟩ := wellFormed_quantified_iff.1 hx
      obtain ⟨inner, lhs', rhs', hinner, hl, hr, rfl⟩ := formula_of_substitute h
      -- Only membership in the list of taken names counts from here on.
      obtain ⟨taken, htaken⟩ : ∃ taken,
          taken = (formula c x₁ x₂ (some q) lhs rhs).vars.map (·.name) := ⟨_, rfl⟩
      have hunder : inner = σ.under q taken := by rw [hinner, htaken]; rfl
      rw [hunder] at hl hr ⊢
      have hmem : x₁.name ∈ taken ∧ x₂.name ∈ taken := by simp [htaken, vars]
      have hvars : ∀ v ∈ x₁ :: x₂ :: (some q).toList,
          Keeps f (σ.under q taken) ((q.name, next) :: scope)
            (((σ.under q taken).newName q.name, next) :: scope') v := by
        simpa using ⟨hfirst.under hmem.1 hqx next, hsecond.under hmem.2 hqy next,
          Keeps.under_self next⟩
      have hends := Keeps.operands hx hc hvars
      -- The quantifier keeps its slot and its set, and both operands are kept below it.
      rw [Option.map_some, slots, slots, hfirst.slot_eq, hsecond.slot_eq,
        quantifierCount_of_substitute hl, Substitution.name_apply,
        Substitution.set_apply_under_self, ihl hl hlhs hcl fun e => (hends e).1,
        ihr hr hrhs hcr fun e => (hends e).2]

/-- A successful substitution that keeps apart the ends of a coherent expression keeps its key. -/
theorem keyWith_of_substitute {f : Option S → Option SetId} (h : x.substitute σ = .ok y)
    (hx : x.WellFormed) (hc : x.CoherentBy f) (hne : x.endName .first ≠ x.endName .second)
    (hne' : y.endName .first ≠ y.endName .second)
    (hset : ∀ e, f (σ.apply (x.endpoint e)).set = f (x.endpoint e).set) :
    y.keyWith f = x.keyWith f := by
  have hlength : y.rootScope.length = x.rootScope.length := by
    rw [rootScope, rootScope, if_neg hne, if_neg hne']
    rfl
  rw [keyWith, keyWith, hlength]
  -- The old and the new name of an end have its number as their slot.
  refine slots_of_substitute h hx hc fun e => ⟨?_, hset e⟩
  show y.rootScope.lookup (σ.newName (x.endName e)) = x.rootScope.lookup (x.endName e)
  rw [← endName_of_substitute h, lookup_rootScope hne, lookup_rootScope hne']

end PathTree

end MeshPath
