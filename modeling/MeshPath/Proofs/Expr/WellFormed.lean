import MeshPath.Expr.Bind
import MeshPath.Expr.Rename
import MeshPath.Proofs.Success

/-!
# Well-formed expressions

What the check of a formula says about the ends of its operands, in the form in which the other
proofs use it, and which expressions pass it.

* `Leads x e a b`: read from its end `e`, the expression `x` leads from the name `a` to `b`.
* `wellFormed_plain_iff`, `wellFormed_quantified_iff`: a formula is well formed exactly if its
  operands lead from one of its variables to another in the two supported ways.
* `exists_endName_eq`: the ends of the operands of a well-formed formula are among its variables.
  `names_ne_of_formula`: its own ends have different names.
* `wellFormed_map`: whether an expression is well formed depends on its names alone.
* `exists_ends`, `exists_hops`: with one end as the source of the rows, both operands of a formula
  without a quantified variable lead from source to sink. With one, the operand `near` leads from
  the source to the quantified variable and `far` from there to the sink.
* `constructible_iff_wellFormed`: the expressions that the operations of this library can give are
  the well-formed ones.
-/

namespace MeshPath

namespace End

@[simp]
theorem other_other (e : End) : e.other.other = e := by cases e <;> rfl

/-- An end is the given one or the opposite one. -/
theorem eq_or_eq_other (e f : End) : e = f ∨ e = f.other := by
  cases e <;> cases f <;> simp [other]

theorem eq_toNat_of_ofNat? {n : Nat} {e : End} (h : ofNat? n = some e) : n = e.toNat := by
  unfold ofNat? at h
  split at h
  · cases h
    rfl
  · cases h
    rfl
  · cases h

theorem ofNat?_eq_none_iff {n : Nat} : ofNat? n = none ↔ 2 ≤ n := by
  rcases n with _ | _ | n <;> simp [ofNat?]

/-- A property of both ends is decided end by end. -/
instance {p : End → Prop} [DecidablePred p] : Decidable (∀ e, p e) :=
  decidable_of_iff (p .first ∧ p .second)
    ⟨fun h e => match e with
      | .first => h.1
      | .second => h.2, fun h => ⟨h .first, h .second⟩⟩

/-- If two variables have different names, so have those that stand at different ends. -/
theorem name_pick_ne {S : Type} {x y : Var S} (h : x.name ≠ y.name) (e : End) :
    (e.pick x y).name ≠ (e.other.pick x y).name := by
  cases e
  · exact h
  · exact h.symm

end End

namespace PathTree

open Success

variable {S : Type}

instance decidableWellFormed : (x : PathExpr S) → Decidable x.WellFormed
  | link _ _ _ => isTrue trivial
  | formula c x y q lhs rhs =>
    have := decidableWellFormed lhs
    have := decidableWellFormed rhs
    inferInstanceAs (Decidable (defect? (formula c x y q lhs rhs) = none ∧ _ ∧ _))

/-- Read from its end `e`, the expression leads from `a` to `b`. -/
def Leads (x : PathExpr S) (e : End) (a b : String) : Prop :=
  x.endName e = a ∧ x.endName e.other = b

/-- From its other end, an expression leads back. -/
theorem Leads.other {x : PathExpr S} {e : End} {a b : String} (h : x.Leads e a b) :
    x.Leads e.other b a := ⟨h.2, by rw [End.other_other]; exact h.1⟩

/-- The end at which a name stands is found by this name. -/
theorem Leads.endNamed?_eq_some {x : PathExpr S} {e : End} {a b : String} (h : x.Leads e a b)
    (hne : a ≠ b) : x.endNamed? a = some e := by
  obtain ⟨ha, hb⟩ := h
  cases e with
  | first => exact if_pos ha
  | second =>
    have hfirst : x.endName .first ≠ a := fun h => hne (h.symm.trans hb)
    rw [endNamed?, if_neg hfirst, if_pos ha]

/-- A name that stands at neither end is not found. -/
theorem Leads.endNamed?_eq_none {x : PathExpr S} {e : End} {a b c : String} (h : x.Leads e a b)
    (ha : c ≠ a) (hb : c ≠ b) : x.endNamed? c = none := by
  have hend : ∀ f : End, x.endName f ≠ c := by
    intro f
    rcases End.eq_or_eq_other f e with rfl | rfl
    · rw [h.1]; exact ha.symm
    · rw [h.2]; exact hb.symm
  rw [endNamed?, if_neg (hend .first), if_neg (hend .second)]

/-- An expression relates two names if it leads from one to the other from some end. -/
theorem relates_iff {x : PathExpr S} {a b : String} :
    x.relates a b = true ↔ ∃ e, x.Leads e a b := by
  have hends : (∃ e, x.Leads e a b) ↔ x.Leads .first a b ∨ x.Leads .second a b := by
    constructor
    · rintro ⟨e, h⟩
      cases e
      · exact .inl h
      · exact .inr h
    · rintro (h | h)
      · exact ⟨.first, h⟩
      · exact ⟨.second, h⟩
  rw [hends]
  simp [relates, Leads, End.other, and_comm]

/-- The far end from a name is another name that the expression leads to. -/
theorem farEnd?_eq_some_iff {x : PathExpr S} {q n : String} :
    x.farEnd? q = some n ↔ n ≠ q ∧ ∃ e, x.Leads e q n := by
  rw [← relates_iff]
  simp only [farEnd?, relates, Bool.or_eq_true, Bool.and_eq_true, decide_eq_true_eq]
  -- Both sides are decided by which of the two ends are named `q`.
  by_cases hfirst : x.endName .first = q <;> by_cases hsecond : x.endName .second = q <;>
    simp [hfirst, hsecond] <;> grind

/-! ## The two shapes of a formula -/

/-- Without a quantified variable, both operands have to relate the two ends. -/
theorem defect?_plain_iff {c : Connective} {x y : Var S} {lhs rhs : PathExpr S} :
    defect? (formula c x y none lhs rhs) = none ↔
      x.name ≠ y.name ∧ (∃ e, lhs.Leads e x.name y.name) ∧ ∃ e, rhs.Leads e x.name y.name := by
  rw [← relates_iff, ← relates_iff]
  by_cases hxy : x.name = y.name
  · simp [defect?, hxy]
  · by_cases hl : lhs.relates x.name y.name <;> by_cases hr : rhs.relates x.name y.name <;>
      simp [defect?, hxy, hl, hr]

/-- Under a quantified variable, one operand has to lead from it to each end, and all three names
have to differ. -/
theorem defect?_quantified_iff {c : Connective} {x y q : Var S} {lhs rhs : PathExpr S} :
    defect? (formula c x y (some q) lhs rhs) = none ↔
      x.name ≠ y.name ∧ q.name ≠ x.name ∧ q.name ≠ y.name ∧
        (((∃ e, lhs.Leads e q.name x.name) ∧ ∃ e, rhs.Leads e q.name y.name) ∨
          ((∃ e, lhs.Leads e q.name y.name) ∧ ∃ e, rhs.Leads e q.name x.name)) := by
  by_cases hxy : x.name = y.name
  · simp [defect?, hxy]
  by_cases hq : q.name = x.name ∨ q.name = y.name
  · rcases hq with hq | hq <;> simp [defect?, hxy, hq]
  obtain ⟨hqx, hqy⟩ := not_or.1 hq
  -- Neither free variable is the quantified one, so a far end is one of them exactly if the
  -- operand leads there.
  have hfar : ∀ (o : PathExpr S) {n : String}, q.name ≠ n →
      (o.farEnd? q.name = some n ↔ ∃ e, o.Leads e q.name n) := fun o n hn => by
    rw [farEnd?_eq_some_iff]
    exact and_iff_right hn.symm
  rw [← hfar lhs hqx, ← hfar lhs hqy, ← hfar rhs hqx, ← hfar rhs hqy]
  cases hl : lhs.farEnd? q.name <;> cases hr : rhs.farEnd? q.name <;>
    simp [defect?, hxy, hqx, hqy, hl, hr]
  rw [← not_and]
  exact Decidable.or_iff_not_imp_left.symm

/-- A formula without a quantified variable is well-formed if it passes the check and its operands
are. -/
theorem wellFormed_plain_iff {c : Connective} {x y : Var S} {lhs rhs : PathExpr S} :
    WellFormed (formula c x y none lhs rhs) ↔
      (x.name ≠ y.name ∧ (∃ e, lhs.Leads e x.name y.name) ∧ ∃ e, rhs.Leads e x.name y.name) ∧
        lhs.WellFormed ∧ rhs.WellFormed := by
  rw [WellFormed, defect?_plain_iff]

/-- A quantified formula is well-formed if it passes the check and its operands are. -/
theorem wellFormed_quantified_iff {c : Connective} {x y q : Var S} {lhs rhs : PathExpr S} :
    WellFormed (formula c x y (some q) lhs rhs) ↔
      (x.name ≠ y.name ∧ q.name ≠ x.name ∧ q.name ≠ y.name ∧
        (((∃ e, lhs.Leads e q.name x.name) ∧ ∃ e, rhs.Leads e q.name y.name) ∨
          ((∃ e, lhs.Leads e q.name y.name) ∧ ∃ e, rhs.Leads e q.name x.name))) ∧
        lhs.WellFormed ∧ rhs.WellFormed := by
  rw [WellFormed, defect?_quantified_iff]

/-- Every end of an operand is a variable of the formula. -/
theorem exists_endName_eq {c : Connective} {x y : Var S} {q : Option (Var S)}
    {lhs rhs : PathExpr S} (h : WellFormed (formula c x y q lhs rhs)) (e : End) :
    (∃ v ∈ x :: y :: q.toList, lhs.endName e = v.name) ∧
      ∃ v ∈ x :: y :: q.toList, rhs.endName e = v.name := by
  have hmem : ∀ {o : PathExpr S} {a b : Var S} {e' : End}, a ∈ x :: y :: q.toList →
      b ∈ x :: y :: q.toList → o.Leads e' a.name b.name →
        ∃ v ∈ x :: y :: q.toList, o.endName e = v.name := by
    intro o a b e' ha hb hleads
    rcases End.eq_or_eq_other e e' with rfl | rfl
    · exact ⟨a, ha, hleads.1⟩
    · exact ⟨b, hb, hleads.2⟩
  cases q with
  | none =>
    obtain ⟨⟨-, ⟨le, hl⟩, ⟨re, hr⟩⟩, -, -⟩ := wellFormed_plain_iff.1 h
    exact ⟨hmem (by simp) (by simp) hl, hmem (by simp) (by simp) hr⟩
  | some q =>
    obtain ⟨⟨-, -, -, hops⟩, -, -⟩ := wellFormed_quantified_iff.1 h
    rcases hops with ⟨⟨le, hl⟩, ⟨re, hr⟩⟩ | ⟨⟨le, hl⟩, ⟨re, hr⟩⟩
    · exact ⟨hmem (by simp) (by simp) hl, hmem (by simp) (by simp) hr⟩
    · exact ⟨hmem (by simp) (by simp) hl, hmem (by simp) (by simp) hr⟩

/-- The two ends of a well-formed formula have different names. -/
theorem source_ne_sink {c : Connective} {x y : Var S} {q : Option (Var S)} {lhs rhs : PathExpr S}
    (h : WellFormed (formula c x y q lhs rhs)) (rows : End) :
    (rows.pick x y).name ≠ (rows.other.pick x y).name := by
  refine End.name_pick_ne ?_ rows
  cases q with
  | none => exact (wellFormed_plain_iff.1 h).1.1
  | some q => exact (wellFormed_quantified_iff.1 h).1.1

/-- The ends of a formula have different names. Only those of a link may have one. -/
theorem names_ne_of_formula {x : PathExpr S} (hx : x.WellFormed)
    (hformula : x.connective?.isSome = true) (e : End) : x.endName e ≠ x.endName e.other := by
  cases x with
  | link => cases hformula
  | formula c x y q lhs rhs => exact source_ne_sink hx e

/-! ## Replaced variables -/

section Map

variable {T : Type} {f : Var S → Var T}

/-- A map that keeps names keeps those of the ends. -/
theorem endName_map (hf : ∀ v, (f v).name = v.name) (x : PathExpr S) (e : End) :
    (x.map f).endName e = x.endName e := by
  rw [endName, endpoint_map, hf, endName]

/-- The check reads nothing but names. -/
theorem wellFormed_map (hf : ∀ v, (f v).name = v.name) {x : PathExpr S} :
    (x.map f).WellFormed ↔ x.WellFormed := by
  induction x with
  | link => exact Iff.rfl
  | formula c x y q lhs rhs ihl ihr =>
    have hdefect : defect? ((formula c x y q lhs rhs).map f) =
        defect? (formula c x y q lhs rhs) := by
      cases q <;> simp [map, defect?, relates, farEnd?, endName_map hf, hf]
    rw [WellFormed, ← hdefect, ← ihl, ← ihr]
    rfl

end Map

/-! ## Operands read from one end -/

/-- The operand that has the source at an end: the first hop. -/
def near (lhs rhs : PathExpr S) (source : String) : PathExpr S :=
  if (lhs.endNamed? source).isSome then lhs else rhs

/-- The other operand: the second hop. -/
def far (lhs rhs : PathExpr S) (source : String) : PathExpr S :=
  if (lhs.endNamed? source).isSome then rhs else lhs

/-- The hops of a formula are its operands, in one order or the other. -/
theorem near_far_eq (lhs rhs : PathExpr S) (source : String) :
    near lhs rhs source = lhs ∧ far lhs rhs source = rhs ∨
      near lhs rhs source = rhs ∧ far lhs rhs source = lhs := by
  rw [near, far]
  split
  · exact .inl ⟨rfl, rfl⟩
  · exact .inr ⟨rfl, rfl⟩

/-- Without a quantified variable, both operands lead from the source to the sink. -/
theorem exists_ends {c : Connective} {x y : Var S} {lhs rhs : PathExpr S}
    (h : WellFormed (formula c x y none lhs rhs)) (rows : End) :
    ∃ le re, lhs.Leads le (rows.pick x y).name (rows.other.pick x y).name ∧
      rhs.Leads re (rows.pick x y).name (rows.other.pick x y).name := by
  obtain ⟨⟨-, ⟨le, hl⟩, ⟨re, hr⟩⟩, -, -⟩ := wellFormed_plain_iff.1 h
  -- Read from the second end, each operand is entered at its opposite end.
  cases rows with
  | first => exact ⟨le, re, hl, hr⟩
  | second => exact ⟨le.other, re.other, hl.other, hr.other⟩

/-- With a quantified variable, `near` leads from the source to it and `far` from it to the
sink. -/
theorem exists_hops {c : Connective} {x y q : Var S} {lhs rhs : PathExpr S}
    (h : WellFormed (formula c x y (some q) lhs rhs)) (rows : End) :
    ∃ ne fe, (near lhs rhs (rows.pick x y).name).Leads ne (rows.pick x y).name q.name ∧
      (far lhs rhs (rows.pick x y).name).Leads fe q.name (rows.other.pick x y).name := by
  obtain ⟨⟨hxy, hqx, hqy, hops⟩, -, -⟩ := wellFormed_quantified_iff.1 h
  have hsource : q.name ≠ (rows.pick x y).name := by cases rows <;> assumption
  have hne : (rows.pick x y).name ≠ (rows.other.pick x y).name :=
    End.name_pick_ne hxy rows
  -- One operand reaches the source, the other one the sink, whichever comes first.
  have hsides : ((∃ e, lhs.Leads e q.name (rows.pick x y).name) ∧
        ∃ e, rhs.Leads e q.name (rows.other.pick x y).name) ∨
      ((∃ e, lhs.Leads e q.name (rows.other.pick x y).name) ∧
        ∃ e, rhs.Leads e q.name (rows.pick x y).name) := by
    cases rows
    · exact hops
    · exact hops.symm
  rcases hsides with ⟨⟨le, hl⟩, ⟨re, hr⟩⟩ | ⟨⟨le, hl⟩, ⟨re, hr⟩⟩
  · have hfound : (lhs.endNamed? (rows.pick x y).name).isSome = true := by
      rw [hl.other.endNamed?_eq_some hsource.symm]; rfl
    rw [near, far, if_pos hfound, if_pos hfound]
    exact ⟨le.other, re, hl.other, hr⟩
  · have hmissing : ¬ (lhs.endNamed? (rows.pick x y).name).isSome = true := by
      rw [hl.endNamed?_eq_none hsource.symm hne]; simp
    rw [near, far, if_neg hmissing, if_neg hmissing]
    exact ⟨re.other, le, hr.other, hl⟩

/-! ## What the operations give -/

variable [Identified S]

/-- The expressions that the operations on expressions can give. The callback of `mapVars` may keep
a state between its calls. -/
inductive Constructible : OpenExpr S → Prop
  | link (kind : LinkKind) (source sink : OpenVar S) : Constructible (link kind source sink)
  | formula {c : Connective} {free quantified : List (OpenVar S)} {lhs rhs x : OpenExpr S} :
      Constructible lhs → Constructible rhs → formula? c free quantified lhs rhs = .ok x →
        Constructible x
  | bind {x y : OpenExpr S} {table : Bindings S} :
      Constructible x → x.bind table = .ok y → Constructible y
  | rename {x y : OpenExpr S} {new : List (OpenVar S)} :
      Constructible x → x.rename new = .ok y → Constructible y
  | mapVars {x y : OpenExpr S} {T : Type} {f : OpenVar S → ExceptT PathError (StateM T) (OpenVar S)}
      {before after : T} :
      Constructible x → (x.mapVars f).run.run before = (.ok y, after) → Constructible y

/-- The constructor of formulas checks what it makes. -/
theorem wellFormed_of_formula? {c : Connective} {free quantified : List (OpenVar S)}
    {lhs rhs x : OpenExpr S} (hl : lhs.WellFormed) (hr : rhs.WellFormed)
    (h : formula? c free quantified lhs rhs = .ok x) : x.WellFormed := by
  unfold formula? at h
  split at h
  · obtain ⟨hcheck, rfl⟩ := checked_eq_ok_iff.1 h
    exact ⟨hcheck, hl, hr⟩
  · obtain ⟨hcheck, rfl⟩ := checked_eq_ok_iff.1 h
    exact ⟨hcheck, hl, hr⟩
  · cases h
  · cases h

/-- A callback gives well-formed expressions only, since every formula is checked again. -/
theorem wellFormed_of_mapVars {T : Type} {f : OpenVar S → ExceptT PathError (StateM T) (OpenVar S)}
    {x y : OpenExpr S} {before after : T}
    (h : (x.mapVars f).run.run before = (.ok y, after)) : y.WellFormed := by
  induction x generalizing y before after with
  | link kind source sink =>
    obtain ⟨source', _, -, h⟩ := run_bind_eq_ok h
    obtain ⟨sink', _, -, h⟩ := run_bind_eq_ok h
    cases h
    trivial
  | formula c x y q lhs rhs ihl ihr =>
    -- The callback may give any variables: only the check at the end counts.
    obtain ⟨x', _, -, h⟩ := run_bind_eq_ok h
    obtain ⟨y', _, -, h⟩ := run_bind_eq_ok h
    obtain ⟨q', _, -, h⟩ := run_bind_eq_ok h
    obtain ⟨lhs', _, hl, h⟩ := run_bind_eq_ok h
    obtain ⟨rhs', _, hr, h⟩ := run_bind_eq_ok h
    have hcheck : checked (.formula c x' y' q' lhs' rhs') = .ok _ := congrArg Prod.fst h
    obtain ⟨hdefect, rfl⟩ := checked_eq_ok_iff.1 hcheck
    exact ⟨hdefect, ihl hl, ihr hr⟩

theorem bind_link (table : Bindings S) (kind : LinkKind) (source sink : OpenVar S) :
    bind table (link kind source sink) = (do
      let source ← bindVar table source
      let sink ← bindVar table sink
      return link kind source sink) := by
  simp only [bind, mapVars, run_bind_id]
  rfl

/-- A formula is bound from its ends inwards, and checked again. -/
theorem bind_formula (table : Bindings S) (c : Connective) (x y : OpenVar S)
    (q : Option (OpenVar S)) (lhs rhs : OpenExpr S) :
    bind table (formula c x y q lhs rhs) = (do
      let x ← bindVar table x
      let y ← bindVar table y
      let q ← q.mapM (bindVar table)
      let lhs ← lhs.bind table
      let rhs ← rhs.bind table
      checked (formula c x y q lhs rhs)) := by
  have hq : Id.run (q.mapM fun v => ExceptT.mk (pure (bindVar table v))).run =
      q.mapM (bindVar table) := by
    cases q with
    | none => rfl
    | some q =>
      rw [Option.mapM_some, Option.mapM_some]
      cases bindVar table q <;> rfl
  simp only [bind, mapVars, run_bind_id, hq]
  rfl

/-- Binding gives well-formed expressions only. -/
theorem wellFormed_of_bind {table : Bindings S} {x y : OpenExpr S} (h : x.bind table = .ok y) :
    y.WellFormed := by
  induction x generalizing y with
  | link kind source sink =>
    rw [bind_link] at h
    obtain ⟨source', -, h⟩ := bind_eq_ok_iff.1 h
    obtain ⟨sink', -, h⟩ := bind_eq_ok_iff.1 h
    cases h
    trivial
  | formula c x y q lhs rhs ihl ihr =>
    rw [bind_formula] at h
    obtain ⟨x', -, h⟩ := bind_eq_ok_iff.1 h
    obtain ⟨y', -, h⟩ := bind_eq_ok_iff.1 h
    obtain ⟨q', -, h⟩ := bind_eq_ok_iff.1 h
    obtain ⟨lhs', hl, h⟩ := bind_eq_ok_iff.1 h
    obtain ⟨rhs', hr, h⟩ := bind_eq_ok_iff.1 h
    obtain ⟨hdefect, rfl⟩ := checked_eq_ok_iff.1 h
    exact ⟨hdefect, ihl hl, ihr hr⟩

/-- Whatever the names and sets that a substitution brings in, its result has passed the check. -/
theorem wellFormed_of_substitute {σ : Substitution S} {x y : OpenExpr S}
    (h : x.substitute σ = .ok y) : y.WellFormed := by
  induction x generalizing σ y with
  | link kind source sink =>
    cases h
    trivial
  | formula c x y q lhs rhs ihl ihr =>
    cases q with
    | none =>
      obtain ⟨lhs', hl, h⟩ := bind_eq_ok_iff.1 h
      obtain ⟨rhs', hr, h⟩ := bind_eq_ok_iff.1 h
      obtain ⟨hdefect, rfl⟩ := checked_eq_ok_iff.1 h
      exact ⟨hdefect, ihl hl, ihr hr⟩
    | some q =>
      rw [substitute] at h
      split at h
      all_goals
        obtain ⟨lhs', hl, h⟩ := bind_eq_ok_iff.1 h
        obtain ⟨rhs', hr, h⟩ := bind_eq_ok_iff.1 h
        obtain ⟨hdefect, rfl⟩ := checked_eq_ok_iff.1 h
        exact ⟨hdefect, ihl hl, ihr hr⟩

/-- Renaming gives well-formed expressions only. -/
theorem wellFormed_of_rename {x y : OpenExpr S} {new : List (OpenVar S)}
    (h : x.rename new = .ok y) : y.WellFormed := by
  unfold rename at h
  split at h
  · exact wellFormed_of_substitute h
  · cases h

/-- The expressions that the operations can give are the well-formed ones. -/
theorem constructible_iff_wellFormed {x : OpenExpr S} : x.Constructible ↔ x.WellFormed := by
  constructor
  · intro h
    induction h with
    | link kind source sink => trivial
    | formula _ _ h hl hr => exact wellFormed_of_formula? hl hr h
    | bind _ h _ => exact wellFormed_of_bind h
    | rename _ h _ => exact wellFormed_of_rename h
    | mapVars _ h _ => exact wellFormed_of_mapVars h
  · intro h
    -- A well-formed tree is put together from its leaves by the checked constructor.
    induction x with
    | link kind source sink => exact .link kind source sink
    | formula c x y q lhs rhs ihl ihr =>
      obtain ⟨hdefect, hl, hr⟩ := h
      have hcheck : checked (.formula c x y q lhs rhs) = .ok (.formula c x y q lhs rhs) :=
        checked_eq_ok_iff.2 ⟨hdefect, rfl⟩
      have hformula : formula? c [x, y] q.toList lhs rhs = .ok (.formula c x y q lhs rhs) := by
        cases q <;> exact hcheck
      exact .formula (ihl hl) (ihr hr) hformula

end PathTree

end MeshPath
