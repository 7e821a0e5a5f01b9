import MeshPath.Proofs.Build.Eval
import MeshPath.Proofs.Expr.Binder
import MeshPath.Proofs.Expr.Binding

/-!
# Expressions with one key are realized alike

A key forgets the names of the variables. Realization compares names only inside one formula, and
there two names are the same exactly if their slots are, so that the key determines the index. What
it reads of the sets is determined by their identities if different sets have different ones.

* `Scope.Proper`: different names in scope have different slots, all of them in use.
* `eval_eq_of_slots`: the statement for expressions under the scopes of their contexts.
* `eval_eq_of_boundKey`: the statement for whole expressions.
-/

namespace MeshPath

/-- The sets `U` are told apart by their identities. -/
def Distinct {S : Type} [Identified S] (U : S → Prop) : Prop :=
  ∀ s t, U s → U t → Identified.id s = Identified.id t → s = t

/-- Different names in scope have different slots below `next`. -/
structure Scope.Proper (scope : Scope) (next : Nat) : Prop where
  injective : ∀ {a b : String} {n : Nat}, scope.lookup a = some n → scope.lookup b = some n → a = b
  below : ∀ {a : String} {n : Nat}, scope.lookup a = some n → n < next

theorem Scope.Proper.mono {scope : Scope} {next next' : Nat} (h : scope.Proper next)
    (hle : next ≤ next') : scope.Proper next' :=
  ⟨h.injective, fun ha => Nat.lt_of_lt_of_le (h.below ha) hle⟩

/-- A quantified variable takes the next slot, which no name in scope has. -/
theorem Scope.Proper.push {scope : Scope} {next : Nat} (h : scope.Proper next) (name : String) :
    Scope.Proper ((name, next) :: scope) (next + 1) where
  injective := by
    intro a b n ha hb
    rw [List.lookup_cons] at ha hb
    -- The slot of the new name is `next`, which no other name in scope has.
    by_cases han : a = name <;> by_cases hbn : b = name
    · rw [han, hbn]
    · rw [beq_iff_eq.2 han] at ha
      rw [beq_false_of_ne hbn] at hb
      cases ha
      exact absurd (h.below hb) (Nat.lt_irrefl _)
    · rw [beq_false_of_ne han] at ha
      rw [beq_iff_eq.2 hbn] at hb
      cases hb
      exact absurd (h.below ha) (Nat.lt_irrefl _)
    · rw [beq_false_of_ne han] at ha
      rw [beq_false_of_ne hbn] at hb
      exact h.injective ha hb
  below := by
    intro a n ha
    rw [List.lookup_cons] at ha
    by_cases han : a = name
    · rw [beq_iff_eq.2 han] at ha
      cases ha
      exact Nat.lt_succ_self _
    · rw [beq_false_of_ne han] at ha
      exact Nat.lt_succ_of_lt (h.below ha)

namespace PathTree

variable {S : Type} {scope scope' : Scope} {next next' : Nat}

/-- Two names stand for one slot. -/
def SameSlot (scope scope' : Scope) (a a' : String) : Prop :=
  ∃ n, scope.lookup a = some n ∧ scope'.lookup a' = some n

/-- Proper scopes tell names apart by their slots, so that corresponding names are equal together.
-/
theorem SameSlot.eq_iff (hs : scope.Proper next) (hs' : scope'.Proper next') {a a' b b' : String}
    (ha : SameSlot scope scope' a a') (hb : SameSlot scope scope' b b') : a = b ↔ a' = b' := by
  obtain ⟨m, ha, ha'⟩ := ha
  obtain ⟨n, hb, hb'⟩ := hb
  constructor
  · rintro rfl
    rw [ha] at hb
    cases hb
    exact hs'.injective ha' hb'
  · rintro rfl
    rw [ha'] at hb'
    cases hb'
    exact hs.injective ha hb

/-- Names that stand for one slot are found at the same end. -/
theorem endNamed?_eq_of_sameSlot (hs : scope.Proper next) (hs' : scope'.Proper next')
    {x y : BoundExpr S} {a a' : String}
    (hends : ∀ e, SameSlot scope scope' (x.endName e) (y.endName e))
    (ha : SameSlot scope scope' a a') : x.endNamed? a = y.endNamed? a' := by
  -- The search compares the name with those of the ends, with the same answers on both sides.
  have hiff := fun e => SameSlot.eq_iff hs hs' (hends e) ha
  simp only [endNamed?, hiff]

/-- The names at the ends of an expression are in scope. -/
def Covered (scope : Scope) (x : BoundExpr S) : Prop :=
  ∀ e, ∃ n, scope.lookup (x.endName e) = some n

/-- If a scope knows the variables of a formula, then it knows the ends of its operands, which are
among them. -/
theorem covered_operands {c : Connective} {x y : BoundVar S} {q : Option (BoundVar S)}
    {lhs rhs : BoundExpr S} (h : WellFormed (formula c x y q lhs rhs))
    (hcovered : ∀ v ∈ x :: y :: q.toList, ∃ n, scope.lookup v.name = some n) :
    Covered scope lhs ∧ Covered scope rhs := by
  constructor
  · intro e
    obtain ⟨v, hv, hname⟩ := (exists_endName_eq h e).1
    rw [hname]
    exact hcovered v hv
  · intro e
    obtain ⟨v, hv, hname⟩ := (exists_endName_eq h e).2
    rw [hname]
    exact hcovered v hv

/-- Names that are not hidden keep their slots below a quantified variable. -/
theorem sameSlot_push (k : Nat) {a a' name name' : String} (ha : a ≠ name) (ha' : a' ≠ name')
    (h : SameSlot scope scope' a a') :
    SameSlot ((name, k) :: scope) ((name', k) :: scope') a a' := by
  obtain ⟨n, hn, hn'⟩ := h
  refine ⟨n, ?_, ?_⟩
  · rw [List.lookup_cons, beq_false_of_ne ha]
    exact hn
  · rw [List.lookup_cons, beq_false_of_ne ha']
    exact hn'

/-- Without a quantified variable, the operands are read in the scope of the formula. -/
theorem covered_plain {c : Connective} {x y : BoundVar S} {lhs rhs : BoundExpr S}
    (h : WellFormed (formula c x y none lhs rhs))
    (hcovered : Covered scope (formula c x y none lhs rhs)) :
    Covered scope lhs ∧ Covered scope rhs := by
  refine covered_operands h fun v hv => ?_
  simp only [Option.toList_none, List.mem_cons, List.not_mem_nil, or_false] at hv
  rcases hv with rfl | rfl
  · exact hcovered .first
  · exact hcovered .second

/-- The quantified variable joins the scope with a slot `k` of its own. -/
theorem covered_push (k : Nat) {c : Connective} {x y q : BoundVar S} {lhs rhs : BoundExpr S}
    (h : WellFormed (formula c x y (some q) lhs rhs))
    (hcovered : Covered scope (formula c x y (some q) lhs rhs)) :
    Covered ((q.name, k) :: scope) lhs ∧ Covered ((q.name, k) :: scope) rhs := by
  refine covered_operands h fun v hv => ?_
  simp only [Option.toList_some, List.mem_cons, List.not_mem_nil, or_false] at hv
  obtain ⟨⟨-, hqx, hqy, -⟩, -, -⟩ := wellFormed_quantified_iff.1 h
  rcases hv with rfl | rfl | rfl
  · rw [List.lookup_cons, beq_false_of_ne hqx.symm]
    exact hcovered .first
  · rw [List.lookup_cons, beq_false_of_ne hqy.symm]
    exact hcovered .second
  · exact ⟨k, List.lookup_cons_self⟩

/-- The scope at the root tells the two ends apart, unless they have one name. -/
theorem proper_rootScope (x : BoundExpr S) : x.rootScope.Proper x.rootScope.length := by
  have hempty : Scope.Proper [] 0 := ⟨fun h => absurd h (by simp), fun h => absurd h (by simp)⟩
  have hfirst := hempty.push (x.endName .first)
  unfold rootScope
  split
  · exact hfirst
  · exact hfirst.push (x.endName .second)

theorem covered_rootScope (x : BoundExpr S) : Covered x.rootScope x := by
  intro e
  unfold rootScope
  split
  · next h =>
    have hname : x.endName e = x.endName .first := by
      cases e
      · rfl
      · exact h.symm
    rw [hname]
    exact ⟨0, List.lookup_cons_self⟩
  · next h =>
    cases e with
    | first =>
      rw [List.lookup_cons, beq_false_of_ne h]
      exact ⟨0, List.lookup_cons_self⟩
    | second => exact ⟨1, List.lookup_cons_self⟩

/-! ## Slots with sets -/

variable [Identified S] {U : S → Prop}

/-- The recorded identity of a set. -/
abbrev keyId (set : S) : Option SetId := some (Identified.id set)

/-- Variables with one slot are in scope under the same number. -/
theorem sameSlot_of_slot {v w : BoundVar S} (hv : ∃ n, scope.lookup v.name = some n)
    (hw : ∃ n, scope'.lookup w.name = some n)
    (h : slot keyId scope next v = slot keyId scope' next' w) :
    SameSlot scope scope' v.name w.name := by
  obtain ⟨m, hm⟩ := hv
  obtain ⟨n, hn⟩ := hw
  have hindex := congrArg Slot.index h
  simp only [slot, hm, hn, Option.getD_some] at hindex
  exact ⟨m, hm, hindex ▸ hn⟩

/-- Variables with one slot have one set, since sets are told apart by their identities. -/
theorem set_eq_of_slot (hU : Distinct U) {v w : BoundVar S} (hv : U v.set) (hw : U w.set)
    (h : slot keyId scope next v = slot keyId scope' next' w) : v.set = w.set := by
  have hset := congrArg Slot.set h
  exact hU v.set w.set hv hw (Option.some.inj hset)

/-- Expressions with the same slots have the same slots at their ends. -/
theorem slot_endpoint_eq {x y : BoundExpr S} {k k' : Nat}
    (h : x.slots keyId scope k = y.slots keyId scope' k') (e : End) :
    slot keyId scope k (x.endpoint e) = slot keyId scope' k' (y.endpoint e) := by
  rw [← endpoint_slots, ← endpoint_slots, h]

/-- Corresponding ends are in scope under the same number. -/
theorem sameSlot_endName {x y : BoundExpr S} {k k' : Nat} (hx : Covered scope x)
    (hy : Covered scope' y) (h : x.slots keyId scope k = y.slots keyId scope' k') (e : End) :
    SameSlot scope scope' (x.endName e) (y.endName e) :=
  sameSlot_of_slot (hx e) (hy e) (slot_endpoint_eq h e)

/-- Corresponding ends have the same set. -/
theorem set_endpoint_eq (hU : Distinct U) {x y : BoundExpr S} {k k' : Nat}
    (hxU : ∀ v ∈ x.vars, U v.set) (hyU : ∀ v ∈ y.vars, U v.set)
    (h : x.slots keyId scope k = y.slots keyId scope' k') (e : End) :
    (x.endpoint e).set = (y.endpoint e).set :=
  set_eq_of_slot hU (hxU _ (endpoint_mem_vars x e)) (hyU _ (endpoint_mem_vars y e))
    (slot_endpoint_eq h e)

/-- Corresponding operands are read from the same end. -/
theorem endNamed?_eq_of_slots (hs : scope.Proper next) (hs' : scope'.Proper next')
    {x y : BoundExpr S} {k k' : Nat} (hx : Covered scope x) (hy : Covered scope' y)
    (h : x.slots keyId scope k = y.slots keyId scope' k') {a a' : String}
    (ha : SameSlot scope scope' a a') : x.endNamed? a = y.endNamed? a' :=
  endNamed?_eq_of_sameSlot hs hs' (sameSlot_endName hx hy h) ha

/-! ## Formulas with operands that are realized alike -/

variable {O I ε : Type} [PathFailure ε] [Realizer O S I ε] {options : O}

section Formula

variable {c : Connective} {x₁ x₂ y₁ y₂ : BoundVar S} {lhs rhs lhs' rhs' : BoundExpr S} {rows : End}

/-- Two formulas without a quantified variable have one index if their operands are read from the
same ends and have the same indices there. -/
theorem eval_plain_congr (hx : WellFormed (formula c x₁ x₂ none lhs rhs))
    (hlend : lhs.endNamed? (rows.pick x₁ x₂).name = lhs'.endNamed? (rows.pick y₁ y₂).name)
    (hrend : rhs.endNamed? (rows.pick x₁ x₂).name = rhs'.endNamed? (rows.pick y₁ y₂).name)
    (hl : ∀ e, lhs.eval options e = lhs'.eval options e)
    (hr : ∀ e, rhs.eval options e = rhs'.eval options e) :
    (formula c x₁ x₂ none lhs rhs).eval options rows =
      (formula c y₁ y₂ none lhs' rhs').eval options rows := by
  obtain ⟨le, re, -, -, hle, hre⟩ := operandEnds_plain hx rows
  -- The operands of the other formula are read from the same ends.
  rw [eval_plain hle hre, eval_plain (hlend.symm.trans hle) (hrend.symm.trans hre)]
  simp only [hl, hr]

/-- Two quantified formulas have one index if, besides, their sinks have the same set. The order of
the hops follows from the ends of the operands. -/
theorem eval_quantified_congr {q q' : BoundVar S}
    (hx : WellFormed (formula c x₁ x₂ (some q) lhs rhs))
    (hlend : lhs.endNamed? (rows.pick x₁ x₂).name = lhs'.endNamed? (rows.pick y₁ y₂).name)
    (hrend : rhs.endNamed? (rows.pick x₁ x₂).name = rhs'.endNamed? (rows.pick y₁ y₂).name)
    (hlq : lhs.endNamed? q.name = lhs'.endNamed? q'.name)
    (hrq : rhs.endNamed? q.name = rhs'.endNamed? q'.name)
    (hsink : (rows.other.pick x₁ x₂).set = (rows.other.pick y₁ y₂).set)
    (hl : ∀ e, lhs.eval options e = lhs'.eval options e)
    (hr : ∀ e, rhs.eval options e = rhs'.eval options e) :
    (formula c x₁ x₂ (some q) lhs rhs).eval options rows =
      (formula c y₁ y₂ (some q') lhs' rhs').eval options rows := by
  obtain ⟨ne, fe, -, -, hn, hf⟩ := operandEnds_quantified hx rows
  rw [eval_quantified_eq, eval_quantified_eq]
  -- The same operand comes first on both sides.
  by_cases hfound : (lhs.endNamed? (rows.pick x₁ x₂).name).isSome = true
  · have hfound' : (lhs'.endNamed? (rows.pick y₁ y₂).name).isSome = true := by
      rw [← hlend]
      exact hfound
    rw [near, if_pos hfound] at hn
    rw [far, if_pos hfound] at hf
    have hn' := hlend.symm.trans hn
    have hf' := hrq.symm.trans hf
    simp only [near, far, if_pos hfound, if_pos hfound', operandEnd_of_endNamed? hn,
      operandEnd_of_endNamed? hf, operandEnd_of_endNamed? hn', operandEnd_of_endNamed? hf', hl, hr,
      hsink]
  · have hfound' : ¬ (lhs'.endNamed? (rows.pick y₁ y₂).name).isSome = true := by
      rw [← hlend]
      exact hfound
    rw [near, if_neg hfound] at hn
    rw [far, if_neg hfound] at hf
    have hn' := hrend.symm.trans hn
    have hf' := hlq.symm.trans hf
    simp only [near, far, if_neg hfound, if_neg hfound', operandEnd_of_endNamed? hn,
      operandEnd_of_endNamed? hf, operandEnd_of_endNamed? hn', operandEnd_of_endNamed? hf', hl, hr,
      hsink]

end Formula

/-- Under scopes that tell names apart, expressions with the same slots over the same sets have the
same index. -/
theorem eval_eq_of_slots (options : O) (hU : Distinct U) {x y : BoundExpr S}
    (hx : x.WellFormed) (hy : y.WellFormed) (hxU : ∀ v ∈ x.vars, U v.set)
    (hyU : ∀ v ∈ y.vars, U v.set) (hs : scope.Proper next) (hs' : scope'.Proper next')
    (hcx : Covered scope x) (hcy : Covered scope' y)
    (h : x.slots keyId scope next = y.slots keyId scope' next') (rows : End) :
    x.eval options rows = y.eval options rows := by
  -- Both scopes grow by the quantified variables that are passed, under the same slots.
  induction x generalizing y scope scope' next next' rows with
  | link kind source sink =>
    cases y with
    | formula c' y₁ y₂ q' lhs' rhs' => cases q' <;> cases h
    | link kind' source' sink' =>
      have hsource : source.set = source'.set := set_endpoint_eq hU hxU hyU h .first
      have hsink : sink.set = sink'.set := set_endpoint_eq hU hxU hyU h .second
      simp only [slots, link.injEq] at h
      rw [eval, eval, h.1, hsource, hsink]
  | formula c x₁ x₂ q lhs rhs ihl ihr =>
    cases y with
    | link => cases q <;> cases h
    | formula c' y₁ y₂ q' lhs' rhs' =>
      have hsource : SameSlot scope scope' (rows.pick x₁ x₂).name (rows.pick y₁ y₂).name :=
        sameSlot_endName hcx hcy h rows
      have hsink : (rows.other.pick x₁ x₂).set = (rows.other.pick y₁ y₂).set :=
        set_endpoint_eq hU hxU hyU h rows.other
      have hlU : ∀ v ∈ lhs.vars, U v.set := fun v hv => hxU v (mem_vars_of_lhs hv)
      have hrU : ∀ v ∈ rhs.vars, U v.set := fun v hv => hxU v (mem_vars_of_rhs hv)
      have hlU' : ∀ v ∈ lhs'.vars, U v.set := fun v hv => hyU v (mem_vars_of_lhs hv)
      have hrU' : ∀ v ∈ rhs'.vars, U v.set := fun v hv => hyU v (mem_vars_of_rhs hv)
      cases q with
      | none =>
        cases q' with
        | some q' => simp [slots] at h
        | none =>
          -- The operands stand under the scopes of the formulas.
          simp only [slots, formula.injEq] at h
          obtain ⟨rfl, -, -, -, hl, hr⟩ := h
          obtain ⟨hcl, hcr⟩ := covered_plain hx hcx
          obtain ⟨hcl', hcr'⟩ := covered_plain hy hcy
          exact eval_plain_congr hx
            (endNamed?_eq_of_slots hs hs' hcl hcl' hl hsource)
            (endNamed?_eq_of_slots hs hs' hcr hcr' hr hsource)
            (fun e => ihl hx.2.1 hy.2.1 hlU hlU' hs hs' hcl hcl' hl e)
            (fun e => ihr hx.2.2 hy.2.2 hrU hrU' (hs.mono (Nat.le_add_right _ _))
              (hs'.mono (Nat.le_add_right _ _)) hcr hcr' hr e)
      | some q =>
        cases q' with
        | none => simp [slots] at h
        | some q' =>
          -- The quantified variables take the same slot, next to those of the ends.
          simp only [slots, formula.injEq, Option.some.injEq, Slot.mk.injEq] at h
          obtain ⟨rfl, -, -, ⟨rfl, -⟩, hl, hr⟩ := h
          obtain ⟨hcl, hcr⟩ := covered_push next hx hcx
          obtain ⟨hcl', hcr'⟩ := covered_push next hy hcy
          have hin := hs.push q.name
          have hin' := hs'.push q'.name
          have hsource' := sameSlot_push next (quantified_ne hx rows).symm
            (quantified_ne hy rows).symm hsource
          have hq : SameSlot ((q.name, next) :: scope) ((q'.name, next) :: scope') q.name q'.name :=
            ⟨next, List.lookup_cons_self, List.lookup_cons_self⟩
          exact eval_quantified_congr hx
            (endNamed?_eq_of_slots hin hin' hcl hcl' hl hsource')
            (endNamed?_eq_of_slots hin hin' hcr hcr' hr hsource')
            (endNamed?_eq_of_slots hin hin' hcl hcl' hl hq)
            (endNamed?_eq_of_slots hin hin' hcr hcr' hr hq)
            hsink
            (fun e => ihl hx.2.1 hy.2.1 hlU hlU' hin hin' hcl hcl' hl e)
            (fun e => ihr hx.2.2 hy.2.2 hrU hrU' (hin.mono (Nat.le_add_right _ _))
              (hin'.mono (Nat.le_add_right _ _)) hcr hcr' hr e)

/-! ## Whole expressions -/

/-- If different sets have different identities, expressions with one bound key have the same
index, or fail in the same way. -/
theorem eval_eq_of_boundKey (options : O) (hU : Distinct U) {x y : BoundExpr S}
    (hx : x.WellFormed) (hy : y.WellFormed) (hxU : ∀ v ∈ x.vars, U v.set)
    (hyU : ∀ v ∈ y.vars, U v.set) (h : x.boundKey = y.boundKey) (rows : End) :
    x.eval options rows = y.eval options rows :=
  eval_eq_of_slots options hU hx hy hxU hyU (proper_rootScope x) (proper_rootScope y)
    (covered_rootScope x) (covered_rootScope y) h rows

end PathTree

end MeshPath
