import MeshPath.Proofs.Expr.Quantified

/-!
# The slots of a key

The slots of the key of a formula can be told without a scope. The ends have the slots `0` and `1`,
the quantified variables have the following ones in preorder, and every occurrence has the slot of
the variable that it refers to.

* `SamePlace`: two parts at one place of two trees, with the quantified variables around them.
* `RefersTo`: the slot of the variable that a name refers to below these quantified variables.
* `CanonicalSlots`: what is said of the slots of a key.
* `canonicalSlots_keys`: it holds of the structural and of the bound key of every formula.
-/

namespace MeshPath.PathTree

variable {V W S : Type}

/-- `t` and `u` are the parts of `x` and `k` at one place. `around` lists the quantified variables
of the formulas around this place, each with what stands for it in `k`; the innermost is first. -/
inductive SamePlace (x : PathTree V) (k : PathTree W) :
    PathTree V → PathTree W → List (V × W) → Prop
  | root : SamePlace x k x k []
  | lhs {c c' : Connective} {y z : V} {y' z' : W} {q : Option V} {q' : Option W}
      {l r : PathTree V} {l' r' : PathTree W} {around : List (V × W)} :
      SamePlace x k (formula c y z q l r) (formula c' y' z' q' l' r') around →
        SamePlace x k l l' (q.toList.zip q'.toList ++ around)
  | rhs {c c' : Connective} {y z : V} {y' z' : W} {q : Option V} {q' : Option W}
      {l r : PathTree V} {l' r' : PathTree W} {around : List (V × W)} :
      SamePlace x k (formula c y z q l r) (formula c' y' z' q' l' r') around →
        SamePlace x k r r' (q.toList.zip q'.toList ++ around)

/-- Below the quantified variables `around`, a name refers to the first of them that has it and, if
there is none, to the end of `x` that has it. The last argument is the number of its slot. -/
inductive RefersTo (x : PathExpr S) : List (Var S × Slot) → String → Nat → Prop
  | quantifier (q : Var S) (s : Slot) (around : List (Var S × Slot)) :
      RefersTo x ((q, s) :: around) q.name s.index
  | outside {q : Var S} {s : Slot} {around : List (Var S × Slot)} {name : String} {n : Nat} :
      q.name ≠ name → RefersTo x around name n → RefersTo x ((q, s) :: around) name n
  | root (e : End) : RefersTo x [] (x.endName e) e.toNat

/-- The slots of the key `k` of `x`. -/
structure CanonicalSlots (x : PathExpr S) (k : PathKey) : Prop where
  /-- The key differs from the expression in what stands at the occurrences alone. -/
  shape : k.shape = x.shape
  /-- The ends have the slots `0` and `1`. -/
  ends : ∀ e, (k.endpoint e).index = e.toNat
  /-- The quantified variables have the following slots, in preorder. -/
  quantified : k.quantified.map (·.index) = List.range' 2 x.quantified.length
  /-- No two quantified variables share a slot. -/
  nodup : (k.quantified.map (·.index)).Nodup
  /-- Every other occurrence has the slot of the variable that it refers to. -/
  refersTo : ∀ {t : PathExpr S} {u : PathKey} {around : List (Var S × Slot)},
    SamePlace x k t u around → ∀ e, RefersTo x around (t.endName e) (u.endpoint e).index

/-! ## The numbers of the quantified variables -/

/-- The right operand goes on where the left one has stopped, so that the numbers are consecutive
whatever the scopes are. -/
theorem map_index_quantified_slots (setId : S → Option SetId) (scope : Scope) (next : Nat)
    (x : PathExpr S) : (x.slots setId scope next).quantified.map (·.index) =
      List.range' next x.quantified.length := by
  induction x generalizing scope next with
  | link => rfl
  | formula c x y q lhs rhs ihl ihr =>
    cases q with
    | none => simp [slots, quantified, ihl, ihr, ← length_quantified]
    | some q => simp [slots, quantified, ihl, ihr, ← length_quantified, List.range'_succ]

/-! ## The names around a place -/

variable {x t : OpenExpr S} {u : PathKey} {around : List (OpenVar S × Slot)}
  {setId : Option S → Option SetId}

/-- The scope at a place: the quantified variables around it, then the ends. -/
def scopeAt (x : PathExpr S) (around : List (Var S × Slot)) : Scope :=
  around.map (fun p => (p.1.name, p.2.index)) ++ x.rootScope

/-- The name is that of a quantified variable in `around` or of an end of `x`. -/
def Known (x : PathExpr S) (around : List (Var S × Slot)) (name : String) : Prop :=
  (∃ p ∈ around, p.1.name = name) ∨ ∃ e, x.endName e = name

/-- The innermost entry of a scope tells the slot of a known name. -/
theorem refersTo_lookup_scopeAt (hne : x.endName .first ≠ x.endName .second) {name : String}
    (h : Known x around name) (next : Nat) :
    RefersTo x around name (((scopeAt x around).lookup name).getD next) := by
  induction around with
  | nil =>
    rcases h with ⟨p, hp, -⟩ | ⟨e, rfl⟩
    · exact absurd hp List.not_mem_nil
    · have hlookup : (scopeAt x []).lookup (x.endName e) = some e.toNat := lookup_rootScope hne e
      rw [hlookup]
      exact .root e
  | cons p around ih =>
    obtain ⟨q, s⟩ := p
    by_cases hname : q.name = name
    · rw [← hname, scopeAt, List.map_cons, List.cons_append, List.lookup_cons_self]
      exact .quantifier q s around
    -- An entry of another name is passed over on both sides.
    · have hknown : Known x around name := by
        rcases h with ⟨p, hp, hpname⟩ | hend
        · rcases List.mem_cons.1 hp with rfl | hp
          · exact absurd hpname hname
          · exact .inl ⟨p, hp, hpname⟩
        · exact .inr hend
      rw [scopeAt, List.map_cons, List.cons_append, List.lookup_cons,
        beq_false_of_ne (Ne.symm hname)]
      exact .outside hname (ih hknown)

theorem Known.append {name : String} (h : Known x around name) (new : List (OpenVar S × Slot)) :
    Known x (new ++ around) name := by
  rcases h with ⟨p, hp, hname⟩ | hend
  · exact .inl ⟨p, List.mem_append_right new hp, hname⟩
  · exact .inr hend

/-- In the operands of a formula the names of its variables are known, that of the quantified one
from `new`. -/
theorem known_of_exists {y z : OpenVar S} {q : Option (OpenVar S)} {new : List (OpenVar S × Slot)}
    (hy : Known x around y.name) (hz : Known x around z.name) (hq : q.toList = new.map (·.1))
    {name : String} (h : ∃ v ∈ y :: z :: q.toList, name = v.name) :
    Known x (new ++ around) name := by
  have hvars : ∀ v ∈ y :: z :: q.toList, Known x (new ++ around) v.name := by
    simp only [List.forall_mem_cons, hq, List.forall_mem_map]
    exact ⟨hy.append new, hz.append new,
      fun p hp => .inl ⟨p, List.mem_append_left around hp, rfl⟩⟩
  obtain ⟨v, hv, rfl⟩ := h
  exact hvars v hv

/-! ## Parts of a key -/

/-- The key of a formula is made of the slots of its variables and of the keys of its operands,
which read the quantified variable under the next number. -/
theorem exists_slots_formula (setId : S → Option SetId) (scope : Scope) (next : Nat)
    (c : Connective) (y z : Var S) (q : Option (Var S)) (l r : PathExpr S) :
    ∃ m n, (formula c y z q l r).slots setId scope next =
      formula c (slot setId scope next y) (slot setId scope next z)
        (q.map fun v => ⟨next, setId v.set⟩)
        (l.slots setId (q.toList.map (fun v => (v.name, next)) ++ scope) m)
        (r.slots setId (q.toList.map (fun v => (v.name, next)) ++ scope) n) := by
  cases q <;> exact ⟨_, _, rfl⟩

/-- What `t` and `u` have in common at one place of `x` and its key: `u` holds the slots of `t`
under the quantified variables around the place and the ends. -/
structure Placed (x : OpenExpr S) (setId : Option S → Option SetId) (t : OpenExpr S)
    (u : PathKey) (around : List (OpenVar S × Slot)) : Prop where
  wellFormed : t.WellFormed
  slots : ∃ next, u = t.slots setId (scopeAt x around) next
  known : ∀ e, Known x around (t.endName e)

/-- If a formula is placed inside an expression, so are its operands. -/
theorem Placed.operands {c c' : Connective} {y z : OpenVar S} {y' z' : Slot}
    {q : Option (OpenVar S)} {q' : Option Slot} {l r : OpenExpr S} {l' r' : PathKey}
    (h : Placed x setId (formula c y z q l r) (formula c' y' z' q' l' r') around) :
    Placed x setId l l' (q.toList.zip q'.toList ++ around) ∧
      Placed x setId r r' (q.toList.zip q'.toList ++ around) := by
  obtain ⟨hwf, ⟨next, hslots⟩, hknown⟩ := h
  obtain ⟨m, n, hformula⟩ := exists_slots_formula setId (scopeAt x around) next c y z q l r
  rw [hformula] at hslots
  cases hslots
  -- The quantified variable, if any, comes into scope with the slot that stands for it in the key.
  obtain ⟨new, hnew⟩ : ∃ new, new =
      q.toList.zip (q.map fun v => (⟨next, setId v.set⟩ : Slot)).toList := ⟨_, rfl⟩
  have hq : q.toList = new.map (·.1) := by rw [hnew]; cases q <;> rfl
  have hscope : q.toList.map (fun v => (v.name, next)) ++ scopeAt x around =
      scopeAt x (new ++ around) := by rw [hnew]; cases q <;> rfl
  have hends := exists_endName_eq hwf
  rw [hscope, ← hnew]
  refine ⟨⟨hwf.2.1, ⟨m, rfl⟩, fun e => ?_⟩, ⟨hwf.2.2, ⟨n, rfl⟩, fun e => ?_⟩⟩
  · exact known_of_exists (hknown .first) (hknown .second) hq (hends e).1
  · exact known_of_exists (hknown .first) (hknown .second) hq (hends e).2

/-- Every subexpression is placed inside its expression. -/
theorem placed_of_samePlace (hx : x.WellFormed)
    (h : SamePlace x (x.keyWith setId) t u around) : Placed x setId t u around := by
  induction h with
  | root => exact ⟨hx, ⟨_, rfl⟩, fun e => .inr ⟨e, rfl⟩⟩
  | lhs _ ih => exact ih.operands.1
  | rhs _ ih => exact ih.operands.2

/-! ## Keys of formulas -/

/-- A key numbers its variables as `CanonicalSlots` says, whatever stands for the sets. -/
theorem canonicalSlots_keyWith (hx : x.WellFormed) (hformula : x.connective?.isSome = true)
    (setId : Option S → Option SetId) : CanonicalSlots x (x.keyWith setId) := by
  have hne : x.endName .first ≠ x.endName .second := names_ne_of_formula hx hformula .first
  have hlength : x.rootScope.length = 2 := by rw [rootScope, if_neg hne]; rfl
  have hquantified : (x.keyWith setId).quantified.map (·.index) =
      List.range' 2 x.quantified.length := by
    rw [keyWith, map_index_quantified_slots, hlength]
  refine ⟨shape_slots setId _ _ x, fun e => ?_, hquantified, ?_, fun {t u around} h e => ?_⟩
  · have hlookup : x.rootScope.lookup (x.endpoint e).name = some e.toNat := lookup_rootScope hne e
    rw [keyWith, endpoint_slots, slot, hlookup]
    rfl
  · rw [hquantified]
    exact List.nodup_range'
  · obtain ⟨-, ⟨next, rfl⟩, hknown⟩ := placed_of_samePlace hx h
    rw [endpoint_slots]
    exact refersTo_lookup_scopeAt hne (hknown e) next

/-- The structural key of a formula and its bound key, which it has if it is bound, have their slots
in canonical order: the ends have the slots `0` and `1`, the quantified variables have the following
ones in preorder, and all other occurrences have the slot of the variable that they refer to. -/
theorem canonicalSlots_keys [Identified S] (hx : x.Constructible)
    (hformula : x.connective?.isSome = true) :
    CanonicalSlots x x.structuralKey ∧ (x.isBound = true → ∃ k, x.boundKey? = .ok k) ∧
      ∀ k, x.boundKey? = .ok k → CanonicalSlots x k := by
  have hwf := constructible_iff_wellFormed.1 hx
  refine ⟨canonicalSlots_keyWith hwf hformula _, fun hbound => ?_, fun k hk => ?_⟩
  · obtain ⟨z, rfl⟩ := isBound_iff.1 hbound
    exact ⟨_, boundKey?_toOpen z⟩
  · rw [boundKey?] at hk
    obtain ⟨z, hclose, rfl⟩ := Success.map_eq_ok hk
    rw [← keyWith_toOpen, ← close_eq_ok_iff.1 hclose]
    exact canonicalSlots_keyWith hwf hformula _

/-- Each operand quantifies again the name of an end. -/
def reusedNames (set : SetView) : BoundExpr :=
  let a : BoundVar := ⟨"a", set⟩
  let b : BoundVar := ⟨"b", set⟩
  let m : BoundVar := ⟨"m", set⟩
  let near := link (.stencil (.star 1))
  formula .and a b (some m)
    (formula .and a m (some b) (near a b) (near b m))
    (formula .or m b (some a) (near m a) (near a b))

/-- Under its quantifier the name of an end stands for a slot of its own, and next to it for the
end. -/
theorem canonicalSlots_keys_reusedNames :
    let x := (reusedNames ⟨⟨1⟩, "V", 2, [], #[], none⟩).toOpen
    x.Constructible ∧ x.connective?.isSome = true ∧ x.isBound = true ∧
      CanonicalSlots x x.structuralKey ∧
      (∃ k, x.boundKey? = .ok k ∧ CanonicalSlots x k) ∧
      x.structuralKey.vars.map (·.index) =
        [0, 1, 2, 0, 2, 3, 0, 3, 3, 2, 2, 1, 4, 2, 4, 4, 1] := by
  intro x
  have hx : x.Constructible := constructible_iff_wellFormed.2 (by decide)
  have hbound : x.isBound = true := isBound_iff.2 ⟨_, rfl⟩
  obtain ⟨hstructural, hexists, hkeys⟩ := canonicalSlots_keys hx rfl
  obtain ⟨k, hk⟩ := hexists hbound
  exact ⟨hx, rfl, hbound, hstructural, ⟨k, hk, hkeys k hk⟩, by decide⟩

end MeshPath.PathTree
