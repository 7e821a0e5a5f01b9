import MeshPath.Proofs.Expr.Bound
import MeshPath.Proofs.Expr.WellFormed

/-!
# Keys and binders

An occurrence of a variable refers to a *binder*: the innermost quantifier of its name among the
formulas around it or, if there is none, the first end of the whole expression with its name. Two
expressions agree up to the names of their variables if they have one shape and refer to the same
binders, occurrence by occurrence. Keys decide this relation:

* `binders`: the binders to which the occurrences of an expression refer, in preorder. In a
  well-formed expression every occurrence refers to one (`isSome_of_mem_binders`).
* `eq_of_shape_of_vars`: shape and occurrences determine a tree.
* `keyWith_eq_iff`: two keys are equal exactly if the shapes, the numbers of the slots and the
  recorded sets are.
* `numbers_eq_iff`: the numbers of the slots are equal exactly if the binders are.
* `structuralEq_iff_and_boundEq_iff`: what the two equalities of expressions mean.
-/

namespace MeshPath

/-- The operands of a formula. -/
inductive Side where
  | lhs
  | rhs
deriving DecidableEq

/-- A place in a tree: the operand to enter at each formula on the way from the root. -/
abbrev Place := List Side

/-- What an occurrence of a variable can refer to. -/
inductive Binder where
  /-- The quantified variable of the formula at `place`. -/
  | quantifier (place : Place)
  /-- An end of the whole expression. -/
  | root (e : End)
deriving DecidableEq

namespace PathTree

variable {V S T : Type}

/-- A tree without its variables: kinds of links with their stencils, connectives and which
formulas have a quantified variable. -/
def shape (t : PathTree V) : PathTree Unit := t.map fun _ => ()

/-- The binders of the occurrences of an expression at `place`, in preorder. `scope` lists the
names around it with their binders, the innermost first. -/
def bindersIn (scope : List (String × Binder)) (place : Place) :
    PathExpr S → List (Option Binder)
  | link _ source sink => [scope.lookup source.name, scope.lookup sink.name]
  | formula _ x y q lhs rhs =>
    -- The free variables of a formula stand outside the scope of its quantifier.
    let inner := q.toList.map (fun q => (q.name, Binder.quantifier place)) ++ scope
    scope.lookup x.name :: scope.lookup y.name ::
      (q.toList.map (fun q => inner.lookup q.name) ++
        (lhs.bindersIn inner (place ++ [.lhs]) ++ rhs.bindersIn inner (place ++ [.rhs])))

/-- The ends of an expression with their binders; of two ends with one name the first is meant. -/
def rootBinders (x : PathExpr S) : List (String × Binder) :=
  [(x.endName .first, .root .first), (x.endName .second, .root .second)]

/-- The binders of the occurrences of an expression, in preorder. -/
def binders (x : PathExpr S) : List (Option Binder) := x.bindersIn x.rootBinders []

/-! ## Every occurrence has a binder -/

/-- In a well-formed expression every occurrence has a binder, if the ends of the root have. -/
theorem isSome_of_mem_bindersIn {x : PathExpr S} (hx : x.WellFormed)
    {scope : List (String × Binder)} {place : Place}
    (hends : ∀ e, (scope.lookup (x.endName e)).isSome = true) :
    ∀ b ∈ x.bindersIn scope place, b.isSome = true := by
  -- The scope covers the ends of every operand on the way down, since a formula has among its
  -- variables all ends of its operands.
  induction x generalizing scope place with
  | link kind source sink =>
    have hsource : (scope.lookup source.name).isSome = true := hends .first
    have hsink : (scope.lookup sink.name).isSome = true := hends .second
    simp [bindersIn, hsource, hsink]
  | formula c x y q lhs rhs ihl ihr =>
    have hfirst : (scope.lookup x.name).isSome = true := hends .first
    have hsecond : (scope.lookup y.name).isSome = true := hends .second
    obtain ⟨inner, hinner⟩ : ∃ inner,
        inner = q.toList.map (fun q => (q.name, Binder.quantifier place)) ++ scope := ⟨_, rfl⟩
    have hcovers : ∀ v ∈ x :: y :: q.toList, (inner.lookup v.name).isSome = true := by
      intro v hv
      rw [hinner, List.lookup_append, Option.isSome_or]
      rcases List.mem_cons.1 hv with rfl | hv
      · rw [hfirst, Bool.or_true]
      · rcases List.mem_cons.1 hv with rfl | hv
        · rw [hsecond, Bool.or_true]
        · have hq : q = some v := by simpa using hv
          rw [hq]
          simp
    have hlhs : ∀ e, (inner.lookup (lhs.endName e)).isSome = true := by
      intro e
      obtain ⟨v, hv, hname⟩ := (exists_endName_eq hx e).1
      rw [hname]
      exact hcovers v hv
    have hrhs : ∀ e, (inner.lookup (rhs.endName e)).isSome = true := by
      intro e
      obtain ⟨v, hv, hname⟩ := (exists_endName_eq hx e).2
      rw [hname]
      exact hcovers v hv
    intro b hb
    rw [bindersIn, ← hinner] at hb
    simp only [List.mem_cons, List.mem_append, List.mem_map] at hb
    rcases hb with rfl | rfl | ⟨v, hv, rfl⟩ | hb | hb
    · exact hfirst
    · exact hsecond
    · exact hcovers v (List.mem_cons_of_mem x (List.mem_cons_of_mem y hv))
    · exact ihl hx.2.1 hlhs b hb
    · exact ihr hx.2.2 hrhs b hb

/-- Every occurrence of a well-formed expression refers to a binder. -/
theorem isSome_of_mem_binders {x : PathExpr S} (hx : x.WellFormed) :
    ∀ b ∈ x.binders, b.isSome = true := by
  refine isSome_of_mem_bindersIn hx fun e => ?_
  rw [rootBinders, List.lookup_cons]
  cases e with
  | first => simp
  | second => cases x.endName .second == x.endName .first <;> simp

/-! ## Shape and occurrences -/

theorem length_vars_of_shape {t : PathTree V} {u : PathTree S} (h : t.shape = u.shape) :
    t.vars.length = u.vars.length := by
  have hlen : t.shape.vars.length = u.shape.vars.length := by rw [h]
  simpa [shape] using hlen

theorem append_eq_append_iff {α : Type} {l l' r r' : List α} (h : l.length = l'.length) :
    l ++ r = l' ++ r' ↔ l = l' ∧ r = r' := by
  constructor
  · intro heq
    exact List.append_inj heq h
  · rintro ⟨rfl, rfl⟩
    rfl

/-- The shape of a formula is its connective, whether it quantifies a variable, and the shapes of
its operands. -/
theorem shape_formula_eq_iff {c c' : Connective} {x y : V} {x' y' : S} {q : Option V}
    {q' : Option S} {lhs rhs : PathTree V} {lhs' rhs' : PathTree S} :
    (formula c x y q lhs rhs).shape = (formula c' x' y' q' lhs' rhs').shape ↔
      c = c' ∧ q.toList.length = q'.toList.length ∧ lhs.shape = lhs'.shape ∧
        rhs.shape = rhs'.shape := by
  cases q <;> cases q' <;> simp [shape, map]

/-- A tree is determined by its shape and its occurrences. -/
theorem eq_of_shape_of_vars {t u : PathTree V} (hshape : t.shape = u.shape)
    (hvars : t.vars = u.vars) : t = u := by
  induction t generalizing u with
  | link kind source sink =>
    cases u with
    | link kind' source' sink' =>
      have hkind : kind = kind' := by simpa [shape, map] using hshape
      have hends : source = source' ∧ sink = sink' := by simpa [vars] using hvars
      rw [hkind, hends.1, hends.2]
    | formula => simp [shape, map] at hshape
  | formula c x y q lhs rhs ihl ihr =>
    cases u with
    | link => simp [shape, map] at hshape
    | formula c' x' y' q' lhs' rhs' =>
      obtain ⟨hc, hq, hl, hr⟩ := shape_formula_eq_iff.1 hshape
      simp only [vars, List.cons.injEq] at hvars
      obtain ⟨hx, hy, hrest⟩ := hvars
      -- The shape tells where the occurrences of one operand end and those of the next start.
      rw [append_eq_append_iff hq, append_eq_append_iff (length_vars_of_shape hl)] at hrest
      obtain ⟨hquantified, hlvars, hrvars⟩ := hrest
      have hsame : q = q' := by cases q <;> cases q' <;> simp_all
      rw [hc, hx, hy, hsame, ihl hl hlvars, ihr hr hrvars]

theorem quantifierCount_of_shape {t : PathTree V} {u : PathTree S} (h : t.shape = u.shape) :
    t.quantifierCount = u.quantifierCount := by
  induction t generalizing u with
  | link =>
    cases u with
    | link => rfl
    | formula => simp [shape, map] at h
  | formula c x y q lhs rhs ihl ihr =>
    cases u with
    | link => simp [shape, map] at h
    | formula c' x' y' q' lhs' rhs' =>
      obtain ⟨-, hq, hl, hr⟩ := shape_formula_eq_iff.1 h
      rw [quantifierCount, quantifierCount, hq, ihl hl, ihr hr]

/-! ## The parts of a key -/

/-- The numbers of the slots of an expression, in preorder. -/
def numbers (scope : Scope) (next : Nat) (x : PathExpr S) : List Nat :=
  (x.slots (fun _ => none) scope next).vars.map (·.index)

@[simp]
theorem shape_slots (setId : S → Option SetId) (scope : Scope) (next : Nat) (x : PathExpr S) :
    (x.slots setId scope next).shape = x.shape := by
  induction x generalizing scope next with
  | link => rfl
  | formula c x y q lhs rhs ihl ihr =>
    cases q <;> exact shape_formula_eq_iff.2 ⟨rfl, rfl, ihl .., ihr ..⟩

theorem endpoint_slots (setId : S → Option SetId) (scope : Scope) (next : Nat) (x : PathExpr S)
    (e : End) :
    (x.slots setId scope next).endpoint e = slot setId scope next (x.endpoint e) := by
  cases x with
  | link => cases e <;> rfl
  | formula c x y q lhs rhs => cases q <;> cases e <;> rfl

/-- The slots of a key carry the numbers of the occurrences. -/
theorem map_index_slots (setId : S → Option SetId) (scope : Scope) (next : Nat) (x : PathExpr S) :
    (x.slots setId scope next).vars.map (·.index) = x.numbers scope next := by
  unfold numbers
  induction x generalizing scope next with
  | link => rfl
  | formula c x y q lhs rhs ihl ihr => cases q <;> simp [slots, vars, slot, ihl, ihr]

/-- The slots of a key carry the identities of the sets. -/
theorem map_set_slots (setId : S → Option SetId) (scope : Scope) (next : Nat) (x : PathExpr S) :
    (x.slots setId scope next).vars.map (·.set) = x.vars.map fun v => setId v.set := by
  induction x generalizing scope next with
  | link => rfl
  | formula c x y q lhs rhs ihl ihr => cases q <;> simp [slots, vars, slot, ihl, ihr]

/-- Slots are given by their numbers and their identities. -/
theorem slots_list_ext {l l' : List Slot} (hindex : l.map (·.index) = l'.map (·.index))
    (hset : l.map (·.set) = l'.map (·.set)) : l = l' := by
  induction l generalizing l' with
  | nil => cases l' <;> simp_all
  | cons s l ih =>
    cases l' with
    | nil => simp at hindex
    | cons s' l' =>
      obtain ⟨index, set⟩ := s
      obtain ⟨index', set'⟩ := s'
      simp only [List.map_cons, List.cons.injEq] at hindex hset
      rw [hindex.1, hset.1, ih hindex.2 hset.2]

/-- Two keys are equal exactly if they have one shape, the same slots and the same sets. -/
theorem slots_eq_iff {setId : S → Option SetId} {setId' : T → Option SetId}
    {scope scope' : Scope} {next next' : Nat} {x : PathExpr S} {y : PathExpr T} :
    x.slots setId scope next = y.slots setId' scope' next' ↔
      x.shape = y.shape ∧ x.numbers scope next = y.numbers scope' next' ∧
        (x.vars.map fun v => setId v.set) = y.vars.map fun v => setId' v.set := by
  constructor
  · intro h
    have hshape : (x.slots setId scope next).shape = (y.slots setId' scope' next').shape := by
      rw [h]
    rw [shape_slots, shape_slots] at hshape
    refine ⟨hshape, ?_, ?_⟩
    · rw [← map_index_slots setId, h, map_index_slots]
    · rw [← map_set_slots setId scope next, h, map_set_slots]
  · rintro ⟨hshape, hnumbers, hsets⟩
    refine eq_of_shape_of_vars (by rw [shape_slots, shape_slots, hshape]) (slots_list_ext ?_ ?_)
    · rw [map_index_slots, map_index_slots, hnumbers]
    · rw [map_set_slots, map_set_slots, hsets]

/-! ## Slots stand for binders -/

/-- `number` gives the `known` binders around `place` different numbers below `next`. -/
structure Numbering (number : Binder → Nat) (known : Binder → Prop) (next : Nat)
    (place : Place) : Prop where
  injective : ∀ {b b' : Binder}, known b → known b' → number b = number b' → b = b'
  below : ∀ {b : Binder}, known b → number b < next
  outside : ∀ {p : Place}, known (.quantifier p) → p.length < place.length

/-- The slots of the names in scope are the numbers of their binders. -/
structure Numbered (number : Binder → Nat) (known : Binder → Prop) (scope : Scope)
    (binders : List (String × Binder)) : Prop where
  lookup : ∀ name, scope.lookup name = (binders.lookup name).map number
  known : ∀ {name : String} {b : Binder}, binders.lookup name = some b → known b

section Numbering

variable {number : Binder → Nat} {known : Binder → Prop} {next : Nat} {place : Place}

/-- One occurrence in each of two expressions: the slots agree exactly if the binders do. A name
out of scope has the slot `next`, which no binder in scope has. -/
theorem Numbering.getD_lookup_eq_iff (h : Numbering number known next place)
    {scope scope' : Scope} {bs bs' : List (String × Binder)}
    (hx : Numbered number known scope bs) (hy : Numbered number known scope' bs') (v w : String) :
    (scope.lookup v).getD next = (scope'.lookup w).getD next ↔ bs.lookup v = bs'.lookup w := by
  rw [hx.lookup, hy.lookup]
  -- Four cases, as either name may be out of scope.
  cases hv : bs.lookup v with
  | none =>
    cases hw : bs'.lookup w with
    | none => simp
    | some b' => simpa using Nat.ne_of_gt (h.below (hy.known hw))
  | some b =>
    cases hw : bs'.lookup w with
    | none => simpa using Nat.ne_of_lt (h.below (hx.known hv))
    | some b' =>
      simp only [Option.map_some, Option.getD_some, Option.some.injEq]
      constructor
      · exact h.injective (hx.known hv) (hy.known hw)
      · intro heq
        rw [heq]

/-- In the operands of a formula more may be in use, but nothing changes around them. -/
theorem Numbering.operand (h : Numbering number known next place) {next' : Nat}
    (hnext : next ≤ next') (side : Side) : Numbering number known next' (place ++ [side]) where
  injective := h.injective
  below hb := Nat.lt_of_lt_of_le (h.below hb) hnext
  outside hp := by
    have hlen := h.outside hp
    rw [List.length_append, List.length_singleton]
    omega

/-- The number of a quantifier is the next one. -/
def withQuantifier (number : Binder → Nat) (place : Place) (next : Nat) (b : Binder) : Nat :=
  if b = .quantifier place then next else number b

/-- A new quantified variable leaves the known numbers as they were. -/
theorem Numbering.withQuantifier_of_known (h : Numbering number known next place) {b : Binder}
    (hb : known b) : withQuantifier number place next b = number b := by
  refine if_neg ?_
  -- A known quantifier stands above `place`, so it is not the one at `place`.
  rintro rfl
  exact Nat.lt_irrefl _ (h.outside hb)

/-- The operands of a quantified formula know its quantifier too, under the next number. -/
theorem Numbering.quantified (h : Numbering number known next place) {next' : Nat}
    (hnext : next < next') (side : Side) :
    Numbering (withQuantifier number place next) (fun b => known b ∨ b = .quantifier place) next'
      (place ++ [side]) where
  injective := by
    intro b b' hb hb' heq
    -- The number `next` of the new quantifier lies above those of the known binders.
    rcases hb with hb | rfl <;> rcases hb' with hb' | rfl
    · rw [h.withQuantifier_of_known hb, h.withQuantifier_of_known hb'] at heq
      exact h.injective hb hb' heq
    · rw [h.withQuantifier_of_known hb, withQuantifier, if_pos rfl] at heq
      exact absurd heq (Nat.ne_of_lt (h.below hb))
    · rw [h.withQuantifier_of_known hb', withQuantifier, if_pos rfl] at heq
      exact absurd heq.symm (Nat.ne_of_lt (h.below hb'))
    · rfl
  below := by
    rintro b (hb | rfl)
    · rw [h.withQuantifier_of_known hb]
      exact Nat.lt_trans (h.below hb) hnext
    · rw [withQuantifier, if_pos rfl]
      exact hnext
  outside := by
    intro p hp
    rw [List.length_append, List.length_singleton]
    rcases hp with hp | hp
    · have hlen := h.outside hp
      omega
    · cases hp
      omega

/-- Below a quantified variable, its name has the next number, and the other names keep theirs. -/
theorem Numbered.quantified (h : Numbering number known next place) {scope : Scope}
    {bs : List (String × Binder)} (hs : Numbered number known scope bs) (name : String) :
    Numbered (withQuantifier number place next) (fun b => known b ∨ b = .quantifier place)
      ((name, next) :: scope) ((name, .quantifier place) :: bs) where
  lookup other := by
    rw [List.lookup_cons, List.lookup_cons]
    -- The name of the new quantifier shadows an outer one in both scopes.
    cases other == name with
    | true => simp [withQuantifier]
    | false =>
      simp only [hs.lookup]
      cases hb : bs.lookup other with
      | none => rfl
      | some b => simp [h.withQuantifier_of_known (hs.known hb)]
  known := by
    intro other b hb
    rw [List.lookup_cons] at hb
    cases hname : other == name with
    | true =>
      rw [hname] at hb
      exact .inr (Option.some.inj hb).symm
    | false =>
      rw [hname] at hb
      exact .inl (hs.known hb)

end Numbering

theorem length_numbers (scope : Scope) (next : Nat) (x : PathExpr S) :
    (x.numbers scope next).length = x.vars.length := by
  rw [numbers, List.length_map]
  exact length_vars_of_shape (shape_slots _ scope next x)

theorem length_bindersIn (scope : List (String × Binder)) (place : Place) (x : PathExpr S) :
    (x.bindersIn scope place).length = x.vars.length := by
  induction x generalizing scope place with
  | link => rfl
  | formula c x y q lhs rhs ihl ihr => simp [bindersIn, vars, ihl, ihr]

/-- Without a quantified variable, the right operand goes on counting where the left one has
stopped. -/
theorem numbers_plain (scope : Scope) (next : Nat) (c : Connective) (x y : Var S)
    (lhs rhs : PathExpr S) :
    (formula c x y none lhs rhs).numbers scope next =
      (scope.lookup x.name).getD next :: (scope.lookup y.name).getD next ::
        (lhs.numbers scope next ++ rhs.numbers scope (next + lhs.quantifierCount)) := by
  simp [numbers, slots, vars, slot]

/-- A quantified variable takes the next number and gives it to its name in both operands. -/
theorem numbers_quantified (scope : Scope) (next : Nat) (c : Connective) (x y q : Var S)
    (lhs rhs : PathExpr S) :
    (formula c x y (some q) lhs rhs).numbers scope next =
      (scope.lookup x.name).getD next :: (scope.lookup y.name).getD next :: next ::
        (lhs.numbers ((q.name, next) :: scope) (next + 1) ++
          rhs.numbers ((q.name, next) :: scope) (next + 1 + lhs.quantifierCount)) := by
  simp [numbers, slots, vars, slot]

/-- Without a quantified variable, the operands are read with the binders of the formula. -/
theorem bindersIn_plain (scope : List (String × Binder)) (place : Place) (c : Connective)
    (x y : Var S) (lhs rhs : PathExpr S) :
    (formula c x y none lhs rhs).bindersIn scope place =
      scope.lookup x.name :: scope.lookup y.name ::
        (lhs.bindersIn scope (place ++ [.lhs]) ++ rhs.bindersIn scope (place ++ [.rhs])) := rfl

/-- A quantified variable is the binder of its name in both operands. -/
theorem bindersIn_quantified (scope : List (String × Binder)) (place : Place) (c : Connective)
    (x y q : Var S) (lhs rhs : PathExpr S) :
    (formula c x y (some q) lhs rhs).bindersIn scope place =
      scope.lookup x.name :: scope.lookup y.name :: some (.quantifier place) ::
        (lhs.bindersIn ((q.name, .quantifier place) :: scope) (place ++ [.lhs]) ++
          rhs.bindersIn ((q.name, .quantifier place) :: scope) (place ++ [.rhs])) := by
  simp [bindersIn]

/-- Expressions of one shape have the same slots exactly if they refer to the same binders. -/
theorem numbers_eq_iff {number : Binder → Nat} {known : Binder → Prop} {next : Nat} {place : Place}
    (h : Numbering number known next place) {scope scope' : Scope}
    {bs bs' : List (String × Binder)} (hs : Numbered number known scope bs)
    (hs' : Numbered number known scope' bs') {x : PathExpr S} {y : PathExpr T}
    (hshape : x.shape = y.shape) :
    x.numbers scope next = y.numbers scope' next ↔
      x.bindersIn bs place = y.bindersIn bs' place := by
  -- `number` grows by one quantifier on the way into an operand, in both expressions alike.
  induction x generalizing y number known next place scope scope' bs bs' with
  | link kind source sink =>
    cases y with
    | formula => simp [shape, map] at hshape
    | link kind' source' sink' =>
      have hends := fun v w => h.getD_lookup_eq_iff hs hs' v w
      simp [numbers, slots, vars, slot, bindersIn, hends]
  | formula c x y q lhs rhs ihl ihr =>
    cases y with
    | link => simp [shape, map] at hshape
    | formula c' x' y' q' lhs' rhs' =>
      obtain ⟨-, hq, hl, hr⟩ := shape_formula_eq_iff.1 hshape
      have hends := fun v w => h.getD_lookup_eq_iff hs hs' v w
      have hcount := quantifierCount_of_shape hl
      have hvars := length_vars_of_shape hl
      cases q with
      | none =>
        cases q' with
        | some => simp at hq
        | none =>
          -- The operands number their quantifiers one after the other.
          rw [numbers_plain, numbers_plain, bindersIn_plain, bindersIn_plain, ← hcount]
          simp only [List.cons.injEq, hends]
          rw [append_eq_append_iff (by rw [length_numbers, length_numbers, hvars]),
            append_eq_append_iff (by rw [length_bindersIn, length_bindersIn, hvars]),
            ihl (h.operand (Nat.le_refl _) .lhs) hs hs' hl,
            ihr (h.operand (Nat.le_add_right _ _) .rhs) hs hs' hr]
      | some q =>
        cases q' with
        | none => simp at hq
        | some q' =>
          -- Both operands know the quantifier under the slot `next`, whatever its name.
          have hlhs := h.quantified (Nat.lt_succ_self next) .lhs
          have hrhs := h.quantified (Nat.lt_of_lt_of_le (Nat.lt_succ_self next)
            (Nat.le_add_right _ lhs.quantifierCount)) .rhs
          have hin := hs.quantified h q.name
          have hin' := hs'.quantified h q'.name
          rw [numbers_quantified, numbers_quantified, bindersIn_quantified, bindersIn_quantified,
            ← hcount]
          simp only [List.cons.injEq, hends, true_and]
          rw [append_eq_append_iff (by rw [length_numbers, length_numbers, hvars]),
            append_eq_append_iff (by rw [length_bindersIn, length_bindersIn, hvars]),
            ihl hlhs hin hin' hl, ihr hrhs hin hin' hr]

/-! ## Whole expressions -/

/-- The slot of an end in a key. -/
def rootNumber : Binder → Nat
  | .root e => e.toNat
  | .quantifier _ => 0

/-- The ends that a name can refer to. -/
def rootKnown (x : PathExpr S) (b : Binder) : Prop :=
  b = .root .first ∨ x.endName .first ≠ x.endName .second ∧ b = .root .second

/-- At the root only the two ends are known, under the numbers that the scope gives them. -/
theorem numbering_root (x : PathExpr S) :
    Numbering rootNumber x.rootKnown x.rootScope.length [] where
  injective := by
    intro b b' hb hb' heq
    rcases hb with rfl | ⟨-, rfl⟩ <;> rcases hb' with rfl | ⟨-, rfl⟩ <;>
      simp_all [rootNumber, End.toNat]
  below := by
    rintro b (rfl | ⟨hne, rfl⟩)
    · unfold rootScope
      split <;> simp [rootNumber, End.toNat]
    · rw [rootScope, if_neg hne]
      simp [rootNumber, End.toNat]
  outside := by
    rintro p (hp | ⟨-, hp⟩) <;> cases hp

/-- The scope at the root numbers the binders at the root. -/
theorem numbered_root (x : PathExpr S) :
    Numbered rootNumber x.rootKnown x.rootScope x.rootBinders where
  lookup name := by
    by_cases hends : x.endName .first = x.endName .second
    -- The scope has one entry for both ends, and the second binder is never reached.
    · rw [rootScope, if_pos hends, rootBinders, ← hends]
      simp only [List.lookup_cons, List.lookup_nil]
      cases name == x.endName .first <;> rfl
    · rw [rootScope, if_neg hends, rootBinders]
      simp only [List.lookup_cons, List.lookup_nil]
      by_cases hfirst : name = x.endName .first
      · have hsecond : (name == x.endName .second) = false :=
          beq_false_of_ne fun h => hends (hfirst.symm.trans h)
        rw [hsecond, beq_iff_eq.2 hfirst]
        rfl
      · rw [beq_false_of_ne hfirst]
        cases name == x.endName .second <;> rfl
  known := by
    intro name b hb
    simp only [rootBinders, List.lookup_cons, List.lookup_nil] at hb
    by_cases hfirst : name = x.endName .first
    · rw [beq_iff_eq.2 hfirst] at hb
      exact .inl (Option.some.inj hb).symm
    · rw [beq_false_of_ne hfirst] at hb
      by_cases hsecond : name = x.endName .second
      · rw [beq_iff_eq.2 hsecond] at hb
        exact .inr ⟨fun h => hfirst (hsecond.trans h.symm), (Option.some.inj hb).symm⟩
      · rw [beq_false_of_ne hsecond] at hb
        cases hb

/-- The ends of the root have one binder exactly if they have one name. -/
theorem lookup_rootBinders_eq_iff (x : PathExpr S) :
    x.rootBinders.lookup (x.endName .first) = x.rootBinders.lookup (x.endName .second) ↔
      x.endName .first = x.endName .second := by
  constructor
  · intro h
    by_cases heq : x.endName .second = x.endName .first
    · exact heq.symm
    · rw [rootBinders, List.lookup_cons_self, List.lookup_cons, beq_false_of_ne heq] at h
      simp at h
  · intro h
    rw [h]

/-- The numbers of an expression start with those of its ends. -/
theorem exists_numbers_eq_cons (scope : Scope) (next : Nat) (x : PathExpr S) :
    ∃ rest, x.numbers scope next = (scope.lookup (x.endName .first)).getD next ::
      (scope.lookup (x.endName .second)).getD next :: rest := by
  cases x with
  | link => exact ⟨_, rfl⟩
  | formula c x y q lhs rhs => cases q <;> exact ⟨_, rfl⟩

/-- The binders of an expression start with those of its ends. -/
theorem exists_bindersIn_eq_cons (scope : List (String × Binder)) (place : Place)
    (x : PathExpr S) : ∃ rest, x.bindersIn scope place =
      scope.lookup (x.endName .first) :: scope.lookup (x.endName .second) :: rest := by
  cases x <;> exact ⟨_, rfl⟩

/-- Equal slots at both ends, or equal binders, tell whether the ends share their name. -/
theorem ends_eq_iff_of_numbers {x : PathExpr S} {y : PathExpr T}
    (h : x.numbers x.rootScope x.rootScope.length = y.numbers y.rootScope y.rootScope.length) :
    x.endName .first = x.endName .second ↔ y.endName .first = y.endName .second := by
  obtain ⟨rest, hx⟩ := exists_numbers_eq_cons x.rootScope x.rootScope.length x
  obtain ⟨rest', hy⟩ := exists_numbers_eq_cons y.rootScope y.rootScope.length y
  rw [hx, hy] at h
  simp only [List.cons.injEq] at h
  rw [← lookup_rootBinders_eq_iff x, ← lookup_rootBinders_eq_iff y,
    ← (numbering_root x).getD_lookup_eq_iff (numbered_root x) (numbered_root x),
    ← (numbering_root y).getD_lookup_eq_iff (numbered_root y) (numbered_root y), h.1, h.2.1]

/-- Expressions with the same binders have ends of one name together. -/
theorem ends_eq_iff_of_binders {x : PathExpr S} {y : PathExpr T} (h : x.binders = y.binders) :
    x.endName .first = x.endName .second ↔ y.endName .first = y.endName .second := by
  obtain ⟨rest, hx⟩ := exists_bindersIn_eq_cons x.rootBinders [] x
  obtain ⟨rest', hy⟩ := exists_bindersIn_eq_cons y.rootBinders [] y
  rw [binders, binders, hx, hy] at h
  simp only [List.cons.injEq] at h
  rw [← lookup_rootBinders_eq_iff x, ← lookup_rootBinders_eq_iff y, h.1, h.2.1]

/-- Expressions of one shape have the same slots in their keys exactly if they refer to the same
binders. -/
theorem numbers_root_eq_iff {x : PathExpr S} {y : PathExpr T} (hshape : x.shape = y.shape) :
    x.numbers x.rootScope x.rootScope.length = y.numbers y.rootScope y.rootScope.length ↔
      x.binders = y.binders := by
  -- How many slots the ends take depends on whether their names agree. Either side of the
  -- statement settles that for both expressions alike, and the rest is `numbers_eq_iff`.
  have hcore : (x.endName .first = x.endName .second ↔ y.endName .first = y.endName .second) →
      (x.numbers x.rootScope x.rootScope.length = y.numbers y.rootScope y.rootScope.length ↔
        x.binders = y.binders) := by
    intro hends
    have hlen : y.rootScope.length = x.rootScope.length := by
      by_cases h : x.endName .first = x.endName .second
      · rw [rootScope, rootScope, if_pos h, if_pos (hends.1 h)]
        rfl
      · rw [rootScope, rootScope, if_neg h, if_neg fun h' => h (hends.2 h')]
        rfl
    have hknown : y.rootKnown = x.rootKnown := by
      ext b
      simp [rootKnown, hends]
    have hy := numbered_root y
    rw [hknown] at hy
    rw [hlen, binders, binders]
    exact numbers_eq_iff (numbering_root x) (numbered_root x) hy hshape
  constructor
  · intro h
    exact (hcore (ends_eq_iff_of_numbers h)).1 h
  · intro h
    exact (hcore (ends_eq_iff_of_binders h)).2 h

/-- Two keys are equal exactly if the expressions have one shape, refer to the same binders and
have the same sets. -/
theorem keyWith_eq_iff {setId : S → Option SetId} {setId' : T → Option SetId} {x : PathExpr S}
    {y : PathExpr T} :
    x.keyWith setId = y.keyWith setId' ↔
      x.shape = y.shape ∧ x.binders = y.binders ∧
        (x.vars.map fun v => setId v.set) = y.vars.map fun v => setId' v.set := by
  rw [keyWith, keyWith, slots_eq_iff]
  constructor
  · rintro ⟨hshape, hnumbers, hsets⟩
    exact ⟨hshape, (numbers_root_eq_iff hshape).1 hnumbers, hsets⟩
  · rintro ⟨hshape, hbinders, hsets⟩
    exact ⟨hshape, (numbers_root_eq_iff hshape).2 hbinders, hsets⟩

/-- Expressions are structurally equal if they have one shape and the same binders. -/
theorem structuralEq_iff {x y : OpenExpr S} :
    x.structuralEq y = true ↔ x.shape = y.shape ∧ x.binders = y.binders := by
  rw [structuralEq, decide_eq_true_iff, structuralKey, structuralKey, keyWith_eq_iff]
  constructor
  · rintro ⟨hshape, hbinders, -⟩
    exact ⟨hshape, hbinders⟩
  · rintro ⟨hshape, hbinders⟩
    refine ⟨hshape, hbinders, ?_⟩
    -- A structural key records no sets, but as many times as there are occurrences.
    rw [List.map_const', List.map_const', length_vars_of_shape hshape]

/-! ## Replaced variables -/

@[simp]
theorem shape_map {W : Type} (f : V → W) (t : PathTree V) : (t.map f).shape = t.shape := by
  induction t with
  | link => rfl
  | formula c x y q lhs rhs ihl ihr =>
    exact shape_formula_eq_iff.2 ⟨rfl, by cases q <;> rfl, ihl, ihr⟩

theorem map_congr {W : Type} {f g : V → W} {t : PathTree V} (h : ∀ v ∈ t.vars, f v = g v) :
    t.map f = t.map g := by
  refine eq_of_shape_of_vars (by rw [shape_map, shape_map]) ?_
  rw [vars_map, vars_map, List.map_congr_left h]

theorem map_map {W X : Type} (f : V → W) (g : W → X) (t : PathTree V) :
    (t.map f).map g = t.map (g ∘ f) := by
  refine eq_of_shape_of_vars (by rw [shape_map, shape_map, shape_map]) ?_
  rw [vars_map, vars_map, vars_map, List.map_map]

/-- The binders depend on nothing but names. -/
theorem binders_map {f : Var S → Var T} (hf : ∀ v, (f v).name = v.name) (x : PathExpr S) :
    (x.map f).binders = x.binders := by
  have hscope : ∀ (z : PathExpr S) (bs : List (String × Binder)) (place : Place),
      (z.map f).bindersIn bs place = z.bindersIn bs place := by
    intro z
    induction z with
    | link => simp [map, bindersIn, hf]
    | formula c x y q lhs rhs ihl ihr =>
      intro bs place
      cases q with
      | none =>
        rw [map, Option.map_none, bindersIn_plain, bindersIn_plain, ihl, ihr, hf, hf]
      | some q =>
        rw [map, Option.map_some, bindersIn_quantified, bindersIn_quantified, ihl, ihr, hf, hf, hf]
  rw [binders, binders, rootBinders, rootBinders, endName_map hf, endName_map hf, hscope]

@[simp]
theorem shape_toOpen (y : BoundExpr S) : y.toOpen.shape = y.shape := shape_map _ y

/-- Binders do not depend on sets. -/
@[simp]
theorem binders_toOpen (y : BoundExpr S) : y.toOpen.binders = y.binders := by
  refine binders_map (fun v => ?_) y
  rfl

/-- Two expressions are structurally equal exactly if they have one shape (kinds of links with
their stencils, connectives, numbers of quantified variables) and refer to the same binder at every
occurrence. They are bound-equal exactly if both are bound, they are structurally equal and the
sets at their occurrences are the same in order. -/
theorem structuralEq_iff_and_boundEq_iff [Identified S] (x y : OpenExpr S) :
    (x.structuralEq y = true ↔ x.shape = y.shape ∧ x.binders = y.binders) ∧
      (x.boundEq y = true ↔
        x.isBound = true ∧ y.isBound = true ∧ x.structuralEq y = true ∧
          x.vars.map Var.setId? = y.vars.map Var.setId?) := by
  refine ⟨structuralEq_iff, ?_⟩
  rw [boundEq_iff, isBound_iff, isBound_iff]
  constructor
  · rintro ⟨x, y, rfl, rfl, hkey⟩
    obtain ⟨hshape, hbinders, hsets⟩ := keyWith_eq_iff.1 hkey
    refine ⟨⟨x, rfl⟩, ⟨y, rfl⟩, structuralEq_iff.2 ?_, ?_⟩
    · rw [shape_toOpen, shape_toOpen, binders_toOpen, binders_toOpen]
      exact ⟨hshape, hbinders⟩
    · rw [map_setId?_toOpen, map_setId?_toOpen, hsets]
  · rintro ⟨⟨x, rfl⟩, ⟨y, rfl⟩, hstructural, hsets⟩
    rw [structuralEq_iff, shape_toOpen, shape_toOpen, binders_toOpen, binders_toOpen]
      at hstructural
    rw [map_setId?_toOpen, map_setId?_toOpen] at hsets
    exact ⟨x, y, rfl, rfl, keyWith_eq_iff.2 ⟨hstructural.1, hstructural.2, hsets⟩⟩

end PathTree

end MeshPath
