import MeshPath.Proofs.Expr.Renaming

/-!
# The order of keys

Keys are compared part by part, and a part is looked at only if those before it are equal. Three
keys are compared consistently because their parts are, so that keys are totally ordered.

* `Composes`: of three comparisons, the outcome of the third one follows from the other two.
  `Composes.then`: so it does if each comparison is made in two parts.
* Instances of the laws of a total order, for the parts of a key and for `PathKey.compare`.
* `Orders`: what a sorted map needs of an order of its keys.
* `orders_compare`: expressions are ordered by their shapes, and bound expressions by their shapes
  and sets. Renaming the ends of an expression does not change its place.
-/

namespace MeshPath

open Std

/-! ## Comparisons in two parts -/

/-- If neither of the outcomes `ab` and `bc` is greater, then `ac` is the first of them that
decides. -/
def Composes (ab bc ac : Ordering) : Prop := ab ≠ .gt → bc ≠ .gt → ac = ab.then bc

theorem composes_gt_left {bc ac : Ordering} : Composes .gt bc ac := fun h _ => absurd rfl h

theorem composes_gt_right {ab ac : Ordering} : Composes ab .gt ac := fun _ h => absurd rfl h

theorem composes_lt_left {bc : Ordering} : Composes .lt bc .lt := fun _ _ => rfl

theorem composes_lt_right {ab : Ordering} : Composes ab .lt .lt := by
  intro hab _
  cases ab with
  | gt => exact absurd rfl hab
  | lt => rfl
  | eq => rfl

/-- Comparisons that compose do so lexicographically too. -/
theorem Composes.then {ab bc ac ab' bc' ac' : Ordering} (h : Composes ab bc ac)
    (h' : Composes ab' bc' ac') : Composes (ab.then ab') (bc.then bc') (ac.then ac') := by
  intro hab hbc
  have hac : ac = ab.then bc :=
    h (fun hgt => hab (by rw [hgt]; rfl)) fun hgt => hbc (by rw [hgt]; rfl)
  rw [hac]
  -- A first part that decides hides the second one, and where none does the second one composes.
  cases ab with
  | gt => exact absurd rfl hab
  | lt => rfl
  | eq =>
    cases bc with
    | gt => exact absurd rfl hbc
    | lt => exact composes_lt_right hab nofun
    | eq => exact h' hab hbc

theorem composes_of_transCmp {α : Type} (compare : α → α → Ordering) [TransCmp compare]
    (a b c : α) : Composes (compare a b) (compare b c) (compare a c) := by
  intro hab hbc
  cases hfirst : compare a b with
  | gt => exact absurd hfirst hab
  | lt => exact TransCmp.lt_of_lt_of_isLE hfirst (Ordering.isLE_iff_ne_gt.2 hbc)
  | eq => exact TransCmp.congr_left hfirst

/-- An order whose outcomes compose is transitive. -/
theorem transCmp_of_composes {α : Type} {compare : α → α → Ordering} [OrientedCmp compare]
    (h : ∀ a b c, Composes (compare a b) (compare b c) (compare a c)) : TransCmp compare where
  isLE_trans {a b c} hab hbc := by
    rw [h a b c (Ordering.isLE_iff_ne_gt.1 hab) (Ordering.isLE_iff_ne_gt.1 hbc)]
    cases hfirst : compare a b with
    | lt => rfl
    | eq => exact hbc
    | gt =>
      rw [hfirst] at hab
      cases hab

/-! ## Sets, stencils and slots -/

instance : TransOrd SetId := inferInstanceAs (TransCmp (compareOn SetId.number))

instance : LawfulEqOrd SetId where
  eq_of_compare {a b} h := by
    cases a
    cases b
    exact congrArg SetId.mk (LawfulEqOrd.eq_of_compare h)

instance : TransOrd Stencil := inferInstanceAs (TransCmp (compareOn Stencil.offsets))

instance : LawfulEqOrd Stencil where
  eq_of_compare h := Stencil.eq_of_offsets_eq (LawfulEqOrd.eq_of_compare h)

/-- Slots have the order that keys use. -/
instance : Ord Slot := ⟨PathKey.compareSlot⟩

instance : TransOrd Slot :=
  inferInstanceAs (TransCmp (compareLex (compareOn Slot.index) (compareOn Slot.set)))

instance : LawfulEqOrd Slot where
  eq_of_compare {a b} h := by
    obtain ⟨hindex, hset⟩ := Ordering.then_eq_eq.1 h
    cases a
    cases b
    exact (Slot.mk.injEq ..).mpr
      ⟨LawfulEqOrd.eq_of_compare hindex, LawfulEqOrd.eq_of_compare hset⟩

namespace PathKey

/-! ## Parts of a key -/

instance : TransCmp compareSlot := inferInstanceAs (TransOrd Slot)

instance : LawfulEqCmp compareSlot := inferInstanceAs (LawfulEqOrd Slot)

/-- Quantified slots are compared as optional ones. -/
theorem compareQuantified_eq : compareQuantified = Ord.compare := by
  funext q q'
  cases q <;> cases q' <;> rfl

instance : TransCmp compareQuantified := by
  rw [compareQuantified_eq]
  infer_instance

instance : LawfulEqCmp compareQuantified := by
  rw [compareQuantified_eq]
  infer_instance

/-- The stencil of a kind of link. -/
def stencil? : LinkKind → Option Stencil
  | .stencil s => some s
  | _ => none

/-- Kinds of links are compared by rank, and then by their stencils. -/
theorem compareKind_eq : compareKind = compareLex (compareOn kindRank) (compareOn stencil?) := by
  funext k k'
  cases k <;> cases k' <;> rfl

instance : TransCmp compareKind := by
  rw [compareKind_eq]
  infer_instance

instance : LawfulEqCmp compareKind where
  compare_self {k} := by
    rw [compareKind_eq]
    exact ReflCmp.compare_self
  eq_of_compare {k k'} h := by
    rw [compareKind_eq] at h
    obtain ⟨hrank, hstencil⟩ := compareLex_eq_eq.1 h
    have hrank := LawfulEqOrd.eq_of_compare hrank
    have hstencil := LawfulEqOrd.eq_of_compare hstencil
    cases k <;> cases k' <;> simp_all [kindRank, stencil?]

/-- The order of connectives. -/
def compareConnective : Connective → Connective → Ordering := compareOn connectiveRank

instance : TransCmp compareConnective := inferInstanceAs (TransCmp (compareOn connectiveRank))

instance : LawfulEqCmp compareConnective where
  eq_of_compare {c c'} h := by
    have hrank : connectiveRank c = connectiveRank c' := LawfulEqOrd.eq_of_compare h
    cases c <;> cases c' <;> simp_all [connectiveRank]

/-! ## Keys -/

theorem compare_link (k k' : LinkKind) (s t s' t' : Slot) :
    compare (.link k s t) (.link k' s' t') =
      (compareKind k k').then ((compareSlot s s').then (compareSlot t t')) := rfl

/-- Formulas are compared by connective, ends, quantified variable and operands, from left to right.
-/
theorem compare_formula (c c' : Connective) (x y x' y' : Slot) (q q' : Option Slot)
    (l r l' r' : PathKey) : compare (.formula c x y q l r) (.formula c' x' y' q' l' r') =
      ((compareConnective c c').then <| (compareSlot x x').then <| (compareSlot y y').then <|
        (compareQuantified q q').then <| (compare l l').then (compare r r')) := rfl

/-- An exchange of the keys turns their comparison around. -/
theorem compare_eq_swap (a b : PathKey) : compare a b = (compare b a).swap := by
  induction a generalizing b with
  | link k s t =>
    cases b with
    | link k' s' t' =>
      simp only [compare_link, Ordering.swap_then]
      rw [← OrientedCmp.eq_swap, ← OrientedCmp.eq_swap, ← OrientedCmp.eq_swap]
    | formula => rfl
  | formula c x y q l r ihl ihr =>
    cases b with
    | link => rfl
    | formula c' x' y' q' l' r' =>
      simp only [compare_formula, Ordering.swap_then]
      rw [← ihl, ← ihr, ← OrientedCmp.eq_swap, ← OrientedCmp.eq_swap, ← OrientedCmp.eq_swap,
        ← OrientedCmp.eq_swap]

/-- Only equal keys compare as equal. -/
theorem compare_eq_iff {a b : PathKey} : compare a b = .eq ↔ a = b := by
  induction a generalizing b with
  | link k s t =>
    cases b with
    | link k' s' t' =>
      simp only [compare_link, Ordering.then_eq_eq, LawfulEqCmp.compare_eq_iff_eq,
        PathTree.link.injEq]
    | formula => simp [compare]
  | formula c x y q l r ihl ihr =>
    cases b with
    | link => simp [compare]
    | formula c' x' y' q' l' r' =>
      simp only [compare_formula, Ordering.then_eq_eq, LawfulEqCmp.compare_eq_iff_eq, ihl, ihr,
        PathTree.formula.injEq]

/-- Three keys are compared consistently, part by part. -/
theorem composes_compare (a b c : PathKey) :
    Composes (compare a b) (compare b c) (compare a c) := by
  -- A link comes before every formula, so that no part of the two is compared.
  induction a generalizing b c with
  | link k s t =>
    cases b with
    | link k' s' t' =>
      cases c with
      | link k'' s'' t'' =>
        exact (composes_of_transCmp compareKind k k' k'').then <|
          (composes_of_transCmp compareSlot s s' s'').then
            (composes_of_transCmp compareSlot t t' t'')
      | formula => exact composes_lt_right
    | formula =>
      cases c with
      | link => exact composes_gt_right
      | formula => exact composes_lt_left
  | formula k x y q l r ihl ihr =>
    cases b with
    | link => exact composes_gt_left
    | formula k' x' y' q' l' r' =>
      cases c with
      | link => exact composes_gt_right
      | formula k'' x'' y'' q'' l'' r'' =>
        exact (composes_of_transCmp compareConnective k k' k'').then <|
          (composes_of_transCmp compareSlot x x' x'').then <|
          (composes_of_transCmp compareSlot y y' y'').then <|
          (composes_of_transCmp compareQuantified q q' q'').then <|
          (ihl l' l'').then (ihr r' r'')

instance : OrientedCmp compare := ⟨compare_eq_swap _ _⟩

instance : TransCmp compare := transCmp_of_composes composes_compare

instance : LawfulEqCmp compare where
  eq_of_compare := compare_eq_iff.1

end PathKey

/-! ## Expressions -/

/-- The outcomes of `compare?` order the values that it compares, and `same` values have one
place. -/
structure Orders {α : Type} (compare? : α → α → Option Ordering) (same : α → α → Bool) : Prop where
  /-- The outcome is equality exactly for values that are the same. -/
  eq_iff (a b : α) : compare? a b = some .eq ↔ same a b = true
  /-- The outcome is reversed for values that change places. -/
  swap (a b : α) : compare? b a = (compare? a b).map Ordering.swap
  /-- What is less than a lesser value is less. -/
  lt_trans {a b c : α} : compare? a b = some .lt → compare? b c = some .lt →
    compare? a c = some .lt
  lt_of_lt_of_eq {a b c : α} : compare? a b = some .lt → compare? b c = some .eq →
    compare? a c = some .lt
  lt_of_eq_of_lt {a b c : α} : compare? a b = some .eq → compare? b c = some .lt →
    compare? a c = some .lt

variable {α β : Type} {compare? : α → α → Option Ordering} {same : α → α → Bool}

/-- Values that have a key are ordered by it. -/
theorem orders_of_key (compare : β → β → Ordering) [TransCmp compare] [LawfulEqCmp compare]
    (key? : α → Option β)
    (hcompare : ∀ a b, compare? a b = (key? a).bind fun k => (key? b).map (compare k))
    (hsame : ∀ a b, same a b = true ↔ ∃ k, key? a = some k ∧ key? b = some k) :
    Orders compare? same := by
  have hsome : ∀ {a b o}, compare? a b = some o ↔
      ∃ k l, key? a = some k ∧ key? b = some l ∧ compare k l = o := by
    intro a b o
    simp [hcompare, Option.bind_eq_some_iff]
  -- Values with an outcome have keys, whose laws are those of the values.
  constructor
  case eq_iff =>
    intro a b
    rw [hsome, hsame]
    constructor
    · rintro ⟨k, l, ha, hb, hkl⟩
      exact ⟨k, ha, LawfulEqCmp.eq_of_compare hkl ▸ hb⟩
    · rintro ⟨k, ha, hb⟩
      exact ⟨k, k, ha, hb, ReflCmp.compare_self⟩
  case swap =>
    intro a b
    rw [hcompare, hcompare]
    cases key? a <;> cases key? b
    case some.some k l => exact congrArg some OrientedCmp.eq_swap
    all_goals rfl
  all_goals
    intro a b c hab hbc
    obtain ⟨k, l, ha, hb, hkl⟩ := hsome.1 hab
    obtain ⟨l', m, hb', hc, hlm⟩ := hsome.1 hbc
    obtain rfl : l = l' := Option.some.inj (hb.symm.trans hb')
    refine hsome.2 ⟨k, m, ha, hc, ?_⟩
  case lt_trans => exact TransCmp.lt_trans hkl hlm
  case lt_of_lt_of_eq => exact TransCmp.lt_of_lt_of_eq hkl hlm
  case lt_of_eq_of_lt => exact TransCmp.lt_of_eq_of_lt hkl hlm

namespace PathTree

variable {S : Type} {x y : OpenExpr S}

/-- Two ends with one name share a slot. -/
theorem structuralKey_link_of_name_eq (kind : LinkKind) {v w : OpenVar S} (h : v.name = w.name) :
    (link kind v w).structuralKey = link kind ⟨0, none⟩ ⟨0, none⟩ := by
  simp [structuralKey, keyWith, rootScope, endName, endpoint, End.pick, slots, slot, h]

/-- The structural comparison orders all expressions up to structural equality. -/
theorem orders_structuralCompare :
    Orders (fun x y : OpenExpr S => some (structuralCompare x y)) structuralEq := by
  refine orders_of_key PathKey.compare (fun x : OpenExpr S => some x.structuralKey)
    (fun _ _ => rfl) ?_
  intro x y
  rw [structuralEq, decide_eq_true_iff]
  simp [eq_comm]

variable [Identified S]

/-- The comparison of bound expressions orders them up to bound equality. -/
theorem orders_boundCompare? : Orders (boundCompare? (S := S)) boundEq := by
  refine orders_of_key PathKey.compare (fun x : OpenExpr S => x.boundKey?.toOption)
    (fun x y => ?_) fun x y => ?_
  · rw [boundCompare?]
    cases x.boundKey? <;> cases y.boundKey? <;> rfl
  · rw [boundEq]
    cases x.boundKey? <;> cases y.boundKey? <;> simp [Except.toOption, eq_comm]

/-- The expressions with a bound key are the bound ones. -/
theorem isSome_boundKey?_iff : x.boundKey?.toOption.isSome = true ↔ x.isBound = true := by
  rw [isBound_iff]
  constructor
  · intro h
    rw [boundKey?] at h
    cases hclose : x.close with
    | error e =>
      rw [hclose] at h
      cases h
    | ok z => exact ⟨z, close_eq_ok_iff.1 hclose⟩
  · rintro ⟨z, rfl⟩
    rw [boundKey?_toOpen]
    rfl

/-- Two expressions are compared as bound ones exactly if both are bound. -/
theorem isSome_boundCompare?_iff :
    (boundCompare? x y).isSome = true ↔ x.isBound = true ∧ y.isBound = true := by
  rw [← isSome_boundKey?_iff, ← isSome_boundKey?_iff, boundCompare?]
  cases x.boundKey? <;> cases y.boundKey? <;> simp [Except.toOption]

/-! ## Renamed expressions -/

/-- Whatever the ends of an expression are named, two different names can be given to them, and the
shape stays. If both have one name, then both take the first of the new names. -/
theorem exists_rename_structuralKey_eq {p q : OpenVar S} (hx : x.WellFormed)
    (hpq : p.name ≠ q.name) :
    ∃ y, x.rename [p, q] = .ok y ∧ y.structuralKey = x.structuralKey := by
  by_cases hne : x.endName .first = x.endName .second
  -- Only a link can have one name at both ends, and it is replaced as a whole.
  · cases x with
    | link kind v w =>
      have hvw : v.name = w.name := hne
      refine ⟨link kind (replacement v p) (replacement v p), ?_, ?_⟩
      · simp [rename, substitute, Substitution.apply, endpoint, End.pick, hvw]
      · rw [structuralKey_link_of_name_eq kind rfl, structuralKey_link_of_name_eq kind hvw]
    | formula => exact absurd hne (names_ne_of_formula hx rfl .first)
  · obtain ⟨y, hy, -, -, hkey⟩ := exists_rename hx hne hpq
    exact ⟨y, hy, hkey⟩

/-- The order of shapes and the order of bound expressions are orders for the keys of a map. The
second one compares exactly the bound expressions. The first one does not change when the ends of an
expression are renamed. -/
theorem orders_compare :
    Orders (fun x y : OpenExpr S => some (structuralCompare x y)) structuralEq ∧
    Orders (boundCompare? (S := S)) boundEq ∧
    (∀ x y : OpenExpr S, (boundCompare? x y).isSome = true ↔ x.isBound = true ∧ y.isBound = true) ∧
    ∀ (x : OpenExpr S) (p q : OpenVar S), x.Constructible → p.name ≠ q.name →
      ∃ x', x.rename [p, q] = .ok x' ∧
        ∀ y, structuralCompare x' y = structuralCompare x y ∧
          structuralCompare y x' = structuralCompare y x := by
  refine ⟨orders_structuralCompare, orders_boundCompare?, fun x y => isSome_boundCompare?_iff, ?_⟩
  intro x p q hx hpq
  obtain ⟨x', hrename, hkey⟩ :=
    exists_rename_structuralKey_eq (constructible_iff_wellFormed.1 hx) hpq
  refine ⟨x', hrename, fun y => ?_⟩
  rw [structuralCompare, structuralCompare, structuralCompare, structuralCompare, hkey]
  exact ⟨rfl, rfl⟩

/-- A link from a vertex to itself comes before one between two vertices, under any names. -/
theorem orders_compare_loop :
    let loop : OpenExpr := .link .edgeToVertex (.unbound "e") (.unbound "e")
    let hop : OpenExpr := .link .edgeToVertex (.unbound "e") (.unbound "v")
    structuralCompare loop hop = .lt ∧
      ∃ loop', loop.rename [.unbound "v", .unbound "e"] = .ok loop' ∧
        structuralCompare loop' hop = .lt := by
  intro loop hop
  have hloop : loop.Constructible := constructible_iff_wellFormed.2 (by decide)
  have hlt : structuralCompare loop hop = .lt := by decide
  obtain ⟨loop', hrename, hsame⟩ :=
    orders_compare.2.2.2 loop (.unbound "v") (.unbound "e") hloop (by decide)
  exact ⟨hlt, loop', hrename, (hsame hop).1.trans hlt⟩

end PathTree

end MeshPath
