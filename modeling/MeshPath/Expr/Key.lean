import MeshPath.Expr.Shape

/-!
# Keys

A key is an expression with every variable replaced by a *slot*. The two ends have slots `0` and
`1` (one slot if they share their name), and each quantified variable opens the next free slot for
its scope, in preorder. Expressions that differ in the names of their variables alone have the same
key.

* `PathTree.structuralKey`: the key of the shape, without sets.
* `PathTree.boundKey`: the key that also holds the identity of the set at every occurrence.
* `PathKey.compare`: a total order on keys. Links come before conjunctions and these before
  disjunctions; within one kind the parts count from left to right.
* `PathKey.text`: the written form of a key.
-/

namespace MeshPath

/-- What a key holds of a variable occurrence. -/
structure Slot where
  /-- The number of the slot. -/
  index : Nat
  /-- The identity of the set in a bound key. -/
  set : Option SetId
deriving DecidableEq

/-- An expression over slots. -/
abbrev PathKey := PathTree Slot

/-- The slots of the names in scope, the innermost first. -/
abbrev Scope := List (String × Nat)

namespace PathTree

variable {S : Type}

/-- The slot of an occurrence. Where a name is not in scope, which no well-formed expression has,
it takes the slot `next`. -/
def slot (setId : S → Option SetId) (scope : Scope) (next : Nat) (v : Var S) : Slot :=
  ⟨(scope.lookup v.name).getD next, setId v.set⟩

/-- The expression over slots, for the names in scope and the first free slot `next`. The right
operand goes on after the quantified variables of the left one. -/
def slots (setId : S → Option SetId) (scope : Scope) (next : Nat) : PathExpr S → PathKey
  | link kind source sink => link kind (slot setId scope next source) (slot setId scope next sink)
  | formula c x y none lhs rhs =>
    formula c (slot setId scope next x) (slot setId scope next y) none
      (lhs.slots setId scope next) (rhs.slots setId scope (next + lhs.quantifierCount))
  | formula c x y (some q) lhs rhs =>
    -- The free variables belong to the outer scope, and only the operands see the new slot.
    formula c (slot setId scope next x) (slot setId scope next y) (some ⟨next, setId q.set⟩)
      (lhs.slots setId ((q.name, next) :: scope) (next + 1))
      (rhs.slots setId ((q.name, next) :: scope) (next + 1 + lhs.quantifierCount))

/-- The names of the ends with their slots. -/
def rootScope (x : PathExpr S) : Scope :=
  if x.endName .first = x.endName .second then [(x.endName .first, 0)]
  else [(x.endName .second, 1), (x.endName .first, 0)]

/-- The key of an expression, with what `setId` says of its sets. -/
def keyWith (setId : S → Option SetId) (x : PathExpr S) : PathKey :=
  x.slots setId x.rootScope x.rootScope.length

/-- The key of the shape of an expression. -/
def structuralKey (x : PathExpr S) : PathKey := x.keyWith fun _ => none

variable [Identified S]

/-- The key of an expression over its sets. -/
def boundKey (x : BoundExpr S) : PathKey := x.keyWith fun s => some (Identified.id s)

/-- The key of an expression over its sets, if every variable has one. -/
def boundKey? (x : OpenExpr S) : Except PathError PathKey := x.close.map boundKey

end PathTree

namespace PathKey

/-- Slots are compared by number, then by set; a slot without a set comes first. -/
def compareSlot (a b : Slot) : Ordering :=
  (Ord.compare a.index b.index).then (Ord.compare a.set b.set)

/-- The rank of a kind of link. -/
def kindRank : LinkKind → Nat
  | .edgeToVertex => 0
  | .vertexToEdge => 1
  | .stencil _ => 2

/-- Kinds of links are compared by rank, stencils by their offsets. -/
def compareKind : LinkKind → LinkKind → Ordering
  | .stencil s, .stencil t => Ord.compare s t
  | a, b => Ord.compare (kindRank a) (kindRank b)

/-- The rank of a connective. -/
def connectiveRank : Connective → Nat
  | .and => 0
  | .or => 1

/-- A formula without a quantified variable comes before one with it. -/
def compareQuantified : Option Slot → Option Slot → Ordering
  | none, none => .eq
  | none, some _ => .lt
  | some _, none => .gt
  | some a, some b => compareSlot a b

/-- The order of keys. -/
def compare : PathKey → PathKey → Ordering
  | .link k s t, .link k' s' t' =>
    (compareKind k k').then ((compareSlot s s').then (compareSlot t t'))
  | .link _ _ _, .formula _ _ _ _ _ _ => .lt
  | .formula _ _ _ _ _ _, .link _ _ _ => .gt
  | .formula c x y q l r, .formula c' x' y' q' l' r' =>
    (Ord.compare (connectiveRank c) (connectiveRank c')).then <|
      (compareSlot x x').then <| (compareSlot y y').then <| (compareQuantified q q').then <|
        (compare l l').then (compare r r')

/-- The written form of a slot. -/
def slotText (s : Slot) : String :=
  let set := match s.set with
    | none => "None"
    | some id => s!"Some(SetId({id.number}))"
  "KeyVar \x7b slot: " ++ toString s.index ++ ", set: " ++ set ++ " \x7d"

/-- The written form of a kind of link. -/
def kindText : LinkKind → String
  | .edgeToVertex => "EV"
  | .vertexToEdge => "VE"
  | .stencil s =>
    "VV(Stencil \x7b offsets: " ++ Text.bracketed (s.offsets.map Text.intList) ++ " \x7d)"

/-- The written form of a part of a key. -/
def termText : PathKey → String
  | .link kind source sink =>
    "Link \x7b kind: " ++ kindText kind ++ ", source: " ++ slotText source ++ ", sink: " ++
      slotText sink ++ " \x7d"
  | .formula c x y q lhs rhs =>
    let name := match c with
      | .and => "And"
      | .or => "Or"
    let quantified := q.toList.map fun s => "(Existential, " ++ slotText s ++ ")"
    name ++ "(KeyFormula \x7b free: " ++ Text.bracketed [slotText x, slotText y] ++
      ", quantified: " ++ Text.bracketed quantified ++ ", lhs: " ++ termText lhs ++ ", rhs: " ++
      termText rhs ++ " \x7d)"

/-- The written form of a key. -/
def text (k : PathKey) : String := "PathKey(" ++ termText k ++ ")"

end PathKey

namespace PathTree

variable {S : Type}

/-- Whether two expressions have the same shape. -/
def structuralEq (x y : OpenExpr S) : Bool := x.structuralKey = y.structuralKey

/-- The order of two expressions by their shapes. -/
def structuralCompare (x y : OpenExpr S) : Ordering :=
  PathKey.compare x.structuralKey y.structuralKey

variable [Identified S]

/-- Whether two expressions are bound and have the same shape over the same sets. -/
def boundEq (x y : OpenExpr S) : Bool :=
  match x.boundKey?, y.boundKey? with
  | .ok a, .ok b => a = b
  | _, _ => false

/-- The order of two bound expressions by their shapes and sets. -/
def boundCompare? (x y : OpenExpr S) : Option Ordering :=
  match x.boundKey?, y.boundKey? with
  | .ok a, .ok b => some (PathKey.compare a b)
  | _, _ => none

end PathTree

end MeshPath
