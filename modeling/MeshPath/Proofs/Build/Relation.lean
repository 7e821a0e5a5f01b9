import MeshPath.Build.Formula
import MeshPath.Expr.Tree
import MeshPath.Proofs.Index.Rows

/-!
# The relation of an expression

What an expression relates, without indices: `PathTree.Rel z rows i j` says that `z` leads from the
element `i` at its end `rows` to the element `j` at the other end.

* `Incident`, `Neighbor`: the relations of the links.
* `PathTree.Rel`: conjunction and disjunction of the operands, composition of two hops, and the
  broadcast of a disjunction with a quantified variable.
* `PathTree.WellTyped`: every link fits its sets.
* `PathIndex.Realizes`: the rows of an index are those of a relation. `realizes_combine`,
  `realizes_join` and `realizes_broadcast` say so for the indices of formulas.
-/

namespace MeshPath

/-! ## Relations -/

/-- The edge `e` has the end `v` at a position over `vertices`. -/
def Incident (edges vertices : SetView) (e v : Nat) : Prop :=
  e < edges.size ∧ ∃ p, edges.endpointSet? p = some vertices.id ∧ edges.endpoint? e p = some v

/-- Some offset of the stencil leads from `i` to `j`. -/
def Neighbor (lattice : SetView) (s : Stencil) (i j : Nat) : Prop :=
  i < lattice.size ∧
    ∃ dims, lattice.dimensions? = some dims ∧ ∃ o ∈ s.offsets, Lattice.shift dims i o = j

/-- The relation of a link, read from the end `rows`. From the second end, a stencil is read with
its offsets negated. -/
def LinkKind.Rel (kind : LinkKind) (source sink : SetView) (rows : End) (i j : Nat) : Prop :=
  match kind, rows with
  | edgeToVertex, .first => Incident source sink i j
  | edgeToVertex, .second => Incident source sink j i
  | vertexToEdge, .first => Incident sink source j i
  | vertexToEdge, .second => Incident sink source i j
  | stencil s, .first => Neighbor source s i j
  | stencil s, .second => Neighbor sink s.inverse i j

/-- The sets of a link fit its kind: some endpoint position of the edge side lies over the vertex
side, or both sides are one lattice with a dimension for each component of the offsets. -/
def LinkKind.WellTyped (kind : LinkKind) (source sink : SetView) : Prop :=
  match kind with
  | edgeToVertex => ∃ p, source.endpointSet? p = some sink.id
  | vertexToEdge => ∃ p, sink.endpointSet? p = some source.id
  | stencil s =>
    source.id = sink.id ∧ ∃ dims, source.dimensions? = some dims ∧ dims.length = s.arity

/-- Both or one of two statements, as the connective says. -/
def Connective.Holds (c : Connective) (p q : Prop) : Prop :=
  match c with
  | and => p ∧ q
  | or => p ∨ q

namespace PathTree

/-- The relation `R` of an operand, read from its end of the given name. -/
def ReadFrom (z : BoundExpr) (R : End → Nat → Nat → Prop) (name : String) (i j : Nat) : Prop :=
  ∃ e, z.endNamed? name = some e ∧ R e i j

/-- The relation of an expression, read from the end `rows`. -/
def Rel : BoundExpr → End → Nat → Nat → Prop
  | link kind source sink, rows, i, j => kind.Rel source.set sink.set rows i j
  | formula c x y none lhs rhs, rows, i, j =>
    let source := (rows.pick x y).name
    c.Holds (ReadFrom lhs lhs.Rel source i j) (ReadFrom rhs rhs.Rel source i j)
  | formula .and x y (some q) lhs rhs, rows, i, j =>
    -- The operand that has the source at an end is the first hop, and the other one goes on.
    let source := (rows.pick x y).name
    ∃ k, ReadFrom lhs lhs.Rel source i k ∧ ReadFrom rhs rhs.Rel q.name k j ∨
      ReadFrom rhs rhs.Rel source i k ∧ ReadFrom lhs lhs.Rel q.name k j
  | formula .or x y (some _) lhs rhs, rows, i, j =>
    -- Whatever the first hop reaches, it reaches the whole set of the sink.
    let source := (rows.pick x y).name
    (∃ k, ReadFrom lhs lhs.Rel source i k ∨ ReadFrom rhs rhs.Rel source i k) ∧
      j < (rows.other.pick x y).set.size

/-- Every link of the expression fits its sets. -/
def WellTyped : BoundExpr → Prop
  | link kind source sink => kind.WellTyped source.set sink.set
  | formula _ _ _ _ lhs rhs => lhs.WellTyped ∧ rhs.WellTyped

end PathTree

/-! ## Indices of relations -/

namespace PathIndex

/-- The index has `size` elements, and its rows are those of `R`. -/
structure Realizes (index : PathIndex) (size : Nat) (R : Nat → Nat → Prop) : Prop where
  numElements_eq : index.numElements = size
  mem_row_iff : ∀ {i j : Nat}, j ∈ index.row i ↔ R i j
  lt_of_rel : ∀ {i j : Nat}, R i j → i < size

variable {index l r : PathIndex} {n k : Nat} {R S : Nat → Nat → Prop}

theorem Realizes.congr (h : index.Realizes n R) (hRS : ∀ i j, R i j ↔ S i j) :
    index.Realizes n S where
  numElements_eq := h.numElements_eq
  mem_row_iff := h.mem_row_iff.trans (hRS _ _)
  lt_of_rel hs := h.lt_of_rel ((hRS _ _).2 hs)

/-- Below `span32`, an index visits all of its elements. -/
theorem Realizes.elements_eq (h : index.Realizes n R) (hn : n < Word.span32) :
    index.elements = List.range n := by
  rw [elements, h.numElements_eq, Word.low32_eq_self hn]

/-- An index whose rows hold what `R` relates. -/
theorem HasRows.realizes {f : Nat → List Nat} (h : index.HasRows n f)
    (hf : ∀ {i j : Nat}, i < n → (j ∈ f i ↔ R i j)) (hR : ∀ {i j : Nat}, R i j → i < n) :
    index.Realizes n R where
  numElements_eq := h.numElements_eq
  mem_row_iff {i j} := by
    rw [h.row_eq]
    -- Rows out of range are empty, and `R` relates nothing there.
    split
    · next hi => exact hf hi
    · next hi =>
      constructor
      · intro hj
        cases hj
      · intro hR'
        exact absurd (hR hR') hi
  lt_of_rel := hR

/-- The index with the rows that `f` gives for the elements of another index. -/
theorem Realizes.ofRows_map (h : index.Realizes n R) (hn : n < Word.span32) (f : Nat → List Nat)
    (hf : ∀ {i j : Nat}, i < n → (j ∈ f i ↔ S i j)) (hS : ∀ {i j : Nat}, S i j → i < n) :
    (segmented (.ofRows (index.elements.map f))).Realizes n S := by
  rw [h.elements_eq hn]
  exact (hasRows_ofRows_map n f).realizes hf hS

end PathIndex

namespace Formula

open PathIndex

variable {l r : PathIndex} {n k : Nat} {R S : Nat → Nat → Prop}

/-- Combined rows hold what both operands relate, or either of them. -/
theorem realizes_combine (c : Connective) (hl : l.Realizes n R) (hr : r.Realizes n S)
    (hn : n < Word.span32) : (combine c l r).Realizes n fun i j => c.Holds (R i j) (S i j) := by
  refine hl.ofRows_map hn _ (fun {i j} _ => ?_) fun {i j} h => ?_
  · cases c with
    | and => rw [Row.mem_inter, hl.mem_row_iff, hr.mem_row_iff]; rfl
    | or => rw [Row.mem_union, hl.mem_row_iff, hr.mem_row_iff]; rfl
  · cases c with
    | and => exact hl.lt_of_rel h.1
    | or => exact h.elim hl.lt_of_rel hr.lt_of_rel

/-- Joined rows hold the composition of two relations. -/
theorem realizes_join (hl : l.Realizes n R) (hr : r.Realizes k S) (hn : n < Word.span32) :
    (join l r).Realizes n fun i j => ∃ m, R i m ∧ S m j := by
  refine hl.ofRows_map hn _ (fun {i j} _ => ?_) fun {i j} ⟨m, h, _⟩ => hl.lt_of_rel h
  rw [Row.mem_distinct, List.mem_flatMap]
  simp only [hl.mem_row_iff, hr.mem_row_iff]

/-- A broadcast leads from wherever its hop leads anywhere to all sinks. -/
theorem realizes_broadcast (hl : l.Realizes n R) (hn : n < Word.span32) (sinks : Nat) :
    (broadcast l sinks).Realizes n fun i j => (∃ m, R i m) ∧ j < sinks := by
  refine hl.ofRows_map hn _ (fun {i j} _ => ?_) fun {i j} ⟨⟨m, h⟩, _⟩ => hl.lt_of_rel h
  -- A source without a hop has no sinks, and every other one has all of them.
  have hempty : (l.row i).isEmpty = true ↔ ¬ ∃ m, R i m := by
    rw [List.isEmpty_iff, List.eq_nil_iff_forall_not_mem]
    simp only [hl.mem_row_iff, not_exists]
  by_cases hm : ∃ m, R i m
  · rw [if_neg fun h => hempty.1 h hm, List.mem_range]
    exact (and_iff_right hm).symm
  · rw [if_pos (hempty.2 hm)]
    simp [hm]

end Formula

end MeshPath
