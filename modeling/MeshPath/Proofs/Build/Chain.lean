import MeshPath.Proofs.Build.Bounds

/-!
# Two links in a row

A chain leads from `x` to `y` by one link to the quantified variable `q` and by another one from
there. Its relation is the composition of theirs, whichever end it is read from.

* `PathTree.chain`: the expression. `eq_chain_of_sharedEdge?`: vertices that share an edge are
  the ends of a chain.
* `rel_chain_iff`: the relation of a chain.
* `exists_build_chain`: a chain of links that fit their sets is built from both ends. Its index has
  the rows of its relation, strictly ascending, and counts their sinks.
-/

namespace MeshPath

open PathTree

namespace PathTree

/-- From `x` to `q` by a link of one kind, and from `q` to `y` by one of another kind. -/
def chain {V : Type} (kind kind' : LinkKind) (x q y : V) : PathTree V :=
  formula .and x y (some q) (link kind x q) (link kind' q y)

variable {kind kind' : LinkKind} {x q y : BoundVar} {rows : End} {i j : Nat}

/-- The expression for vertices that share an edge is a chain over the edge. -/
theorem eq_chain_of_sharedEdge? {u e w : OpenVar} {z : OpenExpr}
    (h : sharedEdge? u e w = .ok z) :
    z = chain .vertexToEdge .edgeToVertex u e w ∧ z.Constructible :=
  ⟨(checked_eq_ok_iff.1 h).2, .formula (.link _ _ _) (.link _ _ _) h⟩

/-- Read from either end, a chain takes its two hops one after the other. -/
theorem rel_chain_iff (h : (chain kind kind' x q y).WellFormed) (rows : End) (i j : Nat) :
    (chain kind kind' x q y).Rel rows i j ↔
      ∃ k, (rows.pick (kind.Rel x.set q.set) (kind'.Rel q.set y.set)) rows i k ∧
        (rows.pick (kind'.Rel q.set y.set) (kind.Rel x.set q.set)) rows k j := by
  obtain ⟨⟨hxy, hqx, hqy, -⟩, -, -⟩ := wellFormed_quantified_iff.1 h
  have hlhs : (link kind x q).Leads .first x.name q.name := ⟨rfl, rfl⟩
  have hrhs : (link kind' q y).Leads .first q.name y.name := ⟨rfl, rfl⟩
  refine exists_congr fun k => ?_
  -- Only one of the operands has the source at an end, so that only one order of them counts.
  cases rows with
  | first =>
    show ReadFrom _ _ x.name i k ∧ ReadFrom _ _ q.name k j ∨
      ReadFrom _ _ x.name i k ∧ ReadFrom _ _ q.name k j ↔ _
    rw [readFrom_iff hlhs hqx.symm, readFrom_iff hrhs hqy,
      or_iff_left fun hback => not_readFrom hrhs hqx.symm hxy hback.1]
    rfl
  | second =>
    show ReadFrom _ _ y.name i k ∧ ReadFrom _ _ q.name k j ∨
      ReadFrom _ _ y.name i k ∧ ReadFrom _ _ q.name k j ↔ _
    rw [readFrom_iff hrhs.other hqy.symm, readFrom_iff hlhs.other hqx,
      or_iff_right fun hback => not_readFrom hlhs hxy.symm hqy.symm hback.1]
    rfl

/-- In a chain every link has the sets of the formula's own variables. -/
theorem coherent_chain (h : (chain kind kind' x q y).WellFormed) :
    (chain kind kind' x q y).toOpen.Coherent := by
  obtain ⟨⟨hxy, hqx, hqy, -⟩, -, -⟩ := wellFormed_quantified_iff.1 h
  -- Every name stands for one of the three variables.
  have hsame : ∀ v ∈ [x, y, q], ∀ w ∈ [x, y, q], w.name = v.name → w = v := by
    intro v hv w hw hname
    simp only [List.mem_cons, List.not_mem_nil, or_false] at hv hw
    rcases hv with rfl | rfl | rfl <;> rcases hw with rfl | rfl | rfl <;> simp_all
  refine coherentBy_toOpen.2 ⟨fun v hv e => ⟨fun hname => ?_, fun hname => ?_⟩, trivial, trivial⟩
  · rw [hsame v hv ((link kind x q).endpoint e) (by cases e <;> simp [endpoint, End.pick]) hname]
  · rw [hsame v hv ((link kind' q y).endpoint e) (by cases e <;> simp [endpoint, End.pick]) hname]

end PathTree

namespace Builder

variable {m : Mesh} {b : Builder} {kind kind' : LinkKind} {x q y : BoundVar} {z : OpenExpr}

/-- A chain of links that fit their sets is built from both ends, bound already or from the
table. -/
theorem exists_build_chain (hm : m.Reached) (hb : b.Serves m) (hz : z.Constructible)
    (hform : b.boundForm z = .ok (chain kind kind' x q y))
    (hsets : ∀ v ∈ [x, q, y], m.Holds v.set ∧ v.set.size < Word.span32)
    (htyped : kind.WellTyped x.set q.set) (htyped' : kind'.WellTyped q.set y.set) (rows : End) :
    ∃ built, (b.build z rows.toNat).1 = .ok built ∧
      built.index.Realizes (rows.pick x y).set.size ((chain kind kind' x q y).Rel rows) ∧
      (∀ i, (built.index.row i).Pairwise (· < ·)) ∧
      built.index.numNeighbors =
        ((List.range built.index.numElements).map built.index.numNeighborsOf).sum := by
  have hwf := wellFormed_of_boundForm (constructible_iff_wellFormed.1 hz) hform
  have hvars : ∀ v ∈ (chain kind kind' x q y).vars, v ∈ [x, q, y] := by
    intro v hv
    simp only [chain, vars, Option.toList_some, List.mem_append, List.mem_cons, List.not_mem_nil,
      or_false] at hv ⊢
    tauto
  have hcarries : m.Carries (chain kind kind' x q y) := {
    constructible := constructible_iff_wellFormed.2 (wellFormed_toOpen.2 hwf)
    holds := fun v hv => (hsets v (hvars v hv)).1
    small := fun v hv => (hsets v (hvars v hv)).2 }
  rw [build_eq_build_toOpen (End.ofNat?_toNat rows) hform]
  obtain ⟨built, hok⟩ := (exists_build_iff hm hb hcarries rows).2 ⟨htyped, htyped'⟩
  obtain ⟨n, f, hrows⟩ := exists_hasRows_of_eval (Mesh.regularSets_of_reached hm) hwf
    hcarries.regular (hb.eval_eq_ok hcarries hok)
  exact ⟨built, hok, realizes_of_build hm hb hcarries (coherent_chain hwf) hok,
    pairwise_row_of_build hb hcarries rfl hok, hrows.numNeighbors_eq_sum⟩

end Builder

end MeshPath
