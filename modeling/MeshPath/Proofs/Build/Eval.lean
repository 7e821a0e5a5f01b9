import MeshPath.Build.Memo
import MeshPath.Proofs.Expr.WellFormed

/-!
# Realization without a memo

`PathTree.eval` realizes a bound expression from its sets alone. It has the cases of
`PathTree.realize`, which remembers what it realizes. Links and formulas may be realized in any way.

* `ReadsOperands`: the order in which the operands of a formula are read, and from which ends.
* `eval_plain`, `eval_quantified`: the operands of a well-formed formula always have the ends from
  which they are read.
* `exists_readsOperands`, `exists_operands`: with and without a memo, a well-formed formula is
  realized from its two operands in this order.
* `eval_link`, `eval_combine`, `eval_eliminate`: evaluation with the realizer of `BuildOptions`.
-/

namespace MeshPath

namespace Realizing

/-- Two realizations one after the other, and an index from theirs, which may fail as well. -/
def both {ε I : Type} (first second : Realizing ε I (Built I)) (f : I → I → Except ε I) :
    Realizing ε I I := do
  let l ← first
  let r ← second
  ofExcept (f l.index r.index)

end Realizing

namespace PathTree

/-! ## The ends of the operands -/

section Ends

variable {S : Type} {c : Connective} {x y q : BoundVar S} {lhs rhs : BoundExpr S} {rows : End}

/-- The quantified variable of a well-formed formula has a name that neither end has. -/
theorem quantified_ne (h : WellFormed (formula c x y (some q) lhs rhs)) (rows : End) :
    q.name ≠ (rows.pick x y).name := by
  obtain ⟨⟨-, hqx, hqy, -⟩, -, -⟩ := wellFormed_quantified_iff.1 h
  cases rows
  · exact hqx
  · exact hqy

/-- Without a quantified variable, both operands have an end with the name of the source, and lead
from there to the sink. -/
theorem operandEnds_plain (h : WellFormed (formula c x y none lhs rhs)) (rows : End) :
    ∃ le re, lhs.Leads le (rows.pick x y).name (rows.other.pick x y).name ∧
      rhs.Leads re (rows.pick x y).name (rows.other.pick x y).name ∧
      lhs.endNamed? (rows.pick x y).name = some le ∧
      rhs.endNamed? (rows.pick x y).name = some re := by
  obtain ⟨le, re, hl, hr⟩ := exists_ends h rows
  have hne := source_ne_sink h rows
  exact ⟨le, re, hl, hr, hl.endNamed?_eq_some hne, hr.endNamed?_eq_some hne⟩

/-- With a quantified variable, the first hop leads from the source to it, and the second one from
there to the sink. -/
theorem operandEnds_quantified (h : WellFormed (formula c x y (some q) lhs rhs)) (rows : End) :
    ∃ ne fe, (near lhs rhs (rows.pick x y).name).Leads ne (rows.pick x y).name q.name ∧
      (far lhs rhs (rows.pick x y).name).Leads fe q.name (rows.other.pick x y).name ∧
      (near lhs rhs (rows.pick x y).name).endNamed? (rows.pick x y).name = some ne ∧
      (far lhs rhs (rows.pick x y).name).endNamed? q.name = some fe := by
  obtain ⟨ne, fe, hn, hf⟩ := exists_hops h rows
  exact ⟨ne, fe, hn, hf, hn.endNamed?_eq_some (quantified_ne h rows).symm,
    hf.endNamed?_eq_some (quantified_ne h rows.other)⟩

/-- Read from its end `rows`, a formula is realized from the operand `l`, read from its end `le`,
and then from the operand `r`, read from its end `re`. -/
inductive ReadsOperands : BoundExpr S → End → BoundExpr S → End → BoundExpr S → End → Prop
  /-- Without a quantified variable, both operands are read from the source. -/
  | plain {c : Connective} {x y : BoundVar S} {lhs rhs : BoundExpr S} {rows le re : End} :
      lhs.endNamed? (rows.pick x y).name = some le →
      rhs.endNamed? (rows.pick x y).name = some re →
        ReadsOperands (formula c x y none lhs rhs) rows lhs le rhs re
  /-- With one, the operand that has the source at an end is read from the source, and then the
  other one from the quantified variable. -/
  | quantified {c : Connective} {x y q : BoundVar S} {lhs rhs : BoundExpr S} {rows ne fe : End} :
      (near lhs rhs (rows.pick x y).name).endNamed? (rows.pick x y).name = some ne →
      (far lhs rhs (rows.pick x y).name).endNamed? q.name = some fe →
        ReadsOperands (formula c x y (some q) lhs rhs) rows (near lhs rhs (rows.pick x y).name) ne
          (far lhs rhs (rows.pick x y).name) fe

/-- Each operand is read once. -/
theorem ReadsOperands.sides {q : Option (BoundVar S)} {l r : BoundExpr S} {le re : End}
    (h : ReadsOperands (formula c x y q lhs rhs) rows l le r re) :
    l = lhs ∧ r = rhs ∨ l = rhs ∧ r = lhs := by
  cases h with
  | plain => exact .inl ⟨rfl, rfl⟩
  | quantified => exact near_far_eq lhs rhs (rows.pick x y).name

/-- An operand that has an end of a name is read from it. -/
theorem operandEnd_of_endNamed? {ε : Type} [Identified S] [PathFailure ε] {z : BoundExpr S}
    {name : String} {e : End} (h : z.endNamed? name = some e) :
    (z.operandEnd name : Except ε End) = .ok e := by
  rw [operandEnd, h]

end Ends

/-! ## Evaluation -/

variable {O S I ε : Type} [Identified S] [PathFailure ε] [Realizer O S I ε]

/-- The index of a bound expression, with the end `rows` as the source of its rows. -/
def eval (options : O) : BoundExpr S → End → Except ε I
  | link kind source sink, rows => Realizer.link options kind source.set sink.set rows
  | formula c x y none lhs rhs, rows => do
    let source := rows.pick x y
    let l ← lhs.eval options (← lhs.operandEnd source.name)
    let r ← rhs.eval options (← rhs.operandEnd source.name)
    Realizer.combine options c l r
  | formula c x y (some q) lhs rhs, rows => do
    let source := rows.pick x y
    let sink := rows.other.pick x y
    if (lhs.endNamed? source.name).isSome then
      let near ← lhs.eval options (← lhs.operandEnd source.name)
      let far ← rhs.eval options (← rhs.operandEnd q.name)
      Realizer.eliminate options c near far sink.set
    else
      let near ← rhs.eval options (← rhs.operandEnd source.name)
      let far ← lhs.eval options (← lhs.operandEnd q.name)
      Realizer.eliminate options c near far sink.set

variable {options : O} {c : Connective} {x y q : BoundVar S} {lhs rhs : BoundExpr S} {rows : End}

/-- A quantified formula is evaluated from its first hop and then from its second one, whichever
operands these are. -/
theorem eval_quantified_eq (options : O) (c : Connective) (x y q : BoundVar S)
    (lhs rhs : BoundExpr S) (rows : End) :
    (formula c x y (some q) lhs rhs).eval options rows = (do
      let source := (rows.pick x y).name
      let n ← (near lhs rhs source).eval options (← (near lhs rhs source).operandEnd source)
      let f ← (far lhs rhs source).eval options (← (far lhs rhs source).operandEnd q.name)
      Realizer.eliminate options c n f (rows.other.pick x y).set) := by
  simp only [eval, near, far]
  split <;> rfl

/-- `eval_quantified_eq` for realizations. -/
theorem realize_quantified_eq (options : O) (c : Connective) (x y q : BoundVar S)
    (lhs rhs : BoundExpr S) (rows : End) :
    (formula c x y (some q) lhs rhs).realize options rows =
      Memo.recall ⟨boundKey (formula c x y (some q) lhs rhs), rows⟩ (do
        let source := (rows.pick x y).name
        let n ← (near lhs rhs source).realize options
          (← Realizing.ofExcept ((near lhs rhs source).operandEnd source))
        let f ← (far lhs rhs source).realize options
          (← Realizing.ofExcept ((far lhs rhs source).operandEnd q.name))
        Realizing.ofExcept
          (Realizer.eliminate options c n.index f.index (rows.other.pick x y).set)) := by
  simp only [realize, near, far]
  split <;> rfl

/-- A formula without a quantified variable evaluates both operands from its source and combines
their indices. -/
theorem eval_plain {le re : End} (hl : lhs.endNamed? (rows.pick x y).name = some le)
    (hr : rhs.endNamed? (rows.pick x y).name = some re) :
    (formula c x y none lhs rhs).eval options rows = (do
      let l ← lhs.eval options le
      let r ← rhs.eval options re
      Realizer.combine options c l r) := by
  simp only [eval, operandEnd_of_endNamed? hl, operandEnd_of_endNamed? hr]
  rfl

/-- A quantified formula evaluates the hop at its source, then the one from its quantified variable,
and eliminates that variable. -/
theorem eval_quantified {ne fe : End}
    (hn : (near lhs rhs (rows.pick x y).name).endNamed? (rows.pick x y).name = some ne)
    (hf : (far lhs rhs (rows.pick x y).name).endNamed? q.name = some fe) :
    (formula c x y (some q) lhs rhs).eval options rows = (do
      let n ← (near lhs rhs (rows.pick x y).name).eval options ne
      let f ← (far lhs rhs (rows.pick x y).name).eval options fe
      Realizer.eliminate options c n f (rows.other.pick x y).set) := by
  rw [eval_quantified_eq]
  simp only [operandEnd_of_endNamed? hn, operandEnd_of_endNamed? hf]
  rfl

/-- With and without a memo, a well-formed formula is realized from its two operands, one after the
other, each read from one of its ends. -/
theorem exists_readsOperands (options : O) {q : Option (BoundVar S)}
    (h : WellFormed (formula c x y q lhs rhs)) (rows : End) :
    ∃ (l r : BoundExpr S) (le re : End) (f : I → I → Except ε I),
      ReadsOperands (formula c x y q lhs rhs) rows l le r re ∧
        (formula c x y q lhs rhs).realize options rows =
          Memo.recall ⟨boundKey (formula c x y q lhs rhs), rows⟩
            (.both (l.realize options le) (r.realize options re) f) ∧
        (formula c x y q lhs rhs).eval options rows = (do
          let i ← l.eval options le
          let j ← r.eval options re
          f i j) := by
  cases q with
  | none =>
    obtain ⟨le, re, -, -, hl, hr⟩ := operandEnds_plain h rows
    refine ⟨lhs, rhs, le, re, Realizer.combine options c, .plain hl hr, ?_, eval_plain hl hr⟩
    simp only [realize, operandEnd_of_endNamed? hl, operandEnd_of_endNamed? hr]
    rfl
  | some q =>
    obtain ⟨ne, fe, -, -, hn, hf⟩ := operandEnds_quantified h rows
    refine ⟨near lhs rhs (rows.pick x y).name, far lhs rhs (rows.pick x y).name, ne, fe,
      fun i j => Realizer.eliminate options c i j (rows.other.pick x y).set, .quantified hn hf, ?_,
      eval_quantified hn hf⟩
    rw [realize_quantified_eq]
    simp only [operandEnd_of_endNamed? hn, operandEnd_of_endNamed? hf]
    rfl

/-- The operands of a well-formed formula, in the order in which it is realized from them. -/
theorem exists_operands (options : O) {q : Option (BoundVar S)}
    (h : WellFormed (formula c x y q lhs rhs)) (rows : End) :
    ∃ (l r : BoundExpr S) (le re : End) (f : I → I → Except ε I),
      (l = lhs ∧ r = rhs ∨ l = rhs ∧ r = lhs) ∧
        (formula c x y q lhs rhs).realize options rows =
          Memo.recall ⟨boundKey (formula c x y q lhs rhs), rows⟩
            (.both (l.realize options le) (r.realize options re) f) ∧
        (formula c x y q lhs rhs).eval options rows = (do
          let i ← l.eval options le
          let j ← r.eval options re
          f i j) := by
  obtain ⟨l, r, le, re, f, hreads, hrealize, heval⟩ := exists_readsOperands options h rows
  exact ⟨l, r, le, re, f, hreads.sides, hrealize, heval⟩

/-! ## The realizer of the build options -/

section Options

variable {options : BuildOptions} {c : Connective} {x y q : BoundVar} {lhs rhs : BoundExpr}
  {rows : End}

/-- Under `BuildOptions`, a link has the relation between its sets. -/
theorem eval_link (options : BuildOptions) (kind : LinkKind) (source sink : BoundVar) (rows : End) :
    (link kind source sink).eval options rows =
      Link.realize options kind source.set sink.set rows := rfl

/-- Under `BuildOptions`, a formula without a quantified variable has the combined rows of its
operands. -/
theorem eval_combine {le re : End} (hl : lhs.endNamed? (rows.pick x y).name = some le)
    (hr : rhs.endNamed? (rows.pick x y).name = some re) :
    (formula c x y none lhs rhs).eval options rows = (do
      let l ← lhs.eval options le
      let r ← rhs.eval options re
      return Formula.combine c l r) :=
  eval_plain hl hr

/-- Under `BuildOptions`, a quantified formula has the rows of its two hops. -/
theorem eval_eliminate {ne fe : End}
    (hn : (near lhs rhs (rows.pick x y).name).endNamed? (rows.pick x y).name = some ne)
    (hf : (far lhs rhs (rows.pick x y).name).endNamed? q.name = some fe) :
    (formula c x y (some q) lhs rhs).eval options rows = (do
      let n ← (near lhs rhs (rows.pick x y).name).eval options ne
      let f ← (far lhs rhs (rows.pick x y).name).eval options fe
      return Formula.eliminate c n f (rows.other.pick x y).set) :=
  eval_quantified hn hf

end Options

end PathTree

end MeshPath
