import MeshPath.Build.Realizer
import MeshPath.Expr.Key

/-!
# Memoized realization

A bound expression is realized from the indices of its operands. Every expression on the way is
remembered under its bound key and the end that is the source of its rows, so that expressions over
the same sets that differ in the names of their variables share one index.

* `Memo`: what has been realized, with the numbers of hits and misses. Entries are never replaced
  or removed, so the place of an entry identifies the index that it holds.
* `Memo.recall`: the remembered answer to a request, or a computed one, which is then remembered.
* `PathTree.realize`: the index of a bound expression. A failed realization keeps the misses that
  it counted and the operands that it remembered.
-/

namespace MeshPath

/-- A bound key together with the end that is the source of the rows. -/
structure Request where
  /-- The key of the expression. -/
  key : PathKey
  /-- The source of the rows. -/
  rows : End
deriving DecidableEq

/-- An index with its place in the memo, which identifies it. -/
structure Built (I : Type := PathIndex) where
  /-- The place of the index in the memo. -/
  place : Nat
  /-- The index. -/
  index : I
deriving DecidableEq

/-- The realized requests in the order in which they were answered. -/
structure Memo (I : Type := PathIndex) where
  /-- The requests with their indices. -/
  entries : List (Request × I)
  /-- How often a request was found. -/
  hits : Nat
  /-- How often a request was not found. -/
  misses : Nat

namespace Memo

variable {I : Type}

/-- The memo without entries. -/
def empty : Memo I := ⟨[], 0, 0⟩

/-- The number of entries. -/
def size (m : Memo I) : Nat := m.entries.length

/-- The first entry for a request among `entries`, whose places are counted from `place`. -/
def findFrom (request : Request) : Nat → List (Request × I) → Option (Built I)
  | _, [] => none
  | place, e :: es => if e.1 = request then some ⟨place, e.2⟩ else findFrom request (place + 1) es

/-- The entry for a request. -/
def find? (m : Memo I) (request : Request) : Option (Built I) := findFrom request 0 m.entries

/-- The memo with one more hit. -/
def countHit (m : Memo I) : Memo I := { m with hits := m.hits + 1 }

/-- The memo with one more miss. -/
def countMiss (m : Memo I) : Memo I := { m with misses := m.misses + 1 }

/-- Remembers the index of a request. -/
def insert (m : Memo I) (request : Request) (index : I) : Built I × Memo I :=
  (⟨m.size, index⟩, { m with entries := m.entries ++ [(request, index)] })

end Memo

/-- A realization: it reads and extends the memo, and may fail. -/
abbrev Realizing (ε I : Type) := ExceptT ε (StateM (Memo I))

section Realizing

variable {ε I : Type}

/-- A computation that does not use the memo. -/
def Realizing.ofExcept {α : Type} (x : Except ε α) : Realizing ε I α := ExceptT.mk (pure x)

/-- The remembered answer to a request. If there is none, `compute` gives the answer, which is
then remembered. -/
def Memo.recall (request : Request) (compute : Realizing ε I I) : Realizing ε I (Built I) := do
  match (← get).find? request with
  | some built =>
    modify Memo.countHit
    return built
  | none =>
    modify Memo.countMiss
    let index ← compute
    modifyGet fun m => m.insert request index

end Realizing

namespace PathTree

variable {O S I ε : Type} [Identified S] [PathFailure ε]

/-- The end of an operand named `name`. -/
def operandEnd (x : BoundExpr S) (name : String) : Except ε End :=
  match x.endNamed? name with
  | some e => .ok e
  | none => .error (PathFailure.rejected (.malformedFormula x.toOpen.text (.unmentioned name)))

/-- The index of a bound expression, with the end `rows` as the source of its rows. The operands
of a formula without a quantified variable are both read from the source. Otherwise the operand
that has the source at an end comes first, and the other one is read from the quantified
variable. -/
def realize [Realizer O S I ε] (options : O) : BoundExpr S → End → Realizing ε I (Built I)
  | link kind source sink, rows =>
    Memo.recall ⟨boundKey (link kind source sink), rows⟩
      (Realizing.ofExcept (Realizer.link options kind source.set sink.set rows))
  | formula c x y none lhs rhs, rows =>
    Memo.recall ⟨boundKey (formula c x y none lhs rhs), rows⟩ do
      let source := rows.pick x y
      let l ← lhs.realize options (← Realizing.ofExcept (lhs.operandEnd source.name))
      let r ← rhs.realize options (← Realizing.ofExcept (rhs.operandEnd source.name))
      Realizing.ofExcept (Realizer.combine options c l.index r.index)
  | formula c x y (some q) lhs rhs, rows =>
    Memo.recall ⟨boundKey (formula c x y (some q) lhs rhs), rows⟩ do
      let source := rows.pick x y
      let sink := rows.other.pick x y
      -- The operand that has the source at an end is the first hop.
      if (lhs.endNamed? source.name).isSome then
        let near ← lhs.realize options (← Realizing.ofExcept (lhs.operandEnd source.name))
        let far ← rhs.realize options (← Realizing.ofExcept (rhs.operandEnd q.name))
        Realizing.ofExcept (Realizer.eliminate options c near.index far.index sink.set)
      else
        let near ← rhs.realize options (← Realizing.ofExcept (rhs.operandEnd source.name))
        let far ← lhs.realize options (← Realizing.ofExcept (lhs.operandEnd q.name))
        Realizing.ofExcept (Realizer.eliminate options c near.index far.index sink.set)

end PathTree

end MeshPath
