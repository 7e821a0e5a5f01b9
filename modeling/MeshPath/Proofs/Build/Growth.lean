import MeshPath.Proofs.Build.Eval
import MeshPath.Proofs.Expr.Binder
import MeshPath.Proofs.Success

/-!
# The memo only grows

* `Memo.Adds`: a memo with the entries of another one and more of some kind. `adds_recall`: what a
  lookup adds.
* `Memo.Grows`: a realization that only appends entries, all for smaller expressions than a given
  size. The operands of a formula are smaller than it, so none of them is remembered under its key.
* `find?_of_realize`: after a success, the expression is found with the index that was returned.
  `find?_of_realize_error`: after a failure it is not found.
-/

namespace MeshPath

namespace Memo

open Success

variable {ε I α : Type} {request : Request} {built : Built I} {n : Nat}

/-! ## Finding entries -/

/-- A search goes on behind the entries that do not have the request. -/
theorem findFrom_append (place : Nat) (before after : List (Request × I)) :
    findFrom request place (before ++ after) =
      (findFrom request place before).or (findFrom request (place + before.length) after) := by
  induction before generalizing place with
  | nil => rfl
  | cons e es ih =>
    rw [List.cons_append, findFrom, findFrom]
    split
    · rfl
    · rw [ih, List.length_cons, Nat.add_assoc, Nat.add_comm 1]

theorem findFrom_eq_none {place : Nat} {entries : List (Request × I)}
    (h : ∀ e ∈ entries, e.1 ≠ request) : findFrom request place entries = none := by
  induction entries generalizing place with
  | nil => rfl
  | cons e es ih =>
    rw [findFrom, if_neg (h e List.mem_cons_self)]
    exact ih fun e' he' => h e' (List.mem_cons_of_mem e he')

/-- What is found stands at its place. -/
theorem exists_getElem?_of_findFrom {place : Nat} {entries : List (Request × I)}
    (h : findFrom request place entries = some built) :
    ∃ k, built.place = place + k ∧ entries[k]? = some (request, built.index) := by
  induction entries generalizing place with
  | nil => cases h
  | cons e es ih =>
    rw [findFrom] at h
    split at h
    · next heq =>
      obtain ⟨key, index⟩ := e
      cases heq
      cases h
      exact ⟨0, rfl, rfl⟩
    · obtain ⟨k, hplace, hk⟩ := ih h
      exact ⟨k + 1, by omega, hk⟩

theorem mem_of_findFrom {place : Nat} {entries : List (Request × I)}
    (h : findFrom request place entries = some built) : (request, built.index) ∈ entries := by
  obtain ⟨k, -, hk⟩ := exists_getElem?_of_findFrom h
  exact List.mem_of_getElem? hk

/-- What is found stands at its place. -/
theorem getElem?_of_find? {m : Memo I} (h : m.find? request = some built) :
    m.entries[built.place]? = some (request, built.index) := by
  obtain ⟨k, hplace, hk⟩ := exists_getElem?_of_findFrom h
  rw [hplace, Nat.zero_add]
  exact hk

/-- One place holds one request. -/
theorem eq_of_place_eq {m : Memo I} {r r' : Request} {built built' : Built I}
    (h : m.find? r = some built) (h' : m.find? r' = some built')
    (hplace : built.place = built'.place) : r = r' ∧ built = built' := by
  have hentry := getElem?_of_find? h
  rw [hplace, getElem?_of_find? h', Option.some_inj, Prod.mk.injEq] at hentry
  obtain ⟨hr, hindex⟩ := hentry
  obtain ⟨place, index⟩ := built
  cases hplace
  cases hindex
  exact ⟨hr.symm, rfl⟩

/-- What is found stays found as the memo grows, at its place. -/
theorem find?_of_prefix {m m' : Memo I} (h : m.find? request = some built)
    (hgrow : m.entries <+: m'.entries) : m'.find? request = some built := by
  obtain ⟨added, hadded⟩ := hgrow
  rw [find?, ← hadded, findFrom_append]
  rw [find?] at h
  rw [h]
  rfl

/-! ## Requests -/

/-- A lookup by its three cases: the request is found, it is computed and remembered, or its
computation fails. -/
theorem run_recall (compute : Realizing ε I I) (m : Memo I) :
    (Memo.recall request compute).run.run m =
      match m.find? request with
      | some built => (.ok built, m.countHit)
      | none =>
        match compute.run.run m.countMiss with
        | (.ok index, m') => (.ok (m'.insert request index).1, (m'.insert request index).2)
        | (.error e, m') => (.error e, m') := by
  have hget : (Memo.recall request compute).run.run m =
      match m.find? request with
      | some built => (.ok built, m.countHit)
      | none =>
        (compute >>= fun index =>
          modifyGet fun m : Memo I => m.insert request index).run.run m.countMiss := by
    -- The first step only reads the memo.
    have hunfold : (Memo.recall request compute).run.run m =
        (match m.find? request with
          | some built => (do modify countHit; return built : Realizing ε I (Built I))
          | none => do
            modify countMiss
            let index ← compute
            modifyGet fun m : Memo I => m.insert request index).run.run m := rfl
    rw [hunfold]
    cases m.find? request <;> rfl
  rw [hget, run_bind]
  cases m.find? request with
  | some built => rfl
  | none => rcases compute.run.run m.countMiss with ⟨_ | index, m'⟩ <;> rfl

/-- A lookup fails exactly if the request is not found and its computation fails. -/
theorem run_recall_eq_error_iff {compute : Realizing ε I I} {m m' : Memo I} {e : ε} :
    (Memo.recall request compute).run.run m = (.error e, m') ↔
      m.find? request = none ∧ compute.run.run m.countMiss = (.error e, m') := by
  rw [run_recall]
  cases m.find? request with
  | some built =>
    constructor
    · intro h
      cases h
    · rintro ⟨h, -⟩
      cases h
  | none =>
    rcases compute.run.run m.countMiss with ⟨e' | index, after⟩
    · constructor
      · intro h
        cases h
        exact ⟨rfl, rfl⟩
      · rintro ⟨-, h⟩
        cases h
        rfl
    · constructor
      · intro h
        cases h
      · rintro ⟨-, h⟩
        cases h

/-! ## Growth -/

section Adds

variable {m m' m'' : Memo I} {P Q : Request × I → Prop}

/-- The memo `m'` has the entries of `m` and after them only entries with the property `P`. -/
def Adds (P : Request × I → Prop) (m m' : Memo I) : Prop :=
  ∃ added, m'.entries = m.entries ++ added ∧ ∀ entry ∈ added, P entry

theorem adds_of_entries_eq (h : m'.entries = m.entries) : Adds P m m' :=
  ⟨[], by rw [h, List.append_nil], fun _ he => absurd he List.not_mem_nil⟩

theorem Adds.trans (h : Adds P m m') (h' : Adds P m' m'') : Adds P m m'' := by
  obtain ⟨added, hadded, hall⟩ := h
  obtain ⟨added', hadded', hall'⟩ := h'
  refine ⟨added ++ added', by rw [hadded', hadded, List.append_assoc], fun entry he => ?_⟩
  rcases List.mem_append.1 he with he | he
  · exact hall entry he
  · exact hall' entry he

theorem Adds.mono (h : Adds P m m') (himp : ∀ entry, P entry → Q entry) : Adds Q m m' := by
  obtain ⟨added, hadded, hall⟩ := h
  exact ⟨added, hadded, fun entry he => himp entry (hall entry he)⟩

/-- The second of two steps starts with the memo that the first one leaves. -/
theorem adds_bind {β : Type} {a : Realizing ε I α} {f : α → Realizing ε I β}
    (ha : Adds P m (a.run.run m).2)
    (hf : ∀ x middle, a.run.run m = (.ok x, middle) → Adds P middle ((f x).run.run middle).2) :
    Adds P m ((a >>= f).run.run m).2 := by
  rw [run_bind]
  rcases hrun : a.run.run m with ⟨e | x, middle⟩
  · rw [hrun] at ha
    exact ha
  · rw [hrun] at ha
    exact ha.trans (hf x middle hrun)

/-- Two realizations in a row add what each of them adds. The second one starts where the first one
has succeeded. -/
theorem adds_both {first second : Realizing ε I (Built I)} {f : I → I → Except ε I}
    (hfirst : Adds P m (first.run.run m).2)
    (hsecond : ∀ l middle, first.run.run m = (.ok l, middle) →
      Adds P middle (second.run.run middle).2) :
    Adds P m ((Realizing.both first second f).run.run m).2 :=
  adds_bind hfirst fun l middle hrun =>
    adds_bind (hsecond l middle hrun) fun _ _ _ => adds_of_entries_eq rfl

/-- A lookup adds what its computation adds, and the request itself if there is an answer. -/
theorem adds_recall {compute : Realizing ε I I}
    (h : m.find? request = none → Adds P m.countMiss (compute.run.run m.countMiss).2) :
    Adds (fun entry => P entry ∨ m.find? request = none ∧ ∃ built after,
        (Memo.recall request compute).run.run m = (.ok built, after) ∧
          entry = (request, built.index))
      m ((Memo.recall request compute).run.run m).2 := by
  rw [run_recall]
  cases hfind : m.find? request with
  | some built => exact adds_of_entries_eq rfl
  | none =>
    have hadds : Adds P m (compute.run.run m.countMiss).2 := h hfind
    rcases hrun : compute.run.run m.countMiss with ⟨e | index, after⟩
    · rw [hrun] at hadds
      exact hadds.mono fun _ => .inl
    · rw [hrun] at hadds
      refine (hadds.mono fun _ => .inl).trans ⟨[(request, index)], rfl, fun entry he => ?_⟩
      exact .inr ⟨rfl, _, _, rfl, List.mem_singleton.1 he⟩

end Adds

/-- The realization appends entries for expressions with fewer than `n` occurrences and changes no
other entry. -/
def Grows (n : Nat) (a : Realizing ε I α) : Prop :=
  ∀ m : Memo I, ∃ added, (a.run.run m).2.entries = m.entries ++ added ∧
    ∀ e ∈ added, e.1.key.vars.length < n

/-- Growth is about the entries that are added. -/
theorem grows_iff {a : Realizing ε I α} :
    Grows n a ↔ ∀ m, Adds (fun e => e.1.key.vars.length < n) m (a.run.run m).2 := Iff.rfl

theorem Grows.mono {a : Realizing ε I α} {k : Nat} (h : Grows n a) (hle : n ≤ k) : Grows k a :=
  grows_iff.2 fun m => (grows_iff.1 h m).mono fun _ he => Nat.lt_of_lt_of_le he hle

theorem grows_pure (x : Except ε α) : Grows n (ExceptT.mk (pure x) : Realizing ε I α) :=
  grows_iff.2 fun _ => adds_of_entries_eq rfl

theorem Grows.bind {β : Type} {a : Realizing ε I α} {f : α → Realizing ε I β} (ha : Grows n a)
    (hf : ∀ x, Grows n (f x)) : Grows n (a >>= f) :=
  grows_iff.2 fun m => adds_bind (ha m) fun x middle _ => grows_iff.1 (hf x) middle

theorem Grows.both {first second : Realizing ε I (Built I)} {f : I → I → Except ε I}
    (hfirst : Grows n first) (hsecond : Grows n second) : Grows n (.both first second f) :=
  hfirst.bind fun l => hsecond.bind fun r => grows_pure (f l.index r.index)

/-- An answer that is computed from smaller expressions is one more entry. -/
theorem Grows.recall {compute : Realizing ε I I} {key : PathKey} (rows : End)
    (h : Grows key.vars.length compute) :
    Grows (key.vars.length + 1) (Memo.recall ⟨key, rows⟩ compute) := by
  rw [grows_iff] at h ⊢
  intro m
  refine (adds_recall fun _ => h m.countMiss).mono fun entry hentry => ?_
  rcases hentry with hsmall | ⟨-, built, after, -, rfl⟩
  · exact Nat.lt_succ_of_lt hsmall
  · exact Nat.lt_succ_self _

/-- None of the smaller expressions has the key of the request. -/
theorem Grows.find?_eq_none {compute : Realizing ε I α} {key : PathKey} {rows : End} {m : Memo I}
    (h : Grows key.vars.length compute) (hnone : m.find? ⟨key, rows⟩ = none) :
    (compute.run.run m).2.find? ⟨key, rows⟩ = none := by
  obtain ⟨added, hadded, hsmall⟩ := h m
  -- An entry of this key among the added ones would be smaller than itself.
  have hother : ∀ e ∈ added, e.1 ≠ ⟨key, rows⟩ := by
    rintro e he heq
    have hlt := hsmall e he
    rw [heq] at hlt
    exact Nat.lt_irrefl _ hlt
  rw [find?] at hnone
  rw [find?, hadded, findFrom_append, findFrom_eq_none hother, hnone]
  rfl

/-- The answer to a request is found where it was put. -/
theorem Grows.find?_of_recall {compute : Realizing ε I I} {key : PathKey} {rows : End}
    {m m' : Memo I} (h : Grows key.vars.length compute)
    (hrun : (Memo.recall ⟨key, rows⟩ compute).run.run m = (.ok built, m')) :
    m'.find? ⟨key, rows⟩ = some built := by
  rw [run_recall] at hrun
  cases hfound : m.find? ⟨key, rows⟩ with
  | some known =>
    rw [hfound] at hrun
    cases hrun
    exact hfound
  | none =>
    rw [hfound] at hrun
    have hmissing := h.find?_eq_none (m := m.countMiss) hfound
    rcases hcompute : compute.run.run m.countMiss with ⟨_ | index, middle⟩
    · simp only [hcompute] at hrun
      cases hrun
    · simp only [hcompute] at hrun
      rw [hcompute] at hmissing
      cases hrun
      rw [find?] at hmissing ⊢
      rw [insert, findFrom_append, hmissing, findFrom, if_pos rfl, Nat.zero_add]
      rfl

end Memo

namespace PathTree

open Memo

variable {O S I ε : Type} [Identified S] [PathFailure ε] [Realizer O S I ε] {options : O}

/-- A key has a slot for each variable occurrence of its expression. -/
theorem length_vars_boundKey (z : BoundExpr S) : z.boundKey.vars.length = z.vars.length :=
  length_vars_of_shape (shape_slots _ z.rootScope z.rootScope.length z)

/-- Whatever is realized on the way to an expression has fewer occurrences than it. -/
theorem exists_compute (options : O) {z : BoundExpr S} (h : z.WellFormed) (rows : End) :
    ∃ compute, z.realize options rows = Memo.recall ⟨z.boundKey, rows⟩ compute ∧
      Grows z.boundKey.vars.length compute := by
  induction z generalizing rows with
  | link kind source sink => exact ⟨_, rfl, grows_pure _⟩
  | formula c x y q lhs rhs ihl ihr =>
    obtain ⟨l, r, le, re, f, hsides, hrealize, -⟩ := exists_operands options h rows
    refine ⟨_, hrealize, ?_⟩
    rw [length_vars_boundKey]
    -- An operand has at least the two free variables of the formula less than the formula.
    have hsize : lhs.vars.length + 1 ≤ (formula c x y q lhs rhs).vars.length ∧
        rhs.vars.length + 1 ≤ (formula c x y q lhs rhs).vars.length := by
      simp only [vars, List.length_cons, List.length_append]
      omega
    have hlhs : ∀ e, Grows (formula c x y q lhs rhs).vars.length (lhs.realize options e) := by
      intro e
      obtain ⟨compute, heq, hgrows⟩ := ihl h.2.1 e
      rw [heq]
      exact (hgrows.recall e).mono (by rw [length_vars_boundKey]; exact hsize.1)
    have hrhs : ∀ e, Grows (formula c x y q lhs rhs).vars.length (rhs.realize options e) := by
      intro e
      obtain ⟨compute, heq, hgrows⟩ := ihr h.2.2 e
      rw [heq]
      exact (hgrows.recall e).mono (by rw [length_vars_boundKey]; exact hsize.2)
    rcases hsides with ⟨rfl, rfl⟩ | ⟨rfl, rfl⟩
    · exact (hlhs le).both (hrhs re)
    · exact (hrhs le).both (hlhs re)

/-- Realization keeps every entry at its place, also when it fails. -/
theorem prefix_of_realize {z : BoundExpr S} (h : z.WellFormed) (rows : End) (m : Memo I) :
    m.entries <+: ((z.realize options rows).run.run m).2.entries := by
  obtain ⟨compute, heq, hgrows⟩ := exists_compute options h rows
  obtain ⟨added, hadded, -⟩ := hgrows.recall rows m
  rw [heq]
  exact ⟨added, hadded.symm⟩

/-- After a success, the expression is found with the index that was returned. -/
theorem find?_of_realize {z : BoundExpr S} (h : z.WellFormed) {rows : End} {m m' : Memo I}
    {built : Built I} (hrun : (z.realize options rows).run.run m = (.ok built, m')) :
    m'.find? ⟨z.boundKey, rows⟩ = some built := by
  obtain ⟨compute, heq, hgrows⟩ := exists_compute options h rows
  rw [heq] at hrun
  exact hgrows.find?_of_recall hrun

/-- An expression whose realization fails is found neither before nor after it. -/
theorem find?_of_realize_error {z : BoundExpr S} (h : z.WellFormed) {rows : End} {m m' : Memo I}
    {e : ε} (hrun : (z.realize options rows).run.run m = (.error e, m')) :
    m.find? ⟨z.boundKey, rows⟩ = none ∧ m'.find? ⟨z.boundKey, rows⟩ = none := by
  obtain ⟨compute, heq, hgrows⟩ := exists_compute options h rows
  rw [heq, run_recall_eq_error_iff] at hrun
  obtain ⟨hnone, hcompute⟩ := hrun
  have hmissing := hgrows.find?_eq_none (m := m.countMiss) hnone
  rw [hcompute] at hmissing
  exact ⟨hnone, hmissing⟩

/-- An expression whose key is found is not realized again. -/
theorem realize_of_found {z : BoundExpr S} (h : z.WellFormed) {rows : End} {m : Memo I}
    {built : Built I} (hfound : m.find? ⟨z.boundKey, rows⟩ = some built) :
    (z.realize options rows).run.run m = (.ok built, m.countHit) := by
  obtain ⟨compute, heq, -⟩ := exists_compute options h rows
  rw [heq, run_recall, hfound]

end PathTree

end MeshPath
