import MeshPath.Proofs.Build.Options

/-!
# The accounts of a builder

A lookup in the memo ends in one of three ways: the request is found, it is computed and
remembered, or its computation fails. The counters and the entries of the memo are accounts of these
endings. A request that is computed counts its miss at once, and ends after its operands.

* `PathTree.recorded`: the realization of an expression with a record of the endings.
* `Memo.Accounts`: what the endings say about two memos. `records_realize`: a realization is not
  changed by its record, and the memo has the accounts of the record.
* `Memo.Nodup`: no request is remembered twice. `keepsNodup_realize`: realizations keep this.
* `Builder.endings`, `Builder.log`: the endings of a call, and of calls one after another.
* `Builder.BuildAccounts`: the accounts of one build.
* `calls_accounted`: the accounts after any calls, and those of the next build.
-/

namespace MeshPath

open PathTree Success

variable {O S I ε : Type}

/-! ## Endings -/

/-- How the lookup of a request ended. -/
inductive Ending where
  /-- The request was found. -/
  | found
  /-- The request was not found, and its index was computed and remembered. -/
  | remembered
  /-- The request was not found, and there is no index for it. -/
  | failed
deriving DecidableEq

/-- Every lookup ends in exactly one of the three ways. -/
theorem length_eq_counts (log : List Ending) :
    log.length = log.count .found + log.count .remembered + log.count .failed := by
  induction log with
  | nil => rfl
  | cons e log ih =>
    rw [List.length_cons, ih]
    cases e <;> simp <;> omega

theorem count_concat_self (log : List Ending) (e : Ending) :
    (log ++ [e]).count e = log.count e + 1 := by
  rw [List.count_append, List.count_singleton_self]

theorem count_concat_of_ne {e e' : Ending} (h : e' ≠ e) (log : List Ending) :
    (log ++ [e']).count e = log.count e := by
  rw [List.count_append, List.count_singleton, if_neg (by simpa using h), Nat.add_zero]

namespace Memo

/-- The memo `m'` has counted, and gained in entries, what the endings say. -/
structure Accounts (m m' : Memo I) (endings : List Ending) : Prop where
  hits_eq : m'.hits = m.hits + endings.count .found
  misses_eq : m'.misses = m.misses + endings.count .remembered + endings.count .failed
  size_eq : m'.size = m.size + endings.count .remembered

variable {m m' m'' : Memo I} {endings endings' : List Ending}

theorem Accounts.refl (m : Memo I) : m.Accounts m [] := ⟨rfl, rfl, rfl⟩

/-- Accounts add up along a realization. -/
theorem Accounts.trans (h : m.Accounts m' endings) (h' : m'.Accounts m'' endings') :
    m.Accounts m'' (endings ++ endings') where
  hits_eq := by rw [h'.hits_eq, h.hits_eq, List.count_append, Nat.add_assoc]
  misses_eq := by
    rw [h'.misses_eq, h.misses_eq, List.count_append, List.count_append]
    omega
  size_eq := by rw [h'.size_eq, h.size_eq, List.count_append, Nat.add_assoc]

theorem accounts_countHit (m : Memo I) : m.Accounts m.countHit [.found] := ⟨rfl, rfl, rfl⟩

/-- The miss of a request is settled when its index is remembered. -/
theorem Accounts.insert (h : m.countMiss.Accounts m' endings) (request : Request)
    (index : I) : m.Accounts (m'.insert request index).2 (endings ++ [.remembered]) where
  hits_eq := by
    rw [count_concat_of_ne (by decide)]
    exact h.hits_eq
  misses_eq := by
    have hmisses : (m'.insert request index).2.misses = m.misses + 1 + _ + _ := h.misses_eq
    rw [hmisses, count_concat_self, count_concat_of_ne (by decide)]
    omega
  size_eq := by
    have hsize : m'.size = m.size + _ := h.size_eq
    have hinsert : (m'.insert request index).2.size = m'.size + 1 := List.length_append
    rw [hinsert, hsize, count_concat_self, Nat.add_assoc]

/-- The miss of a request is settled when its computation has failed. -/
theorem Accounts.fail (h : m.countMiss.Accounts m' endings) :
    m.Accounts m' (endings ++ [.failed]) where
  hits_eq := by
    rw [count_concat_of_ne (by decide)]
    exact h.hits_eq
  misses_eq := by
    have hmisses : m'.misses = m.misses + 1 + _ + _ := h.misses_eq
    rw [hmisses, count_concat_self, count_concat_of_ne (by decide)]
    omega
  size_eq := by
    rw [count_concat_of_ne (by decide)]
    exact h.size_eq

end Memo

/-! ## Recorded realizations -/

/-- A realization that also keeps the endings of its lookups, in the order in which they end. -/
abbrev Recording (ε I : Type) := ExceptT ε (StateM (Memo I × List Ending))

namespace Recording

/-- A computation that does not use the memo. -/
def ofExcept {α : Type} (x : Except ε α) : Recording ε I α := ExceptT.mk (pure x)

/-- A lookup as in `Memo.recall`, with a record of its ending. -/
def lookup (request : Request) (compute : Recording ε I I) : Recording ε I (Built I) :=
  ExceptT.mk fun (memo, log) =>
    match memo.find? request with
    | some built => (.ok built, memo.countHit, log ++ [.found])
    | none =>
      match compute.run.run (memo.countMiss, log) with
      | (.ok index, after, log) =>
        let (built, after) := after.insert request index
        (.ok built, after, log ++ [.remembered])
      | (.error e, after, log) => (.error e, after, log ++ [.failed])

/-- A recorded lookup by its three cases, as `Memo.run_recall` has them without a record. -/
theorem run_lookup (request : Request) (compute : Recording ε I I) (m : Memo I)
    (log : List Ending) : (lookup request compute).run.run (m, log) =
      match m.find? request with
      | some built => (.ok built, m.countHit, log ++ [.found])
      | none =>
        match compute.run.run (m.countMiss, log) with
        | (.ok index, m', log') =>
          (.ok (m'.insert request index).1, (m'.insert request index).2, log' ++ [.remembered])
        | (.error e, m', log') => (.error e, m', log' ++ [.failed]) := rfl

/-- The lookup ends last, and it fails if there is no answer. -/
theorem exists_last_lookup (request : Request) (compute : Recording ε I I) (m : Memo I)
    (log : List Ending) : ∃ earlier ending,
      ((lookup request compute).run.run (m, log)).2.2 = earlier ++ [ending] ∧
        (ending = .failed ↔ ∃ e, ((lookup request compute).run.run (m, log)).1 = .error e) := by
  rw [run_lookup]
  cases m.find? request with
  | some built => exact ⟨log, .found, rfl, by simp⟩
  | none =>
    rcases compute.run.run (m.countMiss, log) with ⟨e | index, m', log'⟩
    · exact ⟨log', .failed, rfl, by simp⟩
    · exact ⟨log', .remembered, rfl, by simp⟩

end Recording

namespace PathTree

variable [Identified S] [PathFailure ε] [Realizer O S I ε]

/-- The index of a bound expression, with a record of the lookups. It has the cases of
`PathTree.realize`. -/
def recorded (options : O) : BoundExpr S → End → Recording ε I (Built I)
  | link kind source sink, rows =>
    Recording.lookup ⟨boundKey (link kind source sink), rows⟩
      (Recording.ofExcept (Realizer.link options kind source.set sink.set rows))
  | formula c x y none lhs rhs, rows =>
    Recording.lookup ⟨boundKey (formula c x y none lhs rhs), rows⟩ do
      let source := rows.pick x y
      let l ← lhs.recorded options (← Recording.ofExcept (lhs.operandEnd source.name))
      let r ← rhs.recorded options (← Recording.ofExcept (rhs.operandEnd source.name))
      Recording.ofExcept (Realizer.combine options c l.index r.index)
  | formula c x y (some q) lhs rhs, rows =>
    Recording.lookup ⟨boundKey (formula c x y (some q) lhs rhs), rows⟩ do
      let source := rows.pick x y
      let sink := rows.other.pick x y
      if (lhs.endNamed? source.name).isSome then
        let near ← lhs.recorded options (← Recording.ofExcept (lhs.operandEnd source.name))
        let far ← rhs.recorded options (← Recording.ofExcept (rhs.operandEnd q.name))
        Recording.ofExcept (Realizer.eliminate options c near.index far.index sink.set)
      else
        let near ← rhs.recorded options (← Recording.ofExcept (rhs.operandEnd source.name))
        let far ← lhs.recorded options (← Recording.ofExcept (lhs.operandEnd q.name))
        Recording.ofExcept (Realizer.eliminate options c near.index far.index sink.set)

/-- The realization of any expression is a lookup of its own key. -/
theorem exists_recorded_eq_lookup (options : O) (z : BoundExpr S) (rows : End) :
    ∃ compute : Recording ε I I,
      z.recorded options rows = Recording.lookup ⟨z.boundKey, rows⟩ compute := by
  cases z with
  | link => exact ⟨_, rfl⟩
  | formula _ _ _ q _ _ => cases q <;> exact ⟨_, rfl⟩

end PathTree

namespace Realizing

variable {α β : Type} {a : Realizing ε I α} {a' : Recording ε I α}

/-- With a record of the lookups, `a'` does what `a` does, and the memo has the accounts of the
record. No lookup of a success has failed. -/
def Records (a : Realizing ε I α) (a' : Recording ε I α) : Prop :=
  ∀ m : Memo I, ∃ endings : List Ending,
    (∀ log, a'.run.run (m, log) = ((a.run.run m).1, (a.run.run m).2, log ++ endings)) ∧
    m.Accounts (a.run.run m).2 endings ∧
    ∀ x, (a.run.run m).1 = .ok x → .failed ∉ endings

theorem records_ofExcept (x : Except ε α) :
    Records (ofExcept x : Realizing ε I α) (Recording.ofExcept x) :=
  fun m => ⟨[], fun log => by rw [List.append_nil]; rfl, .refl m, fun _ _ => List.not_mem_nil⟩

/-- The record of two realizations in a row is the one of the first, then that of the second. If the
first one fails, the second one makes no lookups. -/
theorem Records.bind {f : α → Realizing ε I β} {f' : α → Recording ε I β} (ha : Records a a')
    (hf : ∀ x, Records (f x) (f' x)) : Records (a >>= f) (a' >>= f') := by
  intro m
  obtain ⟨endings, hrun, haccounts, hok⟩ := ha m
  simp only [run_bind, hrun]
  rcases hfirst : a.run.run m with ⟨e | x, middle⟩
  · rw [hfirst] at haccounts
    exact ⟨endings, fun _ => rfl, haccounts, fun x hx => by cases hx⟩
  · rw [hfirst] at haccounts hok
    obtain ⟨endings', hrun', haccounts', hok'⟩ := hf x middle
    refine ⟨endings ++ endings', fun log => ?_, haccounts.trans haccounts', fun y hy => ?_⟩
    · rw [← List.append_assoc]
      exact hrun' (log ++ endings)
    · rw [List.mem_append]
      exact not_or.2 ⟨hok x rfl, hok' y hy⟩

/-- The lookup of a request ends after those of its computation. -/
theorem Records.recall {compute : Realizing ε I I} {compute' : Recording ε I I}
    (request : Request) (h : Records compute compute') :
    Records (Memo.recall request compute) (Recording.lookup request compute') := by
  intro m
  simp only [Recording.run_lookup, Memo.run_recall]
  cases m.find? request with
  | some built =>
    refine ⟨[.found], fun _ => rfl, Memo.accounts_countHit m, fun _ _ => ?_⟩
    simp
  | none =>
    obtain ⟨endings, hcompute, haccounts, hok⟩ := h m.countMiss
    simp only [hcompute]
    rcases hresult : compute.run.run m.countMiss with ⟨e | index, m'⟩
    · rw [hresult] at haccounts
      exact ⟨endings ++ [.failed], fun log => by rw [← List.append_assoc], haccounts.fail,
        fun x hx => by cases hx⟩
    · rw [hresult] at haccounts hok
      refine ⟨endings ++ [.remembered], fun log => by rw [← List.append_assoc],
        haccounts.insert request index, fun _ _ => ?_⟩
      have hnone := hok index rfl
      simpa using hnone

variable [Identified S] [PathFailure ε] [Realizer O S I ε]

/-- An operand that is read from its end of some name. -/
theorem records_operand {options : O} {z : BoundExpr S}
    (h : ∀ rows, Records (z.realize options rows) (z.recorded options rows)) (name : String)
    {f : Built I → Realizing ε I I} {f' : Built I → Recording ε I I}
    (hf : ∀ i, Records (f i) (f' i)) :
    Records (do f (← z.realize options (← ofExcept (z.operandEnd name))))
      (do f' (← z.recorded options (← Recording.ofExcept (z.operandEnd name)))) :=
  (records_ofExcept (z.operandEnd name)).bind fun e => (h e).bind hf

end Realizing

namespace PathTree

open Realizing

variable [Identified S] [PathFailure ε] [Realizer O S I ε]

/-- A realization has the accounts of its record. -/
theorem records_realize (options : O) (z : BoundExpr S) (rows : End) :
    Records (z.realize options rows) (z.recorded options rows) := by
  induction z generalizing rows with
  | link kind source sink => exact .recall _ (records_ofExcept _)
  | formula c x y q lhs rhs ihl ihr =>
    cases q with
    | none =>
      exact .recall _ (records_operand ihl _ fun l => records_operand ihr _ fun r =>
        records_ofExcept _)
    | some q =>
      simp only [realize, recorded]
      refine .recall _ ?_
      -- The operand that comes first depends on the ends of the left one.
      split
      · exact records_operand ihl _ fun n => records_operand ihr _ fun f => records_ofExcept _
      · exact records_operand ihr _ fun n => records_operand ihl _ fun f => records_ofExcept _

end PathTree

/-! ## Distinct requests -/

namespace Memo

variable {request : Request} {m : Memo I}

/-- No request is remembered twice. -/
def Nodup (m : Memo I) : Prop := (m.entries.map Prod.fst).Nodup

theorem nodup_empty : (Memo.empty : Memo I).Nodup := List.nodup_nil

/-- What is not found has no entry. -/
theorem notMem_of_findFrom {place : Nat} {entries : List (Request × I)}
    (h : findFrom request place entries = none) : request ∉ entries.map Prod.fst := by
  induction entries generalizing place with
  | nil => exact List.not_mem_nil
  | cons e es ih =>
    rw [findFrom] at h
    split at h
    · cases h
    · next hne =>
      rw [List.map_cons, List.mem_cons]
      exact not_or.2 ⟨Ne.symm hne, ih h⟩

/-- If a new entry is found at its own place, then no earlier one is for the same request. -/
theorem Nodup.insert (h : m.Nodup) {index : I}
    (hfound : (m.insert request index).2.find? request = some (m.insert request index).1) :
    (m.insert request index).2.Nodup := by
  have hnew : m.find? request = none := by
    by_contra hold
    obtain ⟨built, hold⟩ := Option.ne_none_iff_exists'.1 hold
    have hgrow : m.entries <+: (m.insert request index).2.entries := List.prefix_append _ _
    have hstill := find?_of_prefix hold hgrow
    have hbuilt : built.place = m.entries.length :=
      congrArg Built.place (Option.some.inj (hstill.symm.trans hfound))
    have hplace := getElem?_of_find? hold
    rw [hbuilt, List.getElem?_eq_none (Nat.le_refl _)] at hplace
    cases hplace
  rw [Nodup, Memo.insert, List.map_append]
  refine h.append (List.nodup_singleton request) ?_
  exact List.disjoint_singleton.2 (notMem_of_findFrom hnew)

end Memo

namespace Realizing

variable {α β : Type} {a : Realizing ε I α} {request : Request}

/-- The realization remembers no request for the second time. -/
def KeepsNodup (a : Realizing ε I α) : Prop := ∀ m : Memo I, m.Nodup → (a.run.run m).2.Nodup

theorem keepsNodup_pure (x : Except ε α) :
    KeepsNodup (ExceptT.mk (pure x) : Realizing ε I α) := fun _ hm => hm

/-- No request is remembered twice by two realizations, one after the other. -/
theorem KeepsNodup.bind {f : α → Realizing ε I β} (ha : KeepsNodup a) (hf : ∀ x, KeepsNodup (f x)) :
    KeepsNodup (a >>= f) := by
  intro m hm
  have hmiddle := ha m hm
  rw [run_bind]
  rcases hrun : a.run.run m with ⟨e | x, middle⟩
  · rw [hrun] at hmiddle
    exact hmiddle
  · rw [hrun] at hmiddle
    exact hf x middle hmiddle

/-- An operation on the answers of two realizations remembers nothing by itself. -/
theorem KeepsNodup.both {first second : Realizing ε I (Built I)} {f : I → I → Except ε I}
    (hfirst : KeepsNodup first) (hsecond : KeepsNodup second) :
    KeepsNodup (.both first second f) :=
  hfirst.bind fun l => hsecond.bind fun r => keepsNodup_pure (f l.index r.index)

/-- If an answer is found where it was put, then its computation has not remembered it. -/
theorem KeepsNodup.recall {compute : Realizing ε I I} (h : KeepsNodup compute)
    (hfound : ∀ {m m' built}, (Memo.recall request compute).run.run m = (.ok built, m') →
      m'.find? request = some built) : KeepsNodup (Memo.recall request compute) := by
  intro m hm
  have hmiddle := h m.countMiss hm
  have hput := @hfound m
  rw [Memo.run_recall] at hput ⊢
  cases hfind : m.find? request with
  | some built => exact hm
  | none =>
    rw [hfind] at hput
    rcases hresult : compute.run.run m.countMiss with ⟨e | index, middle⟩
    · rw [hresult] at hmiddle
      exact hmiddle
    · rw [hresult] at hmiddle
      simp only [hresult] at hput
      exact hmiddle.insert (hput rfl)

end Realizing

namespace PathTree

open Realizing

variable [Identified S] [PathFailure ε] [Realizer O S I ε]

/-- Realizing an expression remembers no request for the second time, since an operand is a smaller
request than its formula. -/
theorem keepsNodup_realize (options : O) {z : BoundExpr S} (h : z.WellFormed)
    (rows : End) : KeepsNodup (z.realize options rows) := by
  induction z generalizing rows with
  | link kind source sink =>
    exact .recall (keepsNodup_pure _) fun hrun => find?_of_realize h hrun
  | formula c x y q lhs rhs ihl ihr =>
    obtain ⟨l, r, le, re, f, hsides, hrealize, -⟩ := exists_operands options h rows
    rw [hrealize]
    refine .recall ?_ fun hrun => find?_of_realize h (hrealize ▸ hrun)
    rcases hsides with ⟨rfl, rfl⟩ | ⟨rfl, rfl⟩
    · exact (ihl h.2.1 le).both (ihr h.2.2 re)
    · exact (ihr h.2.2 le).both (ihl h.2.1 re)

end PathTree

/-! ## Calls -/

variable [Identified S]

/-- The expression of a call is one that can be constructed. -/
def Call.Constructible : Call S → Prop
  | bind _ _ => True
  | build x _ => x.Constructible

namespace Builder

variable [PathFailure ε] [Realizer O S I ε]
variable {b : Builder O S I} {x : OpenExpr S} {ordinal : Nat}

/-- The endings of the lookups of a call, in the order in which they end. A request that cannot be
resolved is not looked up. -/
def endings (b : Builder O S I) : Call S → List Ending
  | .bind _ _ => []
  | .build x ordinal =>
    match b.resolve x ordinal with
    | .error _ => []
    | .ok (z, rows) => ((z.recorded b.options rows).run.run (b.memo, [])).2.2

/-- The builder after some calls. -/
def after (b : Builder O S I) (cs : List (Call S)) : Builder O S I :=
  cs.foldl (fun b c => (b.call c).2) b

/-- The endings of all lookups of some calls. -/
def log (b : Builder O S I) : List (Call S) → List Ending
  | [] => []
  | c :: cs => b.endings c ++ (b.call c).2.log cs

/-- The accounts of one build. -/
structure BuildAccounts (b : Builder O S I) (x : OpenExpr S) (ordinal : Nat) : Prop where
  /-- An expression that cannot be resolved is not looked up. -/
  refused : ∀ e, b.resolve x ordinal = .error e →
    b.endings (.build x ordinal) = [] ∧ b.build x ordinal = (.error (PathFailure.rejected e), b)
  /-- Any other build makes the lookups of the record. -/
  recorded : ∀ z rows, b.resolve x ordinal = .ok (z, rows) → ∀ log,
    (z.recorded b.options rows).run.run (b.memo, log) =
      ((b.build x ordinal).1, (b.build x ordinal).2.memo, log ++ b.endings (.build x ordinal))
  /-- The last lookup to end is the one of the expression itself. -/
  last : ∀ z rows, b.resolve x ordinal = .ok (z, rows) →
    ∃ earlier ending, b.endings (.build x ordinal) = earlier ++ [ending] ∧
      (ending = .failed ↔ ∃ e, (b.build x ordinal).1 = .error e)
  /-- Every lookup is one hit or one miss. -/
  lookups : (b.build x ordinal).2.memo.hits + (b.build x ordinal).2.memo.misses =
    b.memo.hits + b.memo.misses + (b.endings (.build x ordinal)).length
  /-- What is found costs one hit. -/
  found : ∀ z rows built, b.resolve x ordinal = .ok (z, rows) →
    b.memo.find? ⟨z.boundKey, rows⟩ = some built →
      b.build x ordinal = (.ok built, { b with memo := b.memo.countHit })
  /-- A success remembers as many requests as it misses. -/
  settled : ∀ built, (b.build x ordinal).1 = .ok built →
    ∃ n, (b.build x ordinal).2.memo.size = b.memo.size + n ∧
      (b.build x ordinal).2.memo.misses = b.memo.misses + n
  /-- A success is found when it is repeated. -/
  repeated : ∀ built c, b.build x ordinal = (.ok built, c) →
    c.build x ordinal = (.ok built, { c with memo := c.memo.countHit })

/-- A request is resolved if its ordinal is that of an end and its expression has a bound form. -/
theorem resolve_eq_ok_iff {z : BoundExpr S} {rows : End} : b.resolve x ordinal = .ok (z, rows) ↔
    End.ofNat? ordinal = some rows ∧ b.boundForm x = .ok z := by
  rw [resolve]
  cases End.ofNat? ordinal with
  | none => simp
  | some rows' =>
    cases b.boundForm x with
    | error e => simp [Except.map]
    | ok z' => simp [Except.map, and_comm]

variable {z : BoundExpr S} {rows : End} {built : Built I}

/-- An expression that is found costs one hit. -/
theorem build_eq_of_found (hx : x.WellFormed) (hresolve : b.resolve x ordinal = .ok (z, rows))
    (hfound : b.memo.find? ⟨z.boundKey, rows⟩ = some built) :
    b.build x ordinal = (.ok built, { b with memo := b.memo.countHit }) := by
  obtain ⟨hrows, hform⟩ := resolve_eq_ok_iff.1 hresolve
  rw [build_of_boundForm hrows hform, realize_of_found (wellFormed_of_boundForm hx hform) hfound]

/-- An expression that has been built is found. -/
theorem build_eq_of_build (hx : x.WellFormed) {c : Builder O S I}
    (h : b.build x ordinal = (.ok built, c)) :
    c.build x ordinal = (.ok built, { c with memo := c.memo.countHit }) := by
  obtain ⟨rows, z, hrows, hform, hbindings, -, hfound⟩ := exists_found_of_build hx h
  have hform' : c.boundForm x = .ok z := by
    rw [← hform, boundForm, boundForm, hbindings]
  exact build_eq_of_found hx (resolve_eq_ok_iff.2 ⟨hrows, hform'⟩) hfound

/-- A build that is resolved has the accounts of its record. -/
theorem exists_endings (hresolve : b.resolve x ordinal = .ok (z, rows)) :
    (∀ log, (z.recorded b.options rows).run.run (b.memo, log) =
      ((b.build x ordinal).1, (b.build x ordinal).2.memo, log ++ b.endings (.build x ordinal))) ∧
    b.memo.Accounts (b.build x ordinal).2.memo (b.endings (.build x ordinal)) ∧
    ∀ built, (b.build x ordinal).1 = .ok built → .failed ∉ b.endings (.build x ordinal) := by
  obtain ⟨hrows, hform⟩ := resolve_eq_ok_iff.1 hresolve
  obtain ⟨endings, hrun, haccounts, hok⟩ := records_realize b.options z rows b.memo
  have hendings : b.endings (.build x ordinal) = endings := by
    simp only [Builder.endings, hresolve, hrun, List.nil_append]
  rw [hendings, build_of_boundForm hrows hform]
  exact ⟨hrun, haccounts, hok⟩

/-- An expression that is not resolved has no endings. -/
theorem endings_of_error {e : PathError} (hresolve : b.resolve x ordinal = .error e) :
    b.endings (.build x ordinal) = [] ∧
      b.build x ordinal = (.error (PathFailure.rejected e), b) := by
  rw [endings, build, hresolve]
  exact ⟨rfl, rfl⟩

/-- A binding does not touch the memo, whether it is accepted or refused. -/
theorem memo_bind {name : String} {set : S} : (b.call (.bind name set)).2.memo = b.memo := by
  rw [call, Builder.bind]
  split
  · next h =>
    split at h
    · cases h
      rfl
    · split at h
      · cases h
        rfl
      · cases h
  · rfl

/-- A call has the accounts of its endings. -/
theorem accounts_call (b : Builder O S I) (c : Call S) :
    b.memo.Accounts (b.call c).2.memo (b.endings c) := by
  cases c with
  | bind name set =>
    rw [memo_bind]
    exact .refl _
  | build x ordinal =>
    cases hresolve : b.resolve x ordinal with
    | error e =>
      obtain ⟨hendings, hbuild⟩ := endings_of_error hresolve
      rw [call, hendings, hbuild]
      exact .refl _
    | ok pair => exact (exists_endings hresolve).2.1

/-- No call remembers a request for the second time. -/
theorem nodup_call (hb : b.memo.Nodup) {c : Call S} (hc : c.Constructible) :
    (b.call c).2.memo.Nodup := by
  cases c with
  | bind name set =>
    rw [memo_bind]
    exact hb
  | build x ordinal =>
    have hx := constructible_iff_wellFormed.1 hc
    rw [call]
    rcases build_eq_or b x ordinal with ⟨rows, z, hrows, hform⟩ | ⟨e, -, hbuild⟩
    · rw [build_of_boundForm hrows hform]
      exact keepsNodup_realize b.options (wellFormed_of_boundForm hx hform) rows b.memo hb
    · rw [hbuild]
      exact hb

/-- Calls have the accounts of their log. -/
theorem accounts_after (b : Builder O S I) (cs : List (Call S)) :
    b.memo.Accounts (b.after cs).memo (b.log cs) := by
  induction cs generalizing b with
  | nil => exact .refl b.memo
  | cons c cs ih => exact (accounts_call b c).trans (ih (b.call c).2)

theorem nodup_after (hb : b.memo.Nodup) {cs : List (Call S)} (hcs : ∀ c ∈ cs, c.Constructible) :
    (b.after cs).memo.Nodup := by
  induction cs generalizing b with
  | nil => exact hb
  | cons c cs ih =>
    rw [List.forall_mem_cons] at hcs
    exact ih (nodup_call hb hcs.1) hcs.2

/-- Every build has its accounts, whatever the builder was asked before. -/
theorem buildAccounts (b : Builder O S I) (hx : x.WellFormed) (ordinal : Nat) :
    b.BuildAccounts x ordinal where
  refused _ hresolve := endings_of_error hresolve
  recorded _ _ hresolve := (exists_endings hresolve).1
  last z rows hresolve := by
    have hrun := (exists_endings hresolve).1 []
    obtain ⟨compute, hlookup⟩ := exists_recorded_eq_lookup b.options z rows
    have hlast := Recording.exists_last_lookup ⟨z.boundKey, rows⟩ compute b.memo []
    rwa [← hlookup, hrun] at hlast
  lookups := by
    have haccounts := accounts_call b (.build x ordinal)
    have hhits : (b.build x ordinal).2.memo.hits = _ := haccounts.hits_eq
    have hmisses : (b.build x ordinal).2.memo.misses = _ := haccounts.misses_eq
    rw [hhits, hmisses, length_eq_counts]
    omega
  found _ _ _ := build_eq_of_found hx
  settled built hok := by
    have haccounts := accounts_call b (.build x ordinal)
    obtain ⟨rows, z, hrows, hform⟩ := exists_boundForm_of_build hok
    have hnone := (exists_endings (resolve_eq_ok_iff.2 ⟨hrows, hform⟩)).2.2 built hok
    refine ⟨_, haccounts.size_eq, ?_⟩
    have hmisses : (b.build x ordinal).2.memo.misses = _ := haccounts.misses_eq
    rw [hmisses, List.count_eq_zero.2 hnone, Nat.add_zero]
  repeated _ _ := build_eq_of_build hx

/-- After any calls, every lookup so far has been one hit or one miss, and every miss has been
remembered or has failed, so that all of them have been remembered exactly if none has failed. The
next build keeps these accounts. -/
theorem calls_accounted {cs : List (Call S)} (hcs : ∀ c ∈ cs, c.Constructible)
    (options : O) :
    let b := (new options).after cs
    let log := (new options).log cs
    b.memo.Nodup ∧ b.memo.hits + b.memo.misses = log.length ∧
      b.memo.misses = b.memo.size + log.count .failed ∧ b.memo.size ≤ b.memo.misses ∧
      (b.memo.size = b.memo.misses ↔ .failed ∉ log) ∧
      ∀ x ordinal, x.Constructible → b.BuildAccounts x ordinal := by
  intro b log
  have haccounts : Memo.empty.Accounts b.memo log := accounts_after (new options) cs
  have hhits : b.memo.hits = 0 + _ := haccounts.hits_eq
  have hmisses : b.memo.misses = 0 + _ + _ := haccounts.misses_eq
  have hsize : b.memo.size = 0 + _ := haccounts.size_eq
  have hlength := length_eq_counts log
  refine ⟨nodup_after Memo.nodup_empty hcs, by omega, by omega, by omega, ?_, fun x ordinal hx =>
    buildAccounts b (constructible_iff_wellFormed.1 hx) ordinal⟩
  rw [← List.count_eq_zero]
  omega

/-- The vertices that share an edge, by themselves and then beside a link that fails, which fails
with its formula. No expression has a third end. -/
theorem calls_accounted_sharedEdge :
    let vertices := Mesh.twoVertices.toSetView
    let misfit : BoundExpr := .link .vertexToEdge ⟨"u", vertices⟩ ⟨"w", vertices⟩
    let either : BoundExpr :=
      .formula .or ⟨"u", vertices⟩ ⟨"w", vertices⟩ none sharedEdge misfit
    let cs : List Call := [.build sharedEdge.toOpen 0, .bind "w" vertices, .build either.toOpen 0,
      .build either.toOpen 2]
    let new : Builder := new .standard
    let b := new.after cs
    new.log cs = [.remembered, .remembered, .remembered, .found, .failed, .failed] ∧
      b.memo.hits + b.memo.misses = 6 ∧ b.memo.misses = b.memo.size + 2 ∧
      b.BuildAccounts sharedEdge.toOpen 1 := by
  intro vertices misfit either cs new b
  have hlog : new.log cs =
      [.remembered, .remembered, .remembered, .found, .failed, .failed] := by decide +kernel
  have hx : sharedEdge.toOpen.Constructible := constructible_iff_wellFormed.2 (by decide)
  have heither : either.toOpen.Constructible := constructible_iff_wellFormed.2 (by decide)
  have hcs : ∀ c ∈ cs, c.Constructible := by
    simp only [cs, List.forall_mem_cons]
    exact ⟨hx, trivial, heither, heither, fun _ h => absurd h List.not_mem_nil⟩
  obtain ⟨-, hlookups, hmisses, -, -, hbuild⟩ := calls_accounted hcs BuildOptions.standard
  rw [hlog] at hlookups hmisses
  exact ⟨hlog, hlookups, hmisses, hbuild sharedEdge.toOpen 1 hx⟩

end Builder

end MeshPath
