import MeshPath.Proofs.Build.Accounting
import MeshPath.Proofs.Expr.Parts
import MeshPath.Proofs.Expr.Unbound

/-!
# Failed calls

A call that fails leaves a builder that can be used as before. A request that cannot be resolved
changes nothing. A realization that fails keeps the operands that were realized before the failure,
so that a second attempt finds them and fails where the first one did.

* `LooksUp`, `Remembers`: the lookups that a realization makes on its way, and what each remembers.
  `adds_realize`: a realization adds what it has looked up with success, and nothing else.
* `Realizing.FailsAgain`, `failsAgain_realize`: a failed realization fails again with the same
  error, and adds nothing.
* `Builder.Refuses`, `resolve_eq_error_iff`: the requests that cannot be resolved.
* `Builder.FailedBuild`: what a failed build leaves. `failed_calls_preserve`: this holds of all
  failed calls.
-/

namespace MeshPath

open PathTree Success

variable {O S I ε : Type}

/-! ## Lookups on the way -/

namespace PathTree

open Memo

variable {options : O} {z l r x y : BoundExpr S} {rows le re e : End} {m m' : Memo I}

/-- The operands that a formula reads are proper parts of it. -/
theorem ReadsOperands.mem_tail_parts (h : ReadsOperands z rows l le r re) :
    l ∈ z.parts.tail ∧ r ∈ z.parts.tail := by
  cases z with
  | link => cases h
  | formula c a b q lhs rhs =>
    have hl : lhs ∈ lhs.parts ++ rhs.parts := List.mem_append_left _ (self_mem_parts lhs)
    have hr : rhs ∈ lhs.parts ++ rhs.parts := List.mem_append_right _ (self_mem_parts rhs)
    rcases h.sides with ⟨rfl, rfl⟩ | ⟨rfl, rfl⟩
    · exact ⟨hl, hr⟩
    · exact ⟨hr, hl⟩

variable [Identified S] [PathFailure ε] [Realizer O S I ε]

/-- In a realization of `z` from its end `rows` that starts with the memo `m`, the expression `y`
is looked up from its end `e` when the memo is `m'`. -/
inductive LooksUp (options : O) : BoundExpr S → End → Memo I → BoundExpr S → End → Memo I → Prop
  /-- The first operand of a formula that is not found. -/
  | first {z l r : BoundExpr S} {rows le re : End} {m : Memo I} :
      ReadsOperands z rows l le r re → m.find? ⟨z.boundKey, rows⟩ = none →
        LooksUp options z rows m l le m.countMiss
  /-- The second operand, after a success of the first one. -/
  | second {z l r : BoundExpr S} {rows le re : End} {m m' : Memo I} {built : Built I} :
      ReadsOperands z rows l le r re → m.find? ⟨z.boundKey, rows⟩ = none →
      (l.realize options le).run.run m.countMiss = (.ok built, m') →
        LooksUp options z rows m r re m'
  /-- What is looked up for an expression that is looked up. -/
  | inner {z y x : BoundExpr S} {rows e f : End} {m m' m'' : Memo I} :
      LooksUp options z rows m y e m' → LooksUp options y e m' x f m'' →
        LooksUp options z rows m x f m''

/-- Only parts of operands are looked up on the way to an expression. -/
theorem LooksUp.mem_tail_parts (h : LooksUp options z rows m y e m') : y ∈ z.parts.tail := by
  induction h with
  | first hreads _ => exact hreads.mem_tail_parts.1
  | second hreads _ _ => exact hreads.mem_tail_parts.2
  | inner _ _ ihz ihy => exact mem_tail_parts_trans ihz (List.mem_of_mem_tail ihy)

/-- With the memo `m`, the expression `y` is not found for its end `e`. It is realized, and `entry`
remembers its index. -/
def Remembers (options : O) (y : BoundExpr S) (e : End) (m : Memo I)
    (entry : Request × I) : Prop :=
  m.find? ⟨y.boundKey, e⟩ = none ∧ ∃ built m', (y.realize options e).run.run m = (.ok built, m') ∧
    entry = (⟨y.boundKey, e⟩, built.index)

/-- On the way to `z`, some expression is looked up, and `entry` remembers it. -/
def RemembersInner (options : O) (z : BoundExpr S) (rows : End) (m : Memo I)
    (entry : Request × I) : Prop :=
  ∃ y e m', LooksUp options z rows m y e m' ∧ Remembers options y e m' entry

/-- On the way to `z`, or for `z` itself, something is looked up that `entry` remembers. -/
def RemembersIn (options : O) (z : BoundExpr S) (rows : End) (m : Memo I)
    (entry : Request × I) : Prop :=
  RemembersInner options z rows m entry ∨ Remembers options z rows m entry

/-- What is remembered in the realization of an expression that is looked up on the way to `z` is
remembered on that way too. -/
theorem LooksUp.remembersInner {entry : Request × I} (h : LooksUp options z rows m y e m')
    (hentry : RemembersIn options y e m' entry) : RemembersInner options z rows m entry := by
  rcases hentry with ⟨x, f, m'', hx, hentry⟩ | hentry
  · exact ⟨x, f, m'', h.inner hx, hentry⟩
  · exact ⟨y, e, m', h, hentry⟩

/-- A realization adds what it remembers on the way, and the expression itself if it succeeds. -/
theorem adds_realize (options : O) {z : BoundExpr S} (h : z.WellFormed) (rows : End) (m : Memo I) :
    Adds (RemembersIn options z rows m) m ((z.realize options rows).run.run m).2 := by
  induction z generalizing rows m with
  | link kind source sink => exact adds_recall fun _ => adds_of_entries_eq rfl
  | formula c a b q lhs rhs ihl ihr =>
    obtain ⟨l, r, le, re, f, hreads, hrealize, -⟩ := exists_readsOperands options h rows
    have hoperands :
        (∀ e m, Adds (RemembersIn options l e m) m ((l.realize options e).run.run m).2) ∧
          ∀ e m, Adds (RemembersIn options r e m) m ((r.realize options e).run.run m).2 := by
      rcases hreads.sides with ⟨rfl, rfl⟩ | ⟨rfl, rfl⟩
      · exact ⟨ihl h.2.1, ihr h.2.2⟩
      · exact ⟨ihr h.2.2, ihl h.2.1⟩
    unfold RemembersIn Remembers
    rw [hrealize]
    -- The operands are realized only if the formula is not found, each with the memo of its lookup.
    refine adds_recall fun hnone => adds_both ?_ fun built middle hrun => ?_
    · exact (hoperands.1 le m.countMiss).mono fun _ => (LooksUp.first hreads hnone).remembersInner
    · exact (hoperands.2 re middle).mono fun _ =>
        (LooksUp.second hreads hnone hrun).remembersInner

end PathTree

/-! ## Second attempts -/

namespace Realizing

variable {α : Type} {first second : Realizing ε I (Built I)} {compute : Realizing ε I I}

/-- After a failure, the realization fails with the same error again, and adds nothing. -/
def FailsAgain (a : Realizing ε I α) : Prop :=
  ∀ ⦃m m' : Memo I⦄ ⦃e : ε⦄, a.run.run m = (.error e, m') →
    ∀ again : Memo I, again.entries = m'.entries →
      ∃ m'', a.run.run again = (.error e, m'') ∧ m''.entries = m'.entries

theorem failsAgain_pure (x : Except ε α) :
    FailsAgain (ExceptT.mk (pure x) : Realizing ε I α) := by
  intro m m' e hrun again hagain
  have hx : x = .error e := congrArg Prod.fst hrun
  exact ⟨again, by rw [hx]; rfl, hagain⟩

/-- What does not use the memo leaves it as it was when it fails. -/
theorem run_ofExcept_eq_error_iff {x : Except ε α} {m m' : Memo I} {e : ε} :
    (ofExcept x : Realizing ε I α).run.run m = (.error e, m') ↔ x = .error e ∧ m = m' :=
  Prod.ext_iff

/-- A failure is one of the first realization, of the second one after a success of the first, or
of the operation on their answers. -/
theorem run_both_eq_error_iff {f : I → I → Except ε I} {m m' : Memo I} {e : ε} :
    (Realizing.both first second f).run.run m = (.error e, m') ↔
      first.run.run m = (.error e, m') ∨
        ∃ l middle, first.run.run m = (.ok l, middle) ∧
          (second.run.run middle = (.error e, m') ∨
            ∃ r, second.run.run middle = (.ok r, m') ∧ f l.index r.index = .error e) := by
  simp only [both, run_bind_eq_error_iff, run_ofExcept_eq_error_iff]
  refine or_congr_right (exists_congr fun l => exists_congr fun middle => and_congr_right fun _ =>
    or_congr_right ?_)
  constructor
  · rintro ⟨r, _, hr, herror, rfl⟩
    exact ⟨r, hr, herror⟩
  · rintro ⟨r, hr, herror⟩
    exact ⟨r, m', hr, herror, rfl⟩

/-- After a failure of `both`, the realizations that have succeeded find their answers again. -/
theorem FailsAgain.both {f : I → I → Except ε I} (hfirst : FailsAgain first)
    (hsecond : FailsAgain second)
    (hfound : ∀ {m m' built}, first.run.run m = (.ok built, m') → ∀ again : Memo I,
      m'.entries <+: again.entries → first.run.run again = (.ok built, again.countHit))
    (hfound' : ∀ {m m' built}, second.run.run m = (.ok built, m') → ∀ again : Memo I,
      m'.entries <+: again.entries → second.run.run again = (.ok built, again.countHit))
    (hgrows : ∀ m, m.entries <+: (second.run.run m).2.entries) :
    FailsAgain (.both first second f) := by
  intro m m' e hrun again hagain
  rcases run_both_eq_error_iff.1 hrun with hfails | ⟨l, middle, hl, hrest⟩
  · obtain ⟨m'', hrepeat, hentries⟩ := hfirst hfails again hagain
    exact ⟨m'', run_both_eq_error_iff.2 (.inl hrepeat), hentries⟩
  · -- The memo of the second attempt has grown from the one that the first realization left.
    have hgrow := hgrows middle
    rcases hrest with hfails | ⟨r, hr, hfails⟩
    · rw [hfails, ← hagain] at hgrow
      obtain ⟨m'', hrepeat, hentries⟩ := hsecond hfails again.countHit hagain
      refine ⟨m'', run_both_eq_error_iff.2 (.inr ⟨l, _, hfound hl again hgrow, ?_⟩), hentries⟩
      exact .inl hrepeat
    · rw [hr, ← hagain] at hgrow
      have hr' := hfound' hr again.countHit (hagain ▸ List.prefix_rfl)
      exact ⟨_, run_both_eq_error_iff.2 (.inr ⟨l, _, hfound hl again hgrow, .inr ⟨r, hr', hfails⟩⟩),
        hagain⟩

/-- A request that has failed is computed again, since it is not found. -/
theorem FailsAgain.recall {request : Request} (h : FailsAgain compute)
    (hmissing : ∀ {m m' e}, (Memo.recall request compute).run.run m = (.error e, m') →
      m'.find? request = none) : FailsAgain (Memo.recall request compute) := by
  intro m m' e hrun again hagain
  have hnone : again.find? request = none := by
    rw [Memo.find?, hagain]
    exact hmissing hrun
  -- The computation failed with the miss counted, and so it does again.
  obtain ⟨-, hcompute⟩ := Memo.run_recall_eq_error_iff.1 hrun
  obtain ⟨m'', hrepeat, hentries⟩ := h hcompute again.countMiss hagain
  exact ⟨m'', Memo.run_recall_eq_error_iff.2 ⟨hnone, hrepeat⟩, hentries⟩

end Realizing

namespace PathTree

open Memo Realizing

variable [Identified S] [PathFailure ε] [Realizer O S I ε]
variable {options : O} {z : BoundExpr S} {rows : End} {m m' : Memo I}

/-- An expression that has been realized is found in every memo that has grown from there. -/
theorem realize_of_grown (h : z.WellFormed) {built : Built I}
    (hrun : (z.realize options rows).run.run m = (.ok built, m')) (again : Memo I)
    (hgrow : m'.entries <+: again.entries) :
    (z.realize options rows).run.run again = (.ok built, again.countHit) := by
  have hfound := find?_of_prefix (find?_of_realize h hrun) hgrow
  exact realize_of_found h hfound

/-- Operands that were realized before a failure are found, and the one that failed fails again. -/
theorem failsAgain_realize (options : O) {z : BoundExpr S} (h : z.WellFormed)
    (rows : End) : FailsAgain (z.realize options rows) := by
  induction z generalizing rows with
  | link kind source sink =>
    exact .recall (failsAgain_pure _) fun hrun => (find?_of_realize_error h hrun).2
  | formula c a b q lhs rhs ihl ihr =>
    obtain ⟨l, r, le, re, f, hsides, hrealize, -⟩ := exists_operands options h rows
    rw [hrealize]
    refine .recall ?_ fun hrun => (find?_of_realize_error h (hrealize ▸ hrun)).2
    -- In either order, nothing that is realized for the later operand displaces the earlier one.
    rcases hsides with ⟨rfl, rfl⟩ | ⟨rfl, rfl⟩
    · exact (ihl h.2.1 le).both (ihr h.2.2 re) (realize_of_grown h.2.1)
        (realize_of_grown h.2.2) (prefix_of_realize h.2.2 re)
    · exact (ihr h.2.2 le).both (ihl h.2.1 re) (realize_of_grown h.2.2)
        (realize_of_grown h.2.1) (prefix_of_realize h.2.1 re)

end PathTree

/-! ## Requests that are refused -/

namespace Builder

open Memo

variable [Identified S] [PathFailure ε] [Realizer O S I ε]
variable {b c : Builder O S I} {x : OpenExpr S} {ordinal : Nat} {z : BoundExpr S} {rows : End}

/-- A binding is refused exactly if its name has a set of another identity, and the refusal names
that set. -/
theorem bind_eq_error_iff {name : String} {set : S} {e : PathError} :
    b.bind name set = .error e ↔ ∃ existing, b.bindings.get? name = some existing ∧
      Identified.id existing ≠ Identified.id set ∧
        e = .rebound name (Identified.name existing) := by
  rw [Builder.bind]
  cases b.bindings.get? name with
  | none => simp
  | some existing =>
    by_cases hid : Identified.id existing = Identified.id set
    · simp [hid]
    · simp only [if_neg hid, Except.error.injEq, Option.some.injEq]
      constructor
      · rintro rfl
        exact ⟨existing, rfl, hid, rfl⟩
      · rintro ⟨_, rfl, -, rfl⟩
        rfl

/-- A binding that is refused changes nothing. -/
theorem call_bind_of_error {name : String} {set : S} {e : PathError}
    (h : b.bind name set = .error e) : b.call (.bind name set) = (.bound (.error e), b) := by
  rw [call, h]

/-- The builder refuses the request for the end `ordinal` of `x`, before it looks at its memo. -/
inductive Refuses (b : Builder O S I) (x : OpenExpr S) (ordinal : Nat) : PathError → Prop
  /-- An expression has two ends. -/
  | noEnd : 2 ≤ ordinal → Refuses b x ordinal (.invalidSourceEndpoint x.text ordinal)
  /-- Some variables have sets and others have none. -/
  | partiallyBound : ordinal < 2 → (∃ v ∈ x.vars, v.set ≠ none) → (∃ v ∈ x.vars, v.set = none) →
      Refuses b x ordinal (.partiallyBound x.text)
  /-- No variable has a set, and `v` is the first one whose name is not in the table. -/
  | unbound {v : OpenVar S} : ordinal < 2 → (∀ v ∈ x.vars, v.set = none) →
      x.vars.find? (fun v => (b.bindings.get? v.name).isNone) = some v →
      Refuses b x ordinal (.unboundVar v.name)

/-- There is no bound form if the check fails, or if an expression without sets cannot be bound. -/
theorem boundForm_eq_error_iff {e : PathError} : b.boundForm x = .error e ↔
    x.checkBound = .error e ∨ x.checkBound = .ok false ∧ x.bind b.bindings = .error e := by
  rcases hcheck : x.checkBound with e' | _ | _
  · have hform : b.boundForm x = .error e' := by
      rw [boundForm, hcheck]
      rfl
    simp [hform]
  · rcases hbind : x.bind b.bindings with e' | y
    · have hform : b.boundForm x = .error e' := by
        rw [boundForm, hcheck, hbind]
        rfl
      simp [hform]
    · -- All variables of what was bound have sets, so that it can be closed.
      obtain ⟨z, rfl⟩ := checkBound_eq_ok_true_iff.1 (boundByName_of_bind hbind).checkBound_eq
      simp [boundForm_eq_ok_iff.2 (.inr ⟨hcheck, hbind⟩)]
  · obtain ⟨z, rfl⟩ := checkBound_eq_ok_true_iff.1 hcheck
    simp [boundForm_toOpen]

/-- A request is not resolved exactly if the builder refuses it. -/
theorem resolve_eq_error_iff (hx : x.WellFormed) {e : PathError} :
    b.resolve x ordinal = .error e ↔ b.Refuses x ordinal e := by
  rw [resolve]
  -- The ordinal is looked at first, so that the other causes are reported for an end only.
  cases hrows : End.ofNat? ordinal with
  | none =>
    have htwo := End.ofNat?_eq_none_iff.1 hrows
    constructor
    · intro h
      cases h
      exact .noEnd htwo
    · rintro (_ | ⟨hlt, -, -⟩ | ⟨hlt, -, -⟩)
      · rfl
      · omega
      · omega
  | some rows =>
    have hlt : ordinal < 2 := by
      by_contra hle
      rw [End.ofNat?_eq_none_iff.2 (Nat.le_of_not_lt hle)] at hrows
      cases hrows
    have hmap : (b.boundForm x).map (fun bound => (bound, rows)) = .error e ↔
        b.boundForm x = .error e := by
      cases b.boundForm x <;> simp [Except.map]
    rw [hmap, boundForm_eq_error_iff, checkBound_eq_error_iff, checkBound_eq_ok_false_iff,
      bind_eq_outcome hx, Bindings.outcome_eq_error_iff]
    constructor
    · rintro (⟨hsome, hnone, rfl⟩ | ⟨hnone, v, hv, rfl⟩)
      · exact .partiallyBound hlt hsome hnone
      · exact .unbound hlt hnone hv
    · rintro (hle | ⟨-, hsome, hnone⟩ | ⟨-, hnone, hv⟩)
      · omega
      · exact .inl ⟨hsome, hnone, rfl⟩
      · exact .inr ⟨hnone, _, hv, rfl⟩

/-! ## Failed builds -/

/-- The builder `b` becomes `c` by a build that is resolved to the bound form `z` and its end
`rows`, and fails with `failure`. -/
structure FailedBuild (b c : Builder O S I) (x : OpenExpr S) (ordinal : Nat) (z : BoundExpr S)
    (rows : End) (failure : ε) : Prop where
  /-- The table and the options are as before. -/
  bindings_eq : c.bindings = b.bindings
  options_eq : c.options = b.options
  /-- What was found is still found, as the same index. -/
  kept : ∀ request built, b.memo.find? request = some built → c.memo.find? request = some built
  /-- Each entry that is added is for a part of an operand and the end from which it was looked up,
  and holds the index that it was realized with. -/
  added : Adds (fun entry => ∃ y e m, y ∈ z.parts.tail ∧ LooksUp b.options z rows b.memo y e m ∧
    Remembers b.options y e m entry) b.memo c.memo
  /-- The expression itself is found neither before nor after the build. -/
  absent : b.memo.find? ⟨z.boundKey, rows⟩ = none ∧ c.memo.find? ⟨z.boundKey, rows⟩ = none
  /-- If sets are told apart by their identities, no builder with these options ever finds it. -/
  never : ∀ U, Distinct U → x.Over U → Runs U (new b.options) b → ∀ d, Runs U (new b.options) d →
    d.memo.find? ⟨z.boundKey, rows⟩ = none
  /-- The same build fails with the same failure once more, and adds nothing. -/
  repeated : ∃ d, c.build x ordinal = (.error failure, d) ∧ d.bindings = c.bindings ∧
    d.memo.entries = c.memo.entries

/-- An expression whose build has failed is in the memo of no builder over the same sets. -/
theorem find?_eq_none_of_build_error {U : S → Prop} {d : Builder O S I} {failure : ε}
    (hU : Distinct U) (hz : z.WellFormed) (hzU : ∀ v ∈ z.vars, U v.set)
    (hb : Runs U (new b.options) b) (hd : Runs U (new b.options) d)
    (hrows : End.ofNat? ordinal = some rows) (hform : b.boundForm x = .ok z)
    (herror : (b.build x ordinal).1 = .error failure) : d.memo.find? ⟨z.boundKey, rows⟩ = none := by
  have heval := build_eq_eval hU (sound_of_runs hU hb) hz hzU hrows hform
  rw [herror] at heval
  have hsound := sound_of_runs hU hd
  rw [options_of_runs hd] at hsound
  -- An entry for the expression would hold its index, and it has none.
  by_contra hfound
  obtain ⟨built, hfound⟩ := Option.ne_none_iff_exists'.1 hfound
  have hok := hsound.eval_of_find? hU hz hzU hfound
  cases heval.trans hok

/-- A build that is resolved and fails leaves its builder as `FailedBuild` says. -/
theorem failedBuild (hx : x.WellFormed) {failure : ε}
    (hresolve : b.resolve x ordinal = .ok (z, rows))
    (hbuild : b.build x ordinal = (.error failure, c)) :
    FailedBuild b c x ordinal z rows failure := by
  obtain ⟨hrows, hform⟩ := resolve_eq_ok_iff.1 hresolve
  have hz := wellFormed_of_boundForm hx hform
  have herror : (b.build x ordinal).1 = .error failure := congrArg Prod.fst hbuild
  rw [build_of_boundForm hrows hform] at hbuild
  rcases hrun : (z.realize b.options rows).run.run b.memo with ⟨result, after⟩
  rw [hrun] at hbuild
  cases hbuild
  have hgrow : b.memo.entries <+: ((z.realize b.options rows).run.run b.memo).2.entries :=
    prefix_of_realize hz rows b.memo
  have hadds := adds_realize b.options hz rows b.memo
  rw [hrun] at hgrow hadds
  refine ⟨rfl, rfl, fun request built hfound => find?_of_prefix hfound hgrow, ?_,
    find?_of_realize_error hz hrun, ?_, ?_⟩
  · -- The expression itself is not remembered, since it has no index.
    refine hadds.mono fun entry hentry => ?_
    rcases hentry with ⟨y, e, m, hlooks, hentry⟩ | ⟨-, built, m, hok, -⟩
    · exact ⟨y, e, m, hlooks.mem_tail_parts, hlooks, hentry⟩
    · rw [hrun] at hok
      cases hok
  · intro U hU hxU hb d hd
    have hzU := over_toOpen.1 (over_of_boundForm (bindsOver_of_runs bindsOver_new hb) hxU hform)
    exact find?_eq_none_of_build_error hU hz hzU hb hd hrows hform herror
  · -- The table is the same, so that the expression has the same bound form.
    have hform' : boundForm { b with memo := after } x = .ok z := hform
    obtain ⟨m, hagain, hentries⟩ := failsAgain_realize b.options hz rows hrun after rfl
    refine ⟨{ b with memo := m }, ?_, rfl, hentries⟩
    rw [build_of_boundForm hrows hform', hagain]

/-- A call that fails leaves a builder that can be used as before. A binding is refused exactly if
its name has another set, and a request is refused for the causes of `Refuses`. Neither changes
anything. Any other build that fails keeps the table and whatever is found, remembers parts of the
operands that were realized on the way, and fails in the same way when it is repeated. -/
theorem failed_calls_preserve (b : Builder O S I) :
    (∀ name set e, b.bind name set = .error e ↔ ∃ existing, b.bindings.get? name = some existing ∧
      Identified.id existing ≠ Identified.id set ∧
        e = .rebound name (Identified.name existing)) ∧
    (∀ name set e, b.bind name set = .error e →
      b.call (.bind name set) = (.bound (.error e), b)) ∧
    ∀ x ordinal, x.Constructible →
      (∀ e, b.resolve x ordinal = .error e ↔ b.Refuses x ordinal e) ∧
      (∀ e, b.Refuses x ordinal e → b.build x ordinal = (.error (PathFailure.rejected e), b)) ∧
      ∀ failure c, b.build x ordinal = (.error failure, c) →
        (∃ e, b.Refuses x ordinal e ∧ failure = PathFailure.rejected e ∧ c = b) ∨
        ∃ z rows, b.resolve x ordinal = .ok (z, rows) ∧
          FailedBuild b c x ordinal z rows failure := by
  refine ⟨fun _ _ _ => bind_eq_error_iff, fun _ _ _ => call_bind_of_error, fun x ordinal hx => ?_⟩
  have hwf := constructible_iff_wellFormed.1 hx
  refine ⟨fun e => resolve_eq_error_iff hwf, fun e hrefuses => ?_, fun failure c hbuild => ?_⟩
  · exact (endings_of_error ((resolve_eq_error_iff hwf).2 hrefuses)).2
  · -- A build fails before the first lookup exactly if the request is not resolved.
    cases hresolve : b.resolve x ordinal with
    | error e =>
      rw [(endings_of_error hresolve).2] at hbuild
      cases hbuild
      exact .inl ⟨e, (resolve_eq_error_iff hwf).1 hresolve, rfl, rfl⟩
    | ok pair => exact .inr ⟨pair.1, pair.2, rfl, failedBuild hwf hresolve hbuild⟩

/-- A name that is bound already, a name that is not bound, and a formula whose left operand is
realized before the right one fails. -/
theorem failed_calls_preserve_sharedEdge :
    let vertices := Mesh.twoVertices.toSetView
    let edges : SetView := ⟨⟨2⟩, "E", 1, [⟨1⟩, ⟨1⟩], #[0, 1], none⟩
    let misfit : BoundExpr := .link .vertexToEdge ⟨"u", vertices⟩ ⟨"w", vertices⟩
    let either : BoundExpr :=
      .formula .or ⟨"u", vertices⟩ ⟨"w", vertices⟩ none sharedEdge misfit
    let loose : OpenExpr := .link .vertexToEdge (.unbound "u") (.unbound "w")
    let b := (new .standard : Builder).after [.bind "u" vertices]
    let c := (b.build either.toOpen 0).2
    b.call (.bind "u" edges) = (.bound (.error (.rebound "u" "V")), b) ∧
      b.build loose 0 = (.error (.rejected (.unboundVar "w")), b) ∧ c.memo.size = 3 ∧
      FailedBuild b c either.toOpen 0 either .first
        (.rejected (.notAnEdgeSet "V")) := by
  intro vertices edges misfit either loose b c
  obtain ⟨hbind, hcall, hbuild⟩ := failed_calls_preserve b
  have hloose : loose.Constructible := constructible_iff_wellFormed.2 (by decide)
  have heither : either.toOpen.Constructible := constructible_iff_wellFormed.2 (by decide)
  have hunbound : b.Refuses loose 0 (.unboundVar "w") :=
    Refuses.unbound (v := .unbound "w") (by decide) (by decide) (by decide)
  refine ⟨hcall _ _ _ ((hbind _ _ _).2 ⟨vertices, by decide, by decide, by decide⟩),
    (hbuild loose 0 hloose).2.1 _ hunbound, by decide +kernel, ?_⟩
  -- Both ends of `misfit` are sets of vertices, so that neither of them can be the edge side.
  have hfails : (b.build either.toOpen 0).1 = .error (.rejected (.notAnEdgeSet "V")) := by
    decide +kernel
  have hresolve : b.resolve either.toOpen 0 = .ok (either, .first) :=
    resolve_eq_ok_iff.2 ⟨rfl, boundForm_toOpen b either⟩
  obtain ⟨hrefuses, -, hfailed⟩ := hbuild either.toOpen 0 heither
  rcases hfailed _ c (Prod.ext hfails rfl) with ⟨e, he, -, -⟩ | ⟨z, rows, hz, hfailed⟩
  · rw [(hrefuses e).2 he] at hresolve
    cases hresolve
  · rw [hz] at hresolve
    cases hresolve
    exact hfailed

end Builder

end MeshPath
