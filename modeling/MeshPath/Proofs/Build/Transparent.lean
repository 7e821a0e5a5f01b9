import MeshPath.Proofs.Build.Alike
import MeshPath.Proofs.Build.Run

/-!
# The memo is transparent

Whatever a builder has been asked before, it answers like one that remembers nothing. This does not
depend on how links and formulas are realized, nor on what sets and indices are: a set is its
identity here, and a realization is any function that may fail.

* `Memo.Sound`: every entry holds the index of an expression that has its key.
* `realize_yields`: with a sound memo, realization gives what `eval` gives, success or failure, and
  leaves the memo sound.
* `sound_of_runs`: the memo of a builder is always sound.
* `build_eq_build_of_empty`: the outcome of a build does not depend on the memo.
-/

namespace MeshPath

open PathTree Success

variable {O S I ε : Type} [Identified S] [PathFailure ε] [Realizer O S I ε]
variable {U : S → Prop} {options : O} {α β : Type}

namespace Memo

/-- Every entry holds what a well-formed expression over `U` with its key evaluates to. -/
def Sound (U : S → Prop) (options : O) (m : Memo I) : Prop :=
  ∀ e ∈ m.entries, ∃ z : BoundExpr S, z.WellFormed ∧ (∀ v ∈ z.vars, U v.set) ∧
    z.boundKey = e.1.key ∧ z.eval options e.1.rows = .ok e.2

theorem sound_empty : Sound U options .empty := fun _ he => absurd he List.not_mem_nil

/-- A memo stays sound when the index of an expression is remembered under its key. -/
theorem Sound.insert {m : Memo I} (h : m.Sound U options) {z : BoundExpr S} {rows : End}
    {index : I} (hz : z.WellFormed) (hzU : ∀ v ∈ z.vars, U v.set)
    (heval : z.eval options rows = .ok index) :
    (m.insert ⟨z.boundKey, rows⟩ index).2.Sound U options := by
  intro e he
  rcases List.mem_append.1 he with he | he
  · exact h e he
  · rw [List.mem_singleton.1 he]
    exact ⟨z, hz, hzU, rfl, heval⟩

/-- What is found for an expression is its index. -/
theorem Sound.eval_of_find? {m : Memo I} (h : m.Sound U options) (hU : Distinct U) {z : BoundExpr S}
    {rows : End} {built : Built I} (hz : z.WellFormed) (hzU : ∀ v ∈ z.vars, U v.set)
    (hfound : m.find? ⟨z.boundKey, rows⟩ = some built) :
    z.eval options rows = .ok built.index := by
  -- The entry was made for some expression with this key, perhaps under other names.
  obtain ⟨y, hy, hyU, hkey, heval⟩ := h _ (mem_of_findFrom hfound)
  rw [eval_eq_of_boundKey options hU hz hy hzU hyU hkey.symm]
  exact heval

/-- From every sound memo, the realization has the outcome `result` as far as `index` tells, and
leaves a sound memo. -/
def Yields (U : S → Prop) (options : O) (a : Realizing ε I α) (index : α → β)
    (result : Except ε β) : Prop :=
  ∀ m : Memo I, m.Sound U options →
    (a.run.run m).1.map index = result ∧ (a.run.run m).2.Sound U options

theorem yields_pure (result : Except ε α) :
    Yields U options (ExceptT.mk (pure result) : Realizing ε I α) id result := fun m hm => by
  refine ⟨?_, hm⟩
  cases result <;> rfl

/-- A sound memo stays sound along two realizations, and their outcomes follow one another. -/
theorem Yields.bind {γ δ : Type} {a : Realizing ε I α} {index : α → β} {result : Except ε β}
    {f : α → Realizing ε I γ} {index' : γ → δ} {g : β → Except ε δ}
    (ha : Yields U options a index result)
    (hf : ∀ x, Yields U options (f x) index' (g (index x))) :
    Yields U options (a >>= f) index' (result >>= g) := by
  intro m hm
  obtain ⟨hresult, hsound⟩ := ha m hm
  rw [run_bind]
  rcases hrun : a.run.run m with ⟨e | x, middle⟩
  -- A failed step ends the run, and the memo that it leaves is sound as well.
  · rw [hrun] at hresult hsound
    rw [← hresult]
    exact ⟨rfl, hsound⟩
  · rw [hrun] at hresult hsound
    rw [← hresult]
    exact hf x middle hsound

/-- So does it along two operands and the operation on their indices, which may fail. -/
theorem Yields.both {first second : Realizing ε I (Built I)} {i j : Except ε I}
    (hfirst : Yields U options first Built.index i)
    (hsecond : Yields U options second Built.index j) (f : I → I → Except ε I) :
    Yields U options (.both first second f) id (do
      let l ← i
      let r ← j
      f l r) :=
  hfirst.bind fun _ => hsecond.bind fun _ => yields_pure _

/-- Remembering an expression does not change its outcome. -/
theorem Yields.recall (hU : Distinct U) {z : BoundExpr S} {rows : End}
    {compute : Realizing ε I I} (hz : z.WellFormed) (hzU : ∀ v ∈ z.vars, U v.set)
    (h : Yields U options compute id (z.eval options rows)) :
    Yields U options (Memo.recall ⟨z.boundKey, rows⟩ compute) Built.index
      (z.eval options rows) := by
  intro m hm
  rw [run_recall]
  -- A known answer is right by soundness, and a computed one keeps the memo sound.
  cases hfound : m.find? ⟨z.boundKey, rows⟩ with
  | some built => exact ⟨(hm.eval_of_find? hU hz hzU hfound).symm, hm⟩
  | none =>
    obtain ⟨hresult, hsound⟩ := h m.countMiss hm
    rcases hrun : compute.run.run m.countMiss with ⟨e | index, m'⟩
    · rw [hrun] at hresult hsound
      exact ⟨hresult, hsound⟩
    · rw [hrun] at hresult hsound
      have heval : z.eval options rows = .ok index := hresult.symm
      exact ⟨heval.symm, hsound.insert hz hzU heval⟩

end Memo

namespace PathTree

open Memo

/-- With a sound memo, an expression over `U` is realized as without a memo. -/
theorem realize_yields (hU : Distinct U) {z : BoundExpr S} (hz : z.WellFormed)
    (hzU : ∀ v ∈ z.vars, U v.set) (rows : End) :
    Yields U options (z.realize options rows) Built.index (z.eval options rows) := by
  induction z generalizing rows with
  | link kind source sink => exact .recall hU hz hzU (yields_pure _)
  | formula c x y q lhs rhs ihl ihr =>
    have hl := ihl hz.2.1 fun v hv => hzU v (mem_vars_of_lhs hv)
    have hr := ihr hz.2.2 fun v hv => hzU v (mem_vars_of_rhs hv)
    obtain ⟨l, r, le, re, f, hsides, hrealize, heval⟩ := exists_operands options hz rows
    rw [hrealize]
    refine .recall hU hz hzU ?_
    rw [heval]
    rcases hsides with ⟨rfl, rfl⟩ | ⟨rfl, rfl⟩
    · exact (hl le).both (hr re) f
    · exact (hr le).both (hl re) f

end PathTree

namespace Builder

open Memo

variable {a b c : Builder O S I} {x : OpenExpr S}

/-- A call leaves a sound memo. -/
theorem sound_of_step (hU : Distinct U) (hb : b.BindsOver U)
    (hsound : b.memo.Sound U b.options) (h : Step U b c) : c.memo.Sound U c.options := by
  rcases step_cases h with rfl | ⟨_, _, _, _, rfl⟩ | ⟨x, z, rows, hx, hxU, hform, rfl⟩
  · exact hsound
  · exact hsound
  · have hz := wellFormed_of_boundForm (constructible_iff_wellFormed.1 hx) hform
    have hzU := over_toOpen.1 (over_of_boundForm hb hxU hform)
    exact (realize_yields hU hz hzU rows b.memo hsound).2

/-- After any calls on a new builder, its memo is sound. -/
theorem sound_of_runs (hU : Distinct U) (h : Runs U (new options) b) :
    b.memo.Sound U b.options := by
  induction h with
  | refl => exact sound_empty
  | step hruns hstep ih =>
    exact sound_of_step hU (bindsOver_of_runs bindsOver_new hruns) ih hstep

/-- A build over `U` is the evaluation of the bound form. -/
theorem build_eq_eval (hU : Distinct U) (hsound : b.memo.Sound U b.options) {z : BoundExpr S}
    (hz : z.WellFormed) (hzU : ∀ v ∈ z.vars, U v.set) {rows : End} {ordinal : Nat}
    (hrows : End.ofNat? ordinal = some rows) (hform : b.boundForm x = .ok z) :
    (b.build x ordinal).1.map Built.index = z.eval b.options rows := by
  rw [build_of_boundForm hrows hform]
  exact (realize_yields hU hz hzU rows b.memo hsound).1

/-- After any calls, the outcome of a build is that of a builder with the same options and table
that remembers nothing: the same index, or the same failure. -/
theorem build_eq_build_of_empty (hU : Distinct U) (h : Runs U (new options) b)
    (hx : x.Constructible) (hxU : x.Over U) (ordinal : Nat) :
    (b.build x ordinal).1.map Built.index =
      (({ b with memo := .empty } : Builder O S I).build x ordinal).1.map Built.index := by
  have hsound := sound_of_runs hU h
  have hb := bindsOver_of_runs bindsOver_new h
  rcases build_eq_or b x ordinal with ⟨rows, z, hrows, hform⟩ | ⟨e, hresolve, hbuild⟩
  -- The bound form is the same for both builders, and both give what it evaluates to.
  · have hz := wellFormed_of_boundForm (constructible_iff_wellFormed.1 hx) hform
    have hzU := over_toOpen.1 (over_of_boundForm hb hxU hform)
    have hempty := build_eq_eval (b := { b with memo := .empty }) hU sound_empty hz hzU hrows hform
    rw [build_eq_eval hU hsound hz hzU hrows hform]
    exact hempty.symm
  -- Without a bound form both builders fail before they look at their memos.
  · have hresolve' : ({ b with memo := .empty } : Builder O S I).resolve x ordinal = .error e :=
      hresolve
    rw [hbuild, build, hresolve']

/-- The expression has been realized before, from its other end too. -/
theorem build_eq_build_of_empty_sharedEdge :
    let b := (((new .standard : Builder).build sharedEdge.toOpen 0).2.build sharedEdge.toOpen 1).2
    (b.build sharedEdge.toOpen 0).1.map Built.index =
      (({ b with memo := .empty } : Builder).build sharedEdge.toOpen 0).1.map Built.index := by
  let U : SetView → Prop := fun s => ∃ v ∈ sharedEdge.vars, v.set = s
  have hU : Distinct U := by
    have hpairs : ∀ v ∈ sharedEdge.vars, ∀ w ∈ sharedEdge.vars,
        v.set.id = w.set.id → v.set = w.set := by decide
    rintro _ _ ⟨v, hv, rfl⟩ ⟨w, hw, rfl⟩
    exact hpairs v hv w hw
  have hx : sharedEdge.toOpen.Constructible := constructible_iff_wellFormed.2 (by decide)
  have hxU : sharedEdge.toOpen.Over U := over_toOpen.2 fun v hv => ⟨v, hv, rfl⟩
  have hruns : Runs U (new .standard : Builder)
      (((new .standard : Builder).build sharedEdge.toOpen 0).2.build sharedEdge.toOpen 1).2 :=
    (Runs.refl.step (.build _ 0 hx hxU)).step (.build _ 1 hx hxU)
  exact build_eq_build_of_empty hU hruns hx hxU 0

end Builder

end MeshPath
