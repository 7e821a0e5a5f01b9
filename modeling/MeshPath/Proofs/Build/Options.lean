import MeshPath.Proofs.Build.Bounds
import Mathlib.Data.List.Forall2

/-!
# Options do not choose the relation

Two builders that differ in their options alone answer every sequence of calls alike: an endpoint
view has the rows of the copied endpoints, and sorting changes no row.

* `PathIndex.SameRows`: indices that differ in their layout only.
* `Memo.Agrees`, `Realizing.Agrees`: the simulation between the two memos, and between two
  realizations that keep it. `agrees_realize`: the realizations of an expression do.
* `Builder.call`, `Builder.calls`: what a builder answers to calls, one after another.
* `calls_agree`: the answers under any two options.
-/

namespace MeshPath

open PathTree Success

/-! ## Indices and outcomes -/

namespace PathIndex

/-- The indices have the same elements with the same rows, and they count the same sinks. -/
structure SameRows (a b : PathIndex) : Prop where
  numElements_eq : a.numElements = b.numElements
  numNeighbors_eq : a.numNeighbors = b.numNeighbors
  row_eq : ∀ e, a.row e = b.row e

theorem SameRows.refl (a : PathIndex) : a.SameRows a := ⟨rfl, rfl, fun _ => rfl⟩

/-- Indices with the same rows agree, however they are laid out. -/
theorem HasRows.sameRows {a b : PathIndex} {n : Nat} {f : Nat → List Nat} (ha : a.HasRows n f)
    (hb : b.HasRows n f) : a.SameRows b where
  numElements_eq := ha.numElements_eq.trans hb.numElements_eq.symm
  numNeighbors_eq := ha.numNeighbors_eq.trans hb.numNeighbors_eq.symm
  row_eq e := (ha.row_eq e).trans (hb.row_eq e).symm

end PathIndex

namespace Formula

variable {l l' r r' : PathIndex}

/-- A formula only reads the rows of its operands. -/
theorem combine_congr (c : Connective) (hl : l.SameRows l') (hr : r.SameRows r') :
    combine c l r = combine c l' r' := by
  simp only [combine, PathIndex.elements, hl.numElements_eq, hl.row_eq, hr.row_eq]

/-- The elimination of a variable reads rows only, so that it does not see the layout of its hops.
-/
theorem eliminate_congr (c : Connective) (sinks : SetView) (hl : l.SameRows l')
    (hr : r.SameRows r') : eliminate c l r sinks = eliminate c l' r' sinks := by
  have hrow : r.row = r'.row := funext hr.row_eq
  simp only [eliminate, join, broadcast, PathIndex.elements, hl.numElements_eq, hl.row_eq, hrow]

end Formula

/-- The outcomes are the same error, or results that `R` relates. -/
inductive SameOutcome {ε α : Type} (R : α → α → Prop) : Except ε α → Except ε α → Prop
  | ok {a a' : α} : R a a' → SameOutcome R (.ok a) (.ok a')
  | error (e : ε) : SameOutcome R (.error e) (.error e)

theorem SameOutcome.refl {ε α : Type} (x : Except ε α) : SameOutcome Eq x x := by
  cases x with
  | ok a => exact .ok rfl
  | error e => exact .error e

/-- Under all options, a link has the same rows or is refused with the same error. -/
theorem Link.sameOutcome_realize {sizes : SetId → Nat} {kind : LinkKind} {source sink : SetView}
    (options options' : BuildOptions) (hsource : source.Regular sizes) (hsink : sink.Regular sizes)
    (hsame : source.id = sink.id → source = sink) (rows : End) :
    SameOutcome PathIndex.SameRows (realize options kind source sink rows)
      (realize options' kind source sink rows) := by
  by_cases htyped : kind.WellTyped source sink
  · obtain ⟨a, ha, hrows⟩ := exists_hasRows hsource hsink hsame htyped options rows
    obtain ⟨b, hb, hrows'⟩ := exists_hasRows hsource hsink hsame htyped options' rows
    rw [ha, hb]
    exact .ok (hrows.sameRows hrows')
  · let h : Hop := ⟨kind, source, sink, rows⟩
    obtain ⟨e, hfault⟩ := (Hop.exists_fault_iff (h := h) hsame).2 htyped
    have ha : realize options kind source sink rows = .error (.rejected e) :=
      Hop.realize_of_fault hfault
    have hb : realize options' kind source sink rows = .error (.rejected e) :=
      Hop.realize_of_fault hfault
    rw [ha, hb]
    exact .error _

/-! ## Two memos -/

/-- The indices have the same place and the same rows. -/
structure Built.SameRows (a b : Built) : Prop where
  place_eq : a.place = b.place
  index : a.index.SameRows b.index

namespace Memo

/-- The memos hold indices with the same rows under the same requests, in the same order, and have
counted the same. -/
structure Agrees (m m' : Memo) : Prop where
  entries : List.Forall₂ (fun e e' => e.1 = e'.1 ∧ e.2.SameRows e'.2) m.entries m'.entries
  hits_eq : m.hits = m'.hits
  misses_eq : m.misses = m'.misses

variable {m m' : Memo}

theorem agrees_empty : Agrees .empty .empty := ⟨.nil, rfl, rfl⟩

theorem Agrees.size_eq (h : m.Agrees m') : m.size = m'.size := h.entries.length_eq

theorem Agrees.countHit (h : m.Agrees m') : m.countHit.Agrees m'.countHit :=
  ⟨h.entries, congrArg (· + 1) h.hits_eq, h.misses_eq⟩

theorem Agrees.countMiss (h : m.Agrees m') : m.countMiss.Agrees m'.countMiss :=
  ⟨h.entries, h.hits_eq, congrArg (· + 1) h.misses_eq⟩

/-- Memos that agree remember an index at the same place. -/
theorem Agrees.insert (h : m.Agrees m') (request : Request) {index index' : PathIndex}
    (hindex : index.SameRows index') :
    (m.insert request index).1.SameRows (m'.insert request index').1 ∧
      (m.insert request index).2.Agrees (m'.insert request index').2 :=
  ⟨⟨h.size_eq, hindex⟩,
    List.rel_append h.entries (.cons ⟨rfl, hindex⟩ .nil), h.hits_eq, h.misses_eq⟩

/-- Both memos find a request at one place, or neither finds it. -/
theorem Agrees.find? (h : m.Agrees m') (request : Request) :
    Option.Rel Built.SameRows (m.find? request) (m'.find? request) := by
  have hfrom : ∀ {es es' : List (Request × PathIndex)} (place : Nat),
      List.Forall₂ (fun e e' => e.1 = e'.1 ∧ e.2.SameRows e'.2) es es' →
        Option.Rel Built.SameRows (findFrom request place es) (findFrom request place es') := by
    intro es es' place hes
    induction hes generalizing place with
    | nil => exact .none
    | cons hentry _ ih =>
      rw [findFrom, findFrom, hentry.1]
      split
      · exact .some ⟨rfl, hentry.2⟩
      · exact ih (place + 1)
  exact hfrom 0 h.entries

end Memo

namespace Realizing

variable {α β : Type} {R : α → α → Prop} {S : β → β → Prop} {a a' : Realizing Failure PathIndex α}

/-- From memos that agree, the realizations give outcomes that `R` relates and memos that agree. -/
def Agrees (R : α → α → Prop) (a a' : Realizing Failure PathIndex α) : Prop :=
  ∀ m m' : Memo, m.Agrees m' →
    SameOutcome R (a.run.run m).1 (a'.run.run m').1 ∧ (a.run.run m).2.Agrees (a'.run.run m').2

theorem agrees_ofExcept {x x' : Except Failure α} (h : SameOutcome R x x') :
    Agrees R (ofExcept x) (ofExcept x') := fun _ _ hm => ⟨h, hm⟩

theorem agrees_pure {x x' : α} (h : R x x') : Agrees R (pure x) (pure x') :=
  fun _ _ hm => ⟨.ok h, hm⟩

/-- Realizations in a row agree if each of them does. -/
theorem Agrees.bind {f f' : α → Realizing Failure PathIndex β} (ha : Agrees R a a')
    (hf : ∀ x x', R x x' → Agrees S (f x) (f' x')) : Agrees S (a >>= f) (a' >>= f') := by
  intro m m' hm
  obtain ⟨hresult, hmemo⟩ := ha m m' hm
  rw [run_bind, run_bind]
  rcases hrun : a.run.run m with ⟨result, n⟩
  rcases hrun' : a'.run.run m' with ⟨result', n'⟩
  rw [hrun, hrun'] at hresult hmemo
  -- Either both realizations go on, or both end with one error.
  cases hresult with
  | ok hx => exact hf _ _ hx n n' hmemo
  | error e => exact ⟨.error e, hmemo⟩

/-- Both requests are found or neither is, and what is computed is remembered at one place. -/
theorem Agrees.recall {compute compute' : Realizing Failure PathIndex PathIndex} (request : Request)
    (h : Agrees PathIndex.SameRows compute compute') :
    Agrees Built.SameRows (Memo.recall request compute) (Memo.recall request compute') := by
  intro m m' hm
  rw [Memo.run_recall, Memo.run_recall]
  have hfound := hm.find? request
  rcases hfind : m.find? request with _ | built <;> rcases hfind' : m'.find? request with _ | built'
  · obtain ⟨hresult, hmemo⟩ := h _ _ hm.countMiss
    rcases hrun : compute.run.run m.countMiss with ⟨result, n⟩
    rcases hrun' : compute'.run.run m'.countMiss with ⟨result', n'⟩
    rw [hrun, hrun'] at hresult hmemo
    cases hresult with
    | ok hindex => exact ⟨.ok (hmemo.insert request hindex).1, (hmemo.insert request hindex).2⟩
    | error e => exact ⟨.error e, hmemo⟩
  · rw [hfind, hfind'] at hfound
    cases hfound
  · rw [hfind, hfind'] at hfound
    cases hfound
  · rw [hfind, hfind'] at hfound
    cases hfound with
    | some hbuilt => exact ⟨.ok hbuilt, hm.countHit⟩

end Realizing

namespace PathTree

open Realizing

variable {sizes : SetId → Nat} {U : SetView → Prop}

/-- An operand that is read from its end of some name. -/
theorem agrees_operand {options options' : BuildOptions} {z : BoundExpr}
    (h : ∀ rows, Agrees Built.SameRows (z.realize options rows) (z.realize options' rows))
    (name : String) {f f' : Built → Realizing Failure PathIndex PathIndex}
    (hf : ∀ i i', i.SameRows i' → Agrees PathIndex.SameRows (f i) (f' i')) :
    Agrees PathIndex.SameRows
      (do f (← z.realize options (← Realizing.ofExcept (z.operandEnd name))))
      (do f' (← z.realize options' (← Realizing.ofExcept (z.operandEnd name)))) := by
  refine (agrees_ofExcept (.refl (z.operandEnd name))).bind ?_
  rintro e _ rfl
  exact (h e).bind hf

/-- Over regular sets, the realizations of an expression under two options agree. -/
theorem agrees_realize (options options' : BuildOptions) (hU : RegularSets sizes U) {z : BoundExpr}
    (hzU : ∀ v ∈ z.vars, U v.set) (rows : End) :
    Agrees Built.SameRows (z.realize options rows) (z.realize options' rows) := by
  induction z generalizing rows with
  | link kind source sink =>
    have hsource := hzU source (by simp [vars])
    have hsink := hzU sink (by simp [vars])
    exact .recall _ (agrees_ofExcept (Link.sameOutcome_realize options options'
      (hU.regular _ hsource) (hU.regular _ hsink) (hU.distinct _ _ hsource hsink) rows))
  | formula c x y q lhs rhs ihl ihr =>
    have hl := ihl fun v hv => hzU v (mem_vars_of_lhs hv)
    have hr := ihr fun v hv => hzU v (mem_vars_of_rhs hv)
    -- Both realizations read the same ends in the same order.
    cases q with
    | none =>
      simp only [realize]
      refine .recall _ (agrees_operand hl _ fun l l' hleft => ?_)
      refine agrees_operand hr _ fun r r' hright => agrees_pure ?_
      rw [Formula.combine_congr c hleft.index hright.index]
      exact .refl _
    | some q =>
      rw [realize_quantified_eq, realize_quantified_eq]
      have hoperand : ∀ {o : BoundExpr}, o = lhs ∨ o = rhs → ∀ rows,
          Agrees Built.SameRows (o.realize options rows) (o.realize options' rows) := by
        rintro o (rfl | rfl)
        · exact hl
        · exact hr
      have hhops := near_far_eq lhs rhs (rows.pick x y).name
      refine .recall _ (agrees_operand (hoperand (hhops.imp And.left And.left)) _
        fun n n' hnear => ?_)
      refine agrees_operand (hoperand (hhops.imp And.right And.right).symm) _
        fun f f' hfar => agrees_pure ?_
      rw [Formula.eliminate_congr c _ hnear.index hfar.index]
      exact .refl _

end PathTree

/-! ## Calls -/

/-- The answers are equal, up to the layout of an index. -/
inductive Answer.Same : Answer → Answer → Prop
  | bound (result : Except PathError Unit) : Same (bound result) (bound result)
  | built {result result' : Except Failure Built} :
      SameOutcome Built.SameRows result result' → Same (built result) (built result')

namespace Builder

/-- The builders have the same bindings, and their memos agree. -/
structure Agrees (b b' : Builder) : Prop where
  bindings_eq : b.bindings = b'.bindings
  memo : b.memo.Agrees b'.memo

variable {sizes : SetId → Nat} {U : SetView → Prop} {b b' : Builder}

/-- Builders that agree look for the same bound form. -/
theorem Agrees.resolve_eq (h : b.Agrees b') (x : OpenExpr) (ordinal : Nat) :
    b.resolve x ordinal = b'.resolve x ordinal := by
  rw [resolve, resolve, boundForm, boundForm, h.bindings_eq]

/-- Builders that agree answer a request alike, and agree afterwards. -/
theorem Agrees.build (hU : RegularSets sizes U) (h : b.Agrees b') (hb : b.BindsOver U)
    {x : OpenExpr} (hx : x.Over U) (ordinal : Nat) :
    SameOutcome Built.SameRows (b.build x ordinal).1 (b'.build x ordinal).1 ∧
      (b.build x ordinal).2.Agrees (b'.build x ordinal).2 := by
  have hresolve := h.resolve_eq x ordinal
  rcases build_eq_or b x ordinal with ⟨rows, z, hrows, hform⟩ | ⟨e, he, hbuild⟩
  · have hform' : b'.boundForm x = .ok z := by
      rw [← hform, boundForm, boundForm, h.bindings_eq]
    have hzU := over_toOpen.1 (over_of_boundForm hb hx hform)
    obtain ⟨hresult, hmemo⟩ := agrees_realize b.options b'.options hU hzU rows _ _ h.memo
    rw [build_of_boundForm hrows hform, build_of_boundForm hrows hform']
    exact ⟨hresult, h.bindings_eq, hmemo⟩
  -- Without a bound form both builders stay as they are.
  · have hbuild' : b'.build x ordinal = (.error (PathFailure.rejected e), b') := by
      rw [Builder.build, ← hresolve, he]
    rw [hbuild, hbuild']
    exact ⟨.error _, h⟩

theorem Agrees.bind (h : b.Agrees b') (name : String) (set : SetView) :
    SameOutcome Agrees (b.bind name set) (b'.bind name set) := by
  rw [Builder.bind, Builder.bind, ← h.bindings_eq]
  split
  · exact .ok ⟨rfl, h.memo⟩
  · split
    · exact .ok h
    · exact .error _

/-- Builders that agree answer a call alike, and they agree after it. -/
theorem Agrees.call (hU : RegularSets sizes U) (h : b.Agrees b') (hb : b.BindsOver U) {c : Call}
    (hc : c.Over U) : (b.call c).1.Same (b'.call c).1 ∧ (b.call c).2.Agrees (b'.call c).2 := by
  cases c with
  | build x ordinal =>
    obtain ⟨hresult, hagrees⟩ := h.build hU hb hc ordinal
    exact ⟨.built hresult, hagrees⟩
  | bind name set =>
    have hbind := h.bind name set
    simp only [Builder.call]
    generalize b.bind name set = result at hbind ⊢
    generalize b'.bind name set = result' at hbind ⊢
    cases hbind with
    | ok hagrees => exact ⟨.bound _, hagrees⟩
    | error e => exact ⟨.bound _, h⟩

/-- A call binds no other sets than its own. -/
theorem bindsOver_call (hb : b.BindsOver U) {c : Call} (hc : c.Over U) :
    (b.call c).2.BindsOver U := by
  cases c with
  | build x ordinal =>
    rcases build_eq_or b x ordinal with ⟨rows, z, hrows, hform⟩ | ⟨e, -, hbuild⟩
    · rw [Builder.call, build_of_boundForm hrows hform]
      exact hb
    · rw [Builder.call, hbuild]
      exact hb
  | bind name set =>
    rcases hbind : b.bind name set with e | c
    · rw [Builder.call, hbind]
      exact hb
    · rw [Builder.call, hbind]
      exact bindsOver_of_step hb (.bind hc hbind)

/-- Builders that agree answer any sequence of calls alike, and they agree after each of them. -/
theorem Agrees.calls (hU : RegularSets sizes U) (h : b.Agrees b') (hb : b.BindsOver U)
    {cs : List Call} (hcs : ∀ c ∈ cs, c.Over U) :
    List.Forall₂ (fun r r' => r.1.Same r'.1 ∧ r.2.Agrees r'.2) (b.calls cs) (b'.calls cs) := by
  induction cs generalizing b b' with
  | nil => exact .nil
  | cons c cs ih =>
    have hc := hcs c List.mem_cons_self
    have hcall := h.call hU hb hc
    exact .cons hcall
      (ih hcall.2 (bindsOver_call hb hc) fun c' hc' => hcs c' (List.mem_cons_of_mem c hc'))

/-- Over the sets of a mesh, two new builders with any two options give the same answers to any
sequence of calls, up to the layout of the indices, and after each call they have remembered and
counted the same. -/
theorem calls_agree {m : Mesh} (hm : m.Reached) {cs : List Call}
    (hcs : ∀ c ∈ cs, c.Over fun set => m.Holds set ∧ set.size < Word.span32)
    (options options' : BuildOptions) :
    List.Forall₂
      (fun r r' => r.1.Same r'.1 ∧ r.2.memo.size = r'.2.memo.size ∧
        r.2.memo.hits = r'.2.memo.hits ∧ r.2.memo.misses = r'.2.memo.misses)
      ((new options).calls cs) ((new options').calls cs) := by
  have hagrees : (new options).Agrees (new options') := ⟨rfl, Memo.agrees_empty⟩
  refine (hagrees.calls (Mesh.regularSets_of_reached hm) bindsOver_new hcs).imp ?_
  intro r r' ⟨hsame, h⟩
  exact ⟨hsame, h.memo.size_eq, h.memo.hits_eq, h.memo.misses_eq⟩

/-- The ends of the edge are read from the endpoint array or copied, first for a formula and then by
themselves. The second set for a name is refused, and so is a link between two vertex sets. -/
theorem calls_agree_sharedEdge :
    let vertices := Mesh.twoVertices.toSetView
    let misfit : BoundExpr := .link .vertexToEdge ⟨"u", vertices⟩ ⟨"w", vertices⟩
    let cs : List Call :=
      [.build sharedEdge.toOpen 0, .bind "e" Mesh.singleEdge.toSetView, .bind "e" vertices,
        .bind "w" vertices, .build (.link .edgeToVertex (.unbound "e") (.unbound "w")) 0,
        .build misfit.toOpen 1]
    List.Forall₂
      (fun r r' => r.1.Same r'.1 ∧ r.2.memo.size = r'.2.memo.size ∧
        r.2.memo.hits = r'.2.memo.hits ∧ r.2.memo.misses = r'.2.memo.misses)
      ((new ⟨true, true⟩ : Builder).calls cs) ((new ⟨false, false⟩ : Builder).calls cs) := by
  intro vertices misfit cs
  have hexpr : ∀ z ∈ [sharedEdge, misfit], ∀ v ∈ z.vars,
      Mesh.edgeMesh.Holds v.set ∧ v.set.size < Word.span32 := by
    unfold Mesh.Holds
    decide
  have hset : ∀ s ∈ Mesh.edgeMesh.sets,
      Mesh.edgeMesh.Holds s.toSetView ∧ s.size < Word.span32 := by
    unfold Mesh.Holds
    decide
  have hcs : ∀ c ∈ cs,
      c.Over fun set => Mesh.edgeMesh.Holds set ∧ set.size < Word.span32 := by
    simp only [cs, List.forall_mem_cons]
    exact ⟨over_toOpen.2 (hexpr sharedEdge (by simp)), hset Mesh.singleEdge (by decide),
      hset Mesh.twoVertices (by decide), hset Mesh.twoVertices (by decide),
      by simp [Call.Over, Over, vars, Var.unbound], over_toOpen.2 (hexpr misfit (by simp)),
      fun _ h => absurd h List.not_mem_nil⟩
  exact calls_agree Mesh.reached_edgeMesh hcs _ _

end Builder

end MeshPath
