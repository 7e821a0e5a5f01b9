import MeshPath.Proofs.Build.Correct

/-!
# The first fault

An evaluation fails exactly if some link does not fit its sets. It then reports the first such
link in the order in which links are evaluated.

* `PathTree.hops`: the links of an expression in evaluation order.
* `FirstMisfit`: the first link that does not fit its sets.
* `Reports`, `reports_eval`: what an evaluation gives, in terms of the links that it meets.
-/

namespace MeshPath

open PathTree

/-- Among the links `hops`, `h` is the first one that does not fit its sets. -/
def FirstMisfit (hops : List Hop) (h : Hop) : Prop :=
  ∃ before after, hops = before ++ h :: after ∧ (∀ g ∈ before, g.WellTyped) ∧ ¬ h.WellTyped

/-- Later links do not matter for the first one that does not fit. -/
theorem FirstMisfit.append_right {hops : List Hop} {h : Hop} (hfirst : FirstMisfit hops h)
    (later : List Hop) : FirstMisfit (hops ++ later) h := by
  obtain ⟨before, after, rfl, hbefore, hill⟩ := hfirst
  exact ⟨before, after ++ later, by simp, hbefore, hill⟩

theorem FirstMisfit.append_left {hops : List Hop} {h : Hop} (hfirst : FirstMisfit hops h)
    {earlier : List Hop} (hearlier : ∀ g ∈ earlier, g.WellTyped) :
    FirstMisfit (earlier ++ hops) h := by
  obtain ⟨before, after, rfl, hbefore, hill⟩ := hfirst
  refine ⟨earlier ++ before, after, by simp, fun g hg => ?_, hill⟩
  rcases List.mem_append.1 hg with hg | hg
  · exact hearlier g hg
  · exact hbefore g hg

/-- What an evaluation that meets the links `hops` gives: a result if all of them fit their sets,
and otherwise the error of the first one that does not. -/
inductive Reports {α : Type} (hops : List Hop) : Except Failure α → Prop
  | ok {a : α} : (∀ h ∈ hops, h.WellTyped) → Reports hops (.ok a)
  | error {h : Hop} {e : PathError} :
      FirstMisfit hops h → h.Fault e → Reports hops (.error (.rejected e))

namespace Reports

variable {α β : Type} {hops : List Hop} {result : Except Failure α}

theorem of_map {f : α → β} (h : Reports hops (result.map f)) : Reports hops result := by
  cases result with
  | error e =>
    cases h with
    | error hfirst hfault => exact .error hfirst hfault
  | ok a =>
    cases h with
    | ok hfit => exact .ok hfit

/-- A realization succeeds exactly if all of its links fit. -/
theorem exists_ok_iff (h : Reports hops result) :
    (∃ a, result = .ok a) ↔ ∀ g ∈ hops, g.WellTyped := by
  cases h with
  | ok hfit => exact ⟨fun _ => hfit, fun _ => ⟨_, rfl⟩⟩
  | @error g e hfirst hfault =>
    obtain ⟨before, after, rfl, -, hill⟩ := hfirst
    constructor
    · rintro ⟨a, ha⟩
      cases ha
    · intro hfit
      exact absurd (hfit g (List.mem_append_right before List.mem_cons_self)) hill

/-- Otherwise it reports the fault of the first one that does not. -/
theorem exists_fault (h : Reports hops result) (hill : ¬ ∀ g ∈ hops, g.WellTyped) :
    ∃ g e, FirstMisfit hops g ∧ g.Fault e ∧ result = .error (.rejected e) := by
  cases h with
  | ok hfit => exact absurd hfit hill
  | @error g e hfirst hfault => exact ⟨g, e, hfirst, hfault, rfl⟩

/-- Two evaluations one after the other meet the links of both. -/
theorem both {ls rs : List Hop} {l r : Except Failure PathIndex} (hl : Reports ls l)
    (hr : Reports rs r) (f : PathIndex → PathIndex → PathIndex) :
    Reports (ls ++ rs) (do
      let i ← l
      let j ← r
      return f i j) := by
  cases hl with
  | error hfirst hfault => exact .error (hfirst.append_right rs) hfault
  | ok hfit =>
    cases hr with
    | error hfirst hfault => exact .error (hfirst.append_left hfit) hfault
    | ok hfit' =>
      refine .ok fun h hh => ?_
      rcases List.mem_append.1 hh with hh | hh
      · exact hfit h hh
      · exact hfit' h hh

end Reports

namespace PathTree

variable {options : BuildOptions} {c : Connective} {x y q : BoundVar} {lhs rhs : BoundExpr}
  {rows : End}

/-- The links `hops` of an operand, read from its end of the given name. -/
def hopsFrom (z : BoundExpr) (hops : End → List Hop) (name : String) : List Hop :=
  (z.endNamed? name).toList.flatMap hops

/-- The links of an expression in evaluation order, read from the end `rows`. Without a quantified
variable the left operand comes first, and both are read from the source. Otherwise the operand
that has the source at an end comes first, and the other one is read from the quantified
variable. -/
def hops : BoundExpr → End → List Hop
  | link kind source sink, rows => [⟨kind, source.set, sink.set, rows⟩]
  | formula _ x y none lhs rhs, rows =>
    let source := (rows.pick x y).name
    hopsFrom lhs lhs.hops source ++ hopsFrom rhs rhs.hops source
  | formula _ x y (some q) lhs rhs, rows =>
    let source := (rows.pick x y).name
    if (lhs.endNamed? source).isSome then
      hopsFrom lhs lhs.hops source ++ hopsFrom rhs rhs.hops q.name
    else hopsFrom rhs rhs.hops source ++ hopsFrom lhs lhs.hops q.name

/-- The links of an operand, from the end at which it is read. -/
theorem hopsFrom_eq {z : BoundExpr} {e : End} {name : String} (h : z.endNamed? name = some e) :
    hopsFrom z z.hops name = z.hops e := by
  rw [hopsFrom, h]
  simp

/-- Without a quantified variable, the links of the left operand come first. -/
theorem hops_plain {le re : End} (hl : lhs.endNamed? (rows.pick x y).name = some le)
    (hr : rhs.endNamed? (rows.pick x y).name = some re) :
    (formula c x y none lhs rhs).hops rows = lhs.hops le ++ rhs.hops re := by
  rw [hops, hopsFrom_eq hl, hopsFrom_eq hr]

/-- Under a quantified variable, the links of the hop at the source come first. -/
theorem hops_quantified {ne fe : End}
    (hn : (near lhs rhs (rows.pick x y).name).endNamed? (rows.pick x y).name = some ne)
    (hf : (far lhs rhs (rows.pick x y).name).endNamed? q.name = some fe) :
    (formula c x y (some q) lhs rhs).hops rows =
      (near lhs rhs (rows.pick x y).name).hops ne ++
        (far lhs rhs (rows.pick x y).name).hops fe := by
  rw [← hopsFrom_eq hn, ← hopsFrom_eq hf, hops, near, far]
  split <;> rfl

/-- Every link of an expression is met, from whichever end it is read. -/
theorem wellTyped_iff_forall_hops {z : BoundExpr} (hz : z.WellFormed) (rows : End) :
    z.WellTyped ↔ ∀ h ∈ z.hops rows, h.WellTyped := by
  induction z generalizing rows with
  | link kind source sink =>
    rw [hops, List.forall_mem_singleton]
    exact Iff.rfl
  | formula c x y q lhs rhs ihl ihr =>
    rw [WellTyped]
    cases q with
    | none =>
      obtain ⟨le, re, -, -, hle, hre⟩ := operandEnds_plain hz rows
      rw [hops_plain hle hre, List.forall_mem_append, ← ihl hz.2.1, ← ihr hz.2.2]
    | some q =>
      obtain ⟨ne, fe, -, -, hne, hfe⟩ := operandEnds_quantified hz rows
      rw [hops_quantified hne hfe, List.forall_mem_append]
      rcases near_far_eq lhs rhs (rows.pick x y).name with ⟨hn, hf⟩ | ⟨hn, hf⟩
      · rw [hn, hf, ← ihl hz.2.1, ← ihr hz.2.2]
      · rw [hn, hf, ← ihl hz.2.1, ← ihr hz.2.2, and_comm]

variable {sizes : SetId → Nat} {U : SetView → Prop}

/-- An evaluation over regular sets succeeds if all links fit their sets, and otherwise fails with
the error of the first one that does not. -/
theorem reports_eval (options : BuildOptions) (hU : RegularSets sizes U) {z : BoundExpr}
    (hz : z.WellFormed) (hzU : ∀ v ∈ z.vars, U v.set) (rows : End) :
    Reports (z.hops rows) (z.eval options rows) := by
  induction z generalizing rows with
  | link kind source sink =>
    have hsource := hzU source (by simp [vars])
    have hsink := hzU sink (by simp [vars])
    have hsame := hU.distinct _ _ hsource hsink
    by_cases htyped : kind.WellTyped source.set sink.set
    · obtain ⟨index, hindex, -⟩ := Link.exists_realize options (hU.regular _ hsource)
        (hU.regular _ hsink) hsame htyped rows
      rw [eval_link, hindex]
      exact .ok (List.forall_mem_singleton.2 htyped)
    · let h : Hop := ⟨kind, source.set, sink.set, rows⟩
      obtain ⟨e, hfault⟩ := (Hop.exists_fault_iff (h := h) hsame).2 htyped
      have heval : (link kind source sink).eval options rows = .error (.rejected e) :=
        Hop.realize_of_fault hfault
      rw [heval]
      exact .error ⟨[], [], rfl, fun g hg => absurd hg List.not_mem_nil, htyped⟩ hfault
  | formula c x y q lhs rhs ihl ihr =>
    have hl := ihl hz.2.1 fun v hv => hzU v (mem_vars_of_lhs hv)
    have hr := ihr hz.2.2 fun v hv => hzU v (mem_vars_of_rhs hv)
    cases q with
    | none =>
      obtain ⟨le, re, -, -, hle, hre⟩ := operandEnds_plain hz rows
      rw [hops_plain hle hre, eval_combine hle hre]
      exact (hl le).both (hr re) _
    | some q =>
      obtain ⟨ne, fe, -, -, hne, hfe⟩ := operandEnds_quantified hz rows
      rw [hops_quantified hne hfe, eval_eliminate hne hfe]
      rcases near_far_eq lhs rhs (rows.pick x y).name with ⟨hn, hf⟩ | ⟨hn, hf⟩
      · rw [hn, hf]
        exact (hl ne).both (hr fe) _
      · rw [hn, hf]
        exact (hr ne).both (hl fe) _

end PathTree

end MeshPath
