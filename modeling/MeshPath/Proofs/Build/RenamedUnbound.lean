import MeshPath.Proofs.Build.Identity
import MeshPath.Proofs.Build.Outcome
import MeshPath.Proofs.Expr.Quantified

/-!
# Renamed expressions without sets

A builder looks up all names of an expression without sets in its table, those of quantified
variables as well. Renaming the ends of such an expression moves a quantified variable that has one
of the new names, and the table need not know where it moved.

* `build_eq_iff_ids_eq`: two expressions of one shape get one index exactly if the table has the
  same sets for their names.
* `exists_rename_build_iff`: for a renamed expression, the quantified names decide that.
* `build_rename_shadowedPath`: a renaming to the names that the ends have can move a quantified
  variable as well.
-/

namespace MeshPath

namespace PathTree

variable {S : Type} [Identified S] {x y : OpenExpr S} {p q : OpenVar S}

/-- A renaming to variables without sets does not bring any set in. -/
theorem checkBound_of_rename (hx : x.WellFormed) (hunbound : x.checkBound = .ok false)
    (hne : x.endName .first ≠ x.endName .second) (hpq : p.name ≠ q.name)
    (hp : p.isBound = false) (hq : q.isBound = false) (hy : x.rename [p, q] = .ok y) :
    y.checkBound = .ok false := by
  have hnone := checkBound_eq_ok_false_iff.1 hunbound
  have hc : x.Coherent :=
    coherentBy_of_set_eq _ fun v hv w hw _ => by rw [hnone v hv, hnone w hw]
  have hsets : y.vars.map Var.setId? = x.vars.map Var.setId? :=
    (keyWith_eq_iff.1 (keyWith_of_rename hx hc hne hpq hp hq hy)).2.2
  refine checkBound_eq_ok_false_iff.2 fun v hv => ?_
  have hmem : v.setId? ∈ x.vars.map Var.setId? := by
    rw [← hsets]
    exact List.mem_map_of_mem hv
  obtain ⟨w, hw, hid⟩ := List.mem_map.1 hmem
  rw [Var.setId?, hnone w hw, Option.map_none] at hid
  exact Option.map_eq_none_iff.1 hid.symm

end PathTree

namespace Builder

open PathTree

variable {O S I ε : Type} [Identified S] [PathFailure ε] [Realizer O S I ε]
variable {U : S → Prop} {b b₁ c : Builder O S I} {x y : OpenExpr S} {z : BoundExpr S}
  {built : Built I} {ordinal : Nat} {p q : OpenVar S}

/-- After a success on an expression without sets, another one of the same shape gets the same
index exactly if the table has the same sets for the names of both, occurrence by occurrence. -/
theorem build_eq_iff_ids_eq (hx : x.WellFormed) (hy : y.WellFormed)
    (hkey : y.structuralKey = x.structuralKey) (hxu : x.checkBound = .ok false)
    (hyu : y.checkBound = .ok false) (hbuild : b.build x ordinal = (.ok built, b₁))
    (hruns : Runs U b₁ c) :
    (c.build y ordinal).1 = .ok built ↔
      (y.vars.map fun v => c.bindings.id? v.name) = x.vars.map fun v => c.bindings.id? v.name := by
  obtain ⟨rows, z, hrows, hform, hbindings, -, hfound⟩ := exists_found_of_build hx hbuild
  have hwithin : b.bindings.Within c.bindings := by
    rw [← hbindings]
    exact within_of_runs hruns
  have hbind := bind_of_within hwithin (bind_of_boundForm hxu hform)
  have hkept := Memo.find?_of_prefix hfound (prefix_of_runs hruns)
  constructor
  · intro hsame
    obtain ⟨rows', z', -, hform', -, hgrow, hfound'⟩ :=
      exists_found_of_build hy (Prod.ext hsame rfl : c.build y ordinal = (.ok built, _))
    -- One index answers both requests, so these are the same.
    obtain ⟨hrequest, -⟩ := Memo.eq_of_place_eq hfound' (Memo.find?_of_prefix hkept hgrow) rfl
    exact (boundKey_eq_iff_of_bind hkey hbind (bind_of_boundForm hyu hform')).1
      (Request.mk.inj hrequest).1
  · intro hids
    obtain ⟨z', hbind'⟩ := exists_bind_of_ids_eq hy hids ⟨z, hbind⟩
    have hsame := (boundKey_eq_iff_of_bind hkey hbind hbind').2 hids
    refine build_of_found hy hrows (boundForm_eq_ok_iff.2 (.inr ⟨hyu, hbind'⟩)) ?_
    rw [hsame]
    exact hkept

/-- The ends of an expression without sets can be renamed to other names of their sets. A builder
that has realized the expression answers the result with the same index exactly if its table has the
same sets for the quantified names of both. It does so if no quantified variable has one of the new
names. -/
theorem exists_rename_build_iff (hx : x.Constructible) (hunbound : x.checkBound = .ok false)
    (hne : x.endName .first ≠ x.endName .second) (hbuild : b.build x ordinal = (.ok built, b₁))
    (hruns : Runs U b₁ c) (hpq : p.name ≠ q.name) (hp : p.isBound = false)
    (hq : q.isBound = false)
    (hends : ∀ e, c.bindings.id? (e.pick p q).name = c.bindings.id? (x.endName e)) :
    ∃ y, x.rename [p, q] = .ok y ∧
      ((c.build y ordinal).1 = .ok built ↔
        (y.quantified.map fun v => c.bindings.id? v.name) =
          x.quantified.map fun v => c.bindings.id? v.name) ∧
      ((∀ v ∈ x.quantified, v.name ≠ p.name ∧ v.name ≠ q.name) →
        (c.build y ordinal).1 = .ok built) := by
  have hwf : x.WellFormed := constructible_iff_wellFormed.1 hx
  obtain ⟨y, hy, -, -, hkey⟩ := exists_rename hwf hne hpq
  have hsubst : x.substitute (x.newEnds p q) = .ok y := hy
  have hiff : (c.build y ordinal).1 = .ok built ↔
      (y.quantified.map fun v => c.bindings.id? v.name) =
        x.quantified.map fun v => c.bindings.id? v.name := by
    rw [build_eq_iff_ids_eq hwf (wellFormed_of_rename hy) hkey hunbound
      (checkBound_of_rename hwf hunbound hne hpq hp hq hy) hbuild hruns]
    refine map_vars_eq_iff_of_substitute hwf hsubst fun e => ?_
    rw [newName_newEnds hne, hends]
  refine ⟨y, hy, hiff, fun hfree => hiff.2 ?_⟩
  rw [quantified_of_substitute hsubst fun v hv => ?_]
  obtain ⟨hvp, hvq⟩ := hfree v hv
  simp [Substitution.introduces, newEnds, hvp.symm, hvq.symm]

/-- Three steps around the ring. The quantified variable of the last two has the name of the first
end. -/
def shadowedPath : OpenExpr :=
  .formula .and (.unbound "u") (.unbound "w") (some (.unbound "v"))
    (.link (.stencil Mesh.forth) (.unbound "u") (.unbound "v"))
    (.formula .and (.unbound "v") (.unbound "w") (some (.unbound "u"))
      (.link (.stencil Mesh.forth) (.unbound "v") (.unbound "u"))
      (.link (.stencil Mesh.forth) (.unbound "u") (.unbound "w")))

/-- A builder that knows four names for the elements of the ring. -/
def ringBuilder : Builder :=
  ⟨.standard, .ofList (["a", "u", "v", "w"].map fun name => (name, Mesh.ring.toSetView)), .empty⟩

/-- The names `a` and `w` are those of no quantified variable. -/
theorem exists_rename_build_iff_shadowedPath :
    ∃ built y, (ringBuilder.build shadowedPath 0).1 = .ok built ∧
      shadowedPath.rename [.unbound "a", .unbound "w"] = .ok y ∧
        ((ringBuilder.build shadowedPath 0).2.build y 0).1 = .ok built := by
  have hx : shadowedPath.Constructible := constructible_iff_wellFormed.2 (by decide)
  have hok : (ringBuilder.build shadowedPath 0).1 =
      .ok ⟨2, .segmented (.ofRows [[0], [1], [2]])⟩ := by decide +kernel
  have hends : ∀ e, (ringBuilder.build shadowedPath 0).2.bindings.id?
        (e.pick (Var.unbound "a") (Var.unbound "w" : OpenVar)).name =
      (ringBuilder.build shadowedPath 0).2.bindings.id? (shadowedPath.endName e) := by
    decide +kernel
  obtain ⟨y, hy, -, hfree⟩ :=
    exists_rename_build_iff hx (by decide) (by decide) (Prod.ext hok rfl)
      (.refl : Runs (fun _ => True) _ _) (by decide) rfl rfl hends
  exact ⟨_, y, hok, hy, hfree (by decide)⟩

/-- A renaming to the names that the ends have moves the quantified variable of the name `u`, and
the builder does not know where to. -/
theorem build_rename_shadowedPath :
    ∃ built y, shadowedPath.checkBound = .ok false ∧
      (ringBuilder.build shadowedPath 0).1 = .ok built ∧
        shadowedPath.rename [.unbound "u", .unbound "w"] = .ok y ∧
          ((ringBuilder.build shadowedPath 0).2.build y 0).1 =
            .error (.rejected (.unboundVar "u1")) := by
  refine ⟨⟨2, .segmented (.ofRows [[0], [1], [2]])⟩, _, by decide, by decide +kernel, rfl, ?_⟩
  decide +kernel

end Builder

end MeshPath
