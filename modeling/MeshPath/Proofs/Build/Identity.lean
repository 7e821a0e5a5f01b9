import MeshPath.Proofs.Build.Run

/-!
# The identity of an index

The place of an index in the memo identifies it. Over a whole run of a builder, two builds return
one index exactly if they were asked for the same end of the same bound form.

* `within_of_runs`: no name is bound to another set. `boundForm_of_within`: so that an expression
  keeps its bound form.
* `place_eq_iff_of_builds`: when two builds of a run return the same index.
-/

namespace MeshPath.Builder

open PathTree

variable {O S I ε : Type} [Identified S] [PathFailure ε] [Realizer O S I ε]
variable {U : S → Prop} {b b₁ c c₁ : Builder O S I} {x y : OpenExpr S} {z : BoundExpr S}
  {built built' : Built I} {s t : Nat}

/-! ## Bound forms in a run -/

/-- A call binds no name to another set. -/
theorem within_of_step (h : Step U b c) : b.bindings.Within c.bindings := by
  rcases step_cases h with rfl | ⟨name, set, -, hnew, rfl⟩ | ⟨_, _, _, _, _, _, rfl⟩
  · exact fun _ _ hget => hget
  · intro other set' hget
    have hne : other ≠ name := by
      rintro rfl
      rw [hnew] at hget
      cases hget
    show (b.bindings.insert name set).get? other = some set'
    rw [Bindings.get?_insert_of_ne _ _ hne, hget]
  · exact fun _ _ hget => hget

/-- A run keeps every binding, since a name is never bound to another set. -/
theorem within_of_runs (h : Runs U b c) : b.bindings.Within c.bindings := by
  induction h with
  | refl => exact fun _ _ hget => hget
  | step _ hstep ih => exact fun name set hget => within_of_step hstep name set (ih name set hget)

/-- An expression keeps its bound form, whatever is bound later. -/
theorem boundForm_of_within (h : b.bindings.Within c.bindings) (hform : b.boundForm x = .ok z) :
    c.boundForm x = .ok z := by
  rw [boundForm_eq_ok_iff] at hform ⊢
  exact hform.imp_right fun ⟨hcheck, hbind⟩ => ⟨hcheck, bind_of_within h hbind⟩

/-! ## Identities -/

/-- In a run of a builder, two builds return the same index exactly if they were asked for the same
end of expressions with equal bound forms. A later build of an expression returns the same index
again, since no name is ever bound to another set. -/
theorem place_eq_iff_of_builds (hx : x.Constructible) (hy : y.Constructible)
    (hbuild : b.build x s = (.ok built, b₁)) (hruns : Runs U b₁ c)
    (hbuild' : c.build y t = (.ok built', c₁)) :
    (built.place = built'.place ↔
        s = t ∧ ∃ zx zy, b.boundForm x = .ok zx ∧ c.boundForm y = .ok zy ∧
          zx.toOpen.boundEq zy.toOpen = true) ∧
      (built.place = built'.place → built = built') ∧
      ∀ d, Runs U b₁ d → b₁.bindings.Within d.bindings ∧ (d.build x s).1 = .ok built := by
  have hwf := constructible_iff_wellFormed.1 hx
  have hwf' := constructible_iff_wellFormed.1 hy
  obtain ⟨rows, zx, hrows, hform, hbindings, -, hfound⟩ := exists_found_of_build hwf hbuild
  obtain ⟨rows', zy, hrows', hform', -, hgrow, hfound'⟩ := exists_found_of_build hwf' hbuild'
  -- After the second build, both indices stand in one memo.
  have hkept : c₁.memo.find? ⟨zx.boundKey, rows⟩ = some built :=
    Memo.find?_of_prefix hfound ((prefix_of_runs hruns).trans hgrow)
  refine ⟨⟨fun hplace => ?_, ?_⟩, fun hplace => (Memo.eq_of_place_eq hkept hfound' hplace).2,
    fun d hd => ⟨within_of_runs hd, ?_⟩⟩
  · obtain ⟨hkey, hends⟩ := Request.mk.inj (Memo.eq_of_place_eq hkept hfound' hplace).1
    refine ⟨?_, zx, zy, hform, hform', boundEq_toOpen_iff.2 hkey⟩
    rw [End.eq_toNat_of_ofNat? hrows, End.eq_toNat_of_ofNat? hrows', hends]
  · rintro ⟨rfl, _, _, hzx, hzy, hequal⟩
    cases hform.symm.trans hzx
    cases hform'.symm.trans hzy
    cases hrows.symm.trans hrows'
    rw [boundEq_toOpen_iff.1 hequal, hfound'] at hkept
    cases hkept
    rfl
  · have hwithin : b.bindings.Within d.bindings := by
      rw [← hbindings]
      exact within_of_runs hd
    exact build_of_found hwf hrows (boundForm_of_within hwithin hform)
      (Memo.find?_of_prefix hfound (prefix_of_runs hd))

/-- The expression without sets is built from one end and then from the other, and after that the
bound expression from the first end. -/
theorem place_eq_iff_of_builds_sharedEdge :
    let b : Builder := ⟨.standard, .ofList (sharedEdge.vars.map fun v => (v.name, v.set)), .empty⟩
    let x : OpenExpr := sharedEdge.map fun v => .unbound v.name
    let c := ((b.build x 0).2.build x 1).2
    ∃ built built', (b.build x 0).1 = .ok built ∧ (c.build sharedEdge.toOpen 0).1 = .ok built' ∧
      built.place = built'.place := by
  intro b x c
  have hx : x.Constructible := constructible_iff_wellFormed.2 (by decide)
  have hy : sharedEdge.toOpen.Constructible := constructible_iff_wellFormed.2 (by decide)
  have hform : b.boundForm x = .ok sharedEdge := rfl
  have hequal : sharedEdge.toOpen.boundEq sharedEdge.toOpen = true := by decide
  have hruns : Runs (fun _ => True) (b.build x 0).2 c :=
    Runs.refl.step (.build _ 1 hx fun _ _ _ _ => trivial)
  have hok : (b.build x 0).1.isOk = true := by decide +kernel
  have hok' : (c.build sharedEdge.toOpen 0).1.isOk = true := by decide +kernel
  rcases hbuild : b.build x 0 with ⟨_ | built, b₁⟩
  · rw [hbuild] at hok
    cases hok
  rcases hbuild' : c.build sharedEdge.toOpen 0 with ⟨_ | built', c₁⟩
  · rw [hbuild'] at hok'
    cases hok'
  rw [hbuild] at hruns
  have hiff := (place_eq_iff_of_builds hx hy hbuild hruns hbuild').1
  exact ⟨built, built', rfl, rfl,
    hiff.2 ⟨rfl, sharedEdge, sharedEdge, hform, boundForm_toOpen c sharedEdge, hequal⟩⟩

end MeshPath.Builder
