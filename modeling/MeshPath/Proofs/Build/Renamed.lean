import Mathlib
import MeshPath.Proofs.Build.Run
import MeshPath.Proofs.Expr.Renaming

/-!
# Renamed expressions share their index

An expression whose ends have been renamed has the key of the expression that it came from, so that
a builder answers it with the index that it has for that one.
-/

namespace MeshPath.Builder

open PathTree

variable {O S I ε : Type} [Identified S] [PathFailure ε] [Realizer O S I ε]

/-- After a success on `z`, a builder answers every expression of the same key with the same index,
whatever it is asked in between. -/
theorem build_eq_of_boundKey {U : S → Prop} {b b₁ b₂ : Builder O S I} {z z' : BoundExpr S}
    {ordinal : Nat} {built : Built I} (hz : z.WellFormed) (hz' : z'.WellFormed)
    (hkey : z'.boundKey = z.boundKey) (hbuild : b.build z.toOpen ordinal = (.ok built, b₁))
    (hruns : Runs U b₁ b₂) : (b₂.build z'.toOpen ordinal).1 = .ok built := by
  -- The index is found under the key after the first build, and from then on at its place.
  obtain ⟨rows, _, hrows, hform, -, -, hfound⟩ :=
    exists_found_of_build (wellFormed_toOpen.2 hz) hbuild
  cases (boundForm_toOpen b z).symm.trans hform
  have hlater := Memo.find?_of_prefix hfound (prefix_of_runs hruns)
  rw [← hkey] at hlater
  exact build_of_found (wellFormed_toOpen.2 hz') hrows (boundForm_toOpen b₂ z') hlater

/-- The ends of a well-formed expression can be renamed to any two different names, and the result
has the same shape. If the expression is bound and coherent and the new variables bring no sets,
the result is bound to the same sets, and a builder that has realized the expression answers the
result with the same index. The ends of a formula cannot be renamed to one name. -/
theorem exists_rename_build_eq {x : OpenExpr S} (hx : x.Constructible) :
    (x.endName .first ≠ x.endName .second → ∀ p q : OpenVar S, p.name ≠ q.name →
      ∃ y, x.rename [p, q] = .ok y ∧ y.endName .first = p.name ∧ y.endName .second = q.name ∧
        y.structuralEq x = true ∧
        (x.isBound = true → x.Coherent → p.isBound = false → q.isBound = false →
          y.isBound = true ∧ y.boundEq x = true ∧
            ∀ (U : S → Prop) (b b₁ b₂ : Builder O S I) (ordinal : Nat) (built : Built I),
              b.build x ordinal = (.ok built, b₁) → Runs U b₁ b₂ →
                (b₂.build y ordinal).1 = .ok built)) ∧
    (x.connective?.isSome = true → ∀ p q : OpenVar S, p.name = q.name →
      ∃ text, x.rename [p, q] = .error (.malformedFormula text .equalFreeVars)) := by
  have hwf : x.WellFormed := constructible_iff_wellFormed.1 hx
  refine ⟨fun hne p q hpq => ?_, fun hformula p q hpq => exists_rename_error hwf hformula hpq⟩
  obtain ⟨y, hy, hfirst, hsecond, hkey⟩ := exists_rename hwf hne hpq
  refine ⟨y, hy, hfirst, hsecond, decide_eq_true hkey, fun hbound hcoherent hp hq => ?_⟩
  obtain ⟨z, rfl⟩ := isBound_iff.1 hbound
  -- The sets stay where they are, so the result is the open form of an expression of the same key.
  have hsame := keyWith_of_rename hwf hcoherent hne hpq hp hq hy
  rw [keyWith_toOpen] at hsame
  obtain ⟨z', rfl, hkey'⟩ := exists_of_keyWith_eq hsame
  refine ⟨isBound_iff.2 ⟨z', rfl⟩, boundEq_iff.2 ⟨z', z, rfl, rfl, hkey'⟩, ?_⟩
  intro U b b₁ b₂ ordinal built hbuild hruns
  have hwf' := wellFormed_toOpen.1 (wellFormed_of_rename hy)
  exact build_eq_of_boundKey (wellFormed_toOpen.1 hwf) hwf' hkey' hbuild hruns

/-- The first new name is that of the quantified variable, the second one that of the first end. -/
theorem exists_rename_build_eq_sharedEdge :
    (∃ y, sharedEdge.toOpen.rename [.unbound "e", .unbound "u"] = .ok y ∧
      y.endName .first = "e" ∧ y.endName .second = "u" ∧ y.structuralEq sharedEdge.toOpen = true ∧
      y.boundEq sharedEdge.toOpen = true ∧
      (((new .standard : Builder).build sharedEdge.toOpen 0).2.build y 0).1 =
        .ok ⟨2, .segmented (.ofRows [[0, 1], [0, 1]])⟩) ∧
    ∃ text, sharedEdge.toOpen.rename [.unbound "e", .unbound "e"] =
      .error (.malformedFormula text .equalFreeVars) := by
  have hx : sharedEdge.toOpen.Constructible := constructible_iff_wellFormed.2 (by decide)
  obtain ⟨hdistinct, hsame⟩ := exists_rename_build_eq (O := BuildOptions) hx
  obtain ⟨y, hy, hfirst, hsecond, hshape, hbound⟩ :=
    hdistinct (by decide) (.unbound "e") (.unbound "u") (by decide)
  obtain ⟨-, heq, hbuild⟩ := hbound (by decide) (by decide) rfl rfl
  have hok : ((new .standard : Builder).build sharedEdge.toOpen 0).1 =
      .ok ⟨2, .segmented (.ofRows [[0, 1], [0, 1]])⟩ := by decide_cbv
  refine ⟨⟨y, hy, hfirst, hsecond, hshape, heq, ?_⟩, hsame rfl _ _ rfl⟩
  exact hbuild (fun _ => True) (new .standard : Builder) _ _ 0 _ (Prod.ext hok rfl) .refl

end MeshPath.Builder
