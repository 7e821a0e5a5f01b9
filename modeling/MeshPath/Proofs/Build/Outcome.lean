import MeshPath.Proofs.Build.Faults

/-!
# Outcomes of builds

What a builder answers over the sets of a mesh does not depend on what it has been asked before.

* `Builder.Serves`, `Mesh.Carries`: the builders and the bound expressions over the sets of a mesh.
* `realizes_of_build`: the index of a coherent expression has the rows of its relation.
* `build_reports_firstMisfit`: a build succeeds if all links fit their sets, and otherwise reports
  the first one that does not.
* `Mesh.ringPath`: a path over the smallest mesh with stencils.
-/

namespace MeshPath

open PathTree Success

namespace Builder

/-- The builder was made and used over sets that are told apart by their identities. Those of the
mesh are among them. -/
def Serves (b : Builder) (m : Mesh) : Prop :=
  ∃ U options, Distinct U ∧ (∀ set, m.Holds set → U set) ∧ Runs U (new options) b

end Builder

namespace Mesh

/-- The expression can be made, and its sets are sets of the mesh whose elements fit stored
numbers. -/
structure Carries (m : Mesh) (z : BoundExpr) : Prop where
  constructible : z.toOpen.Constructible
  holds : ∀ v ∈ z.vars, m.Holds v.set
  small : ∀ v ∈ z.vars, v.set.size < Word.span32

variable {m : Mesh} {z : BoundExpr}

theorem Carries.wellFormed (hz : m.Carries z) : z.WellFormed :=
  wellFormed_toOpen.1 (constructible_iff_wellFormed.1 hz.constructible)

/-- The sets of the expression are those that `regularSets_of_reached` is about. -/
theorem Carries.regular (hz : m.Carries z) :
    ∀ v ∈ z.vars, m.Holds v.set ∧ v.set.size < Word.span32 :=
  fun v hv => ⟨hz.holds v hv, hz.small v hv⟩

/-- One step forth in one dimension. -/
def forth : Stencil where
  arity := 1
  offsets := [[1]]
  offsets_ne_nil := by decide
  length_of_mem := by decide

/-- Two steps around the ring, one under each stencil. -/
def ringPath (s t : Stencil) : BoundExpr :=
  .formula .and ⟨"u", ring.toSetView⟩ ⟨"w", ring.toSetView⟩ (some ⟨"v", ring.toSetView⟩)
    (.link (.stencil s) ⟨"u", ring.toSetView⟩ ⟨"v", ring.toSetView⟩)
    (.link (.stencil t) ⟨"v", ring.toSetView⟩ ⟨"w", ring.toSetView⟩)

theorem carries_ringPath (s t : Stencil) : ringMesh.Carries (ringPath s t) := by
  have hset : ∀ v ∈ (ringPath s t).vars, v.set = ring.toSetView := by
    simp [ringPath, vars]
  refine ⟨constructible_iff_wellFormed.2 ⟨rfl, trivial, trivial⟩, fun v hv => ?_, fun v hv => ?_⟩
  · exact ⟨ring, List.mem_singleton_self ring, (hset v hv).symm⟩
  · rw [hset v hv]
    decide

theorem wellTyped_ringPath {s t : Stencil} (hs : s.arity = 1) (ht : t.arity = 1) :
    (ringPath s t).WellTyped :=
  ⟨⟨rfl, [3], rfl, hs.symm⟩, rfl, [3], rfl, ht.symm⟩

end Mesh

namespace Builder

variable {m : Mesh} {b : Builder} {z : BoundExpr} {built : Built} {rows : End}

/-- A new builder serves every mesh. -/
theorem serves_new (options : BuildOptions) (hm : m.Reached) : (new options).Serves m :=
  ⟨m.Holds, options, Mesh.distinct_holds hm, fun _ h => h, .refl⟩

theorem serves_ringMesh : (new .standard : Builder).Serves Mesh.ringMesh :=
  serves_new .standard Mesh.reached_ringMesh

/-- A builder goes on serving a mesh when it is asked for an expression over it. -/
theorem Serves.build (hb : b.Serves m) (hz : m.Carries z) (ordinal : Nat) :
    (b.build z.toOpen ordinal).2.Serves m := by
  obtain ⟨U, options, hU, hmU, hruns⟩ := hb
  refine ⟨U, options, hU, hmU, hruns.step (.build b ordinal hz.constructible ?_)⟩
  exact over_toOpen.2 fun v hv => hmU _ (hz.holds v hv)

/-- A builder that serves a mesh gives what its expressions evaluate to, since its memo is sound. -/
theorem Serves.map_index_build (hb : b.Serves m) (hz : m.Carries z) (rows : End) :
    (b.build z.toOpen rows.toNat).1.map Built.index = z.eval b.options rows := by
  obtain ⟨U, options, hU, hmU, hruns⟩ := hb
  exact build_eq_eval hU (sound_of_runs hU hruns) hz.wellFormed
    (fun v hv => hmU _ (hz.holds v hv)) (End.ofNat?_toNat rows) (boundForm_toOpen b z)

/-- What such a builder returns is what the expression evaluates to. -/
theorem Serves.eval_eq_ok (hb : b.Serves m) (hz : m.Carries z)
    (hok : (b.build z.toOpen rows.toNat).1 = .ok built) :
    z.eval b.options rows = .ok built.index := by
  rw [← hb.map_index_build hz, hok]
  rfl

/-- A build of an expression over a mesh reports the first link that does not fit, and succeeds if
there is none. -/
theorem reports_build (hm : m.Reached) (hb : b.Serves m) (hz : m.Carries z) (rows : End) :
    Reports (z.hops rows) (b.build z.toOpen rows.toNat).1 := by
  have heval :=
    reports_eval b.options (Mesh.regularSets_of_reached hm) hz.wellFormed hz.regular rows
  rw [← hb.map_index_build hz] at heval
  exact heval.of_map

/-- An expression over a mesh is built from either end exactly if all of its links fit. -/
theorem exists_build_iff (hm : m.Reached) (hb : b.Serves m) (hz : m.Carries z) (rows : End) :
    (∃ built, (b.build z.toOpen rows.toNat).1 = .ok built) ↔ z.WellTyped := by
  rw [wellTyped_iff_forall_hops hz.wellFormed rows]
  exact (reports_build hm hb hz rows).exists_ok_iff

/-- The index of a coherent expression realizes its relation. -/
theorem realizes_of_build (hm : m.Reached) (hb : b.Serves m) (hz : m.Carries z)
    (hc : z.toOpen.Coherent) (hok : (b.build z.toOpen rows.toNat).1 = .ok built) :
    built.index.Realizes (z.endpoint rows).set.size (z.Rel rows) := by
  obtain ⟨index, hindex, hrealizes⟩ :=
    realized_of_wellTyped b.options (Mesh.regularSets_of_reached hm) hz.wellFormed hz.regular
      (coherentBy_toOpen.1 hc) ((exists_build_iff hm hb hz rows).1 ⟨built, hok⟩) rows
  cases (hb.eval_eq_ok hz hok).symm.trans hindex
  exact hrealizes

/-- A build of a bound expression succeeds exactly if all its links fit their sets. Otherwise it
reports the fault of the first link, in evaluation order, that does not. -/
theorem build_reports_firstMisfit (hm : m.Reached) (hb : b.Serves m) (hz : m.Carries z)
    (rows : End) :
    ((∃ built, (b.build z.toOpen rows.toNat).1 = .ok built) ↔ z.WellTyped) ∧
      (¬ z.WellTyped → ∃ h e, FirstMisfit (z.hops rows) h ∧ h.Fault e ∧
        (b.build z.toOpen rows.toNat).1 = .error (.rejected e)) := by
  refine ⟨exists_build_iff hm hb hz rows, fun hill => ?_⟩
  rw [wellTyped_iff_forall_hops hz.wellFormed rows] at hill
  exact (reports_build hm hb hz rows).exists_fault hill

/-- From its second end, the path meets the stencil of two dimensions first. The stencil before it
has been realized by an earlier build, and fits the ring. -/
theorem build_reports_firstMisfit_ringPath :
    let earlier := Mesh.ringPath (.star 1) (.star 1)
    let z := Mesh.ringPath (.star 1) (.star 2)
    ∃ h e, FirstMisfit (z.hops .second) h ∧ h.Fault e ∧
      (((new .standard : Builder).build earlier.toOpen 0).2.build z.toOpen 1).1 =
        .error (.rejected e) := by
  intro earlier z
  have hill : ¬ z.WellTyped := by
    rintro ⟨-, -, dims, hdims, harity⟩
    cases hdims
    cases harity
  exact (build_reports_firstMisfit Mesh.reached_ringMesh
    (serves_ringMesh.build (Mesh.carries_ringPath (.star 1) (.star 1)) 0)
    (Mesh.carries_ringPath (.star 1) (.star 2)) .second).2 hill

end Builder

end MeshPath
