import MeshPath.Build.Builder
import MeshPath.Proofs.Build.Growth
import MeshPath.Proofs.Expr.Binding

/-!
# Runs of a builder

A builder is used by any number of calls of `bind` and `build`, in any order, some of which may
fail.

* `Call`, `Builder.call`: one call, with its answer. `Builder.calls`: the answers to several calls.
* `Builder.Step`, `Builder.Runs`: one call, and a sequence of calls.
* `boundForm_eq_ok_iff`: an expression is realized over its own sets, or over those of the table if
  it has none.
* `build_of_boundForm`: a build of a bound form is its realization. `exists_boundForm_of_build`: a
  build that succeeds has one.
* `prefix_of_runs`: a run keeps every entry of the memo at its place.
* `exists_found_of_build`, `build_of_found`: after a success, the index is found under the key of
  the bound form, and what is found is returned.
-/

namespace MeshPath

namespace PathTree

variable {S : Type}

/-- All sets of the expression are among `U`. -/
def Over (U : S → Prop) (x : OpenExpr S) : Prop :=
  ∀ v ∈ x.vars, ∀ set, v.set = some set → U set

theorem over_toOpen {U : S → Prop} {z : BoundExpr S} :
    z.toOpen.Over U ↔ ∀ v ∈ z.vars, U v.set := by
  simp [Over, toOpen]

@[simp]
theorem wellFormed_toOpen {z : BoundExpr S} : z.toOpen.WellFormed ↔ z.WellFormed := by
  refine wellFormed_map fun v => ?_
  rfl

end PathTree

/-- A call on a builder. -/
inductive Call (S : Type := SetView) where
  /-- A binding of a name. -/
  | bind (name : String) (set : S)
  /-- A request for the index of an expression. -/
  | build (x : OpenExpr S) (ordinal : Nat)

/-- What a builder answers to a call. -/
inductive Answer (ε : Type := Failure) (I : Type := PathIndex) where
  /-- The outcome of a binding. -/
  | bound (result : Except PathError Unit)
  /-- The outcome of a request. -/
  | built (result : Except ε (Built I))

/-- The sets of a call are among `U`. -/
def Call.Over {S : Type} (U : S → Prop) : Call S → Prop
  | bind _ set => U set
  | build x _ => x.Over U

namespace Builder

open PathTree Success

variable {O S I ε : Type} {U : S → Prop} {a b c : Builder O S I} {x : OpenExpr S}
  {z : BoundExpr S} {ordinal : Nat}

/-- The sets of the table are among `U`. -/
def BindsOver (U : S → Prop) (b : Builder O S I) : Prop :=
  ∀ name set, b.bindings.get? name = some set → U set

/-- A new builder has no bindings. -/
theorem bindsOver_new {options : O} : (new options : Builder O S I).BindsOver U := by
  intro name set hget
  cases hget

variable [Identified S] [PathFailure ε] [Realizer O S I ε]

/-! ## Calls -/

/-- The answer to a call, and the builder after it. -/
def call (b : Builder O S I) : Call S → Answer ε I × Builder O S I
  | .bind name set =>
    match b.bind name set with
    | .ok c => (.bound (.ok ()), c)
    | .error e => (.bound (.error e), b)
  | .build x ordinal => (.built (b.build x ordinal).1, (b.build x ordinal).2)

/-- The answers to calls, one after another, each with the builder after it. -/
def calls (b : Builder O S I) : List (Call S) → List (Answer ε I × Builder O S I)
  | [] => []
  | c :: cs => b.call c :: (b.call c).2.calls cs

/-- One call on a builder. The sets of bindings and expressions are among `U`. -/
inductive Step (U : S → Prop) : Builder O S I → Builder O S I → Prop
  | bind {b c : Builder O S I} {name : String} {set : S} :
      U set → b.bind name set = .ok c → Step U b c
  | refused {b : Builder O S I} {name : String} {set : S} {e : PathError} :
      b.bind name set = .error e → Step U b b
  | build (b : Builder O S I) {x : OpenExpr S} (ordinal : Nat) :
      x.Constructible → x.Over U → Step U b (b.build x ordinal).2

/-- Any number of calls, one after another. -/
inductive Runs (U : S → Prop) (a : Builder O S I) : Builder O S I → Prop
  | refl : Runs U a a
  | step {b c : Builder O S I} : Runs U a b → Step U b c → Runs U a c

/-! ## Bound forms -/

/-- The bound form of an expression is the expression itself if it has all of its sets, and the one
from the table if it has none. -/
theorem boundForm_eq_ok_iff : b.boundForm x = .ok z ↔
    x = z.toOpen ∨ x.checkBound = .ok false ∧ x.bind b.bindings = .ok z.toOpen := by
  rw [boundForm, bind_eq_ok_iff]
  -- The check tells bound expressions from those without sets, and refuses all others.
  constructor
  · rintro ⟨bound, hcheck, h⟩
    cases bound with
    | true => exact .inl (close_eq_ok_iff.1 h)
    | false =>
      obtain ⟨y, hbind, h⟩ := bind_eq_ok_iff.1 h
      rw [close_eq_ok_iff.1 h] at hbind
      exact .inr ⟨hcheck, hbind⟩
  · rintro (rfl | ⟨hcheck, hbind⟩)
    · exact ⟨true, checkBound_toOpen z, close_eq_ok_iff.2 rfl⟩
    · exact ⟨false, hcheck, bind_eq_ok_iff.2 ⟨_, hbind, close_eq_ok_iff.2 rfl⟩⟩

/-- A bound expression is its own bound form, whatever the table holds. -/
theorem boundForm_toOpen (b : Builder O S I) (z : BoundExpr S) : b.boundForm z.toOpen = .ok z :=
  boundForm_eq_ok_iff.2 (.inl rfl)

/-- An expression without sets has its bound form from the table. -/
theorem bind_of_boundForm (hunbound : x.checkBound = .ok false) (h : b.boundForm x = .ok z) :
    x.bind b.bindings = .ok z.toOpen := by
  rcases boundForm_eq_ok_iff.1 h with rfl | ⟨-, hbind⟩
  · rw [checkBound_toOpen] at hunbound
    cases hunbound
  · exact hbind

/-- Binding keeps expressions well-formed. -/
theorem wellFormed_of_boundForm (hx : x.WellFormed) (h : b.boundForm x = .ok z) :
    z.WellFormed := by
  rcases boundForm_eq_ok_iff.1 h with rfl | ⟨-, hbind⟩
  · exact wellFormed_toOpen.1 hx
  · exact wellFormed_toOpen.1 (wellFormed_of_bind hbind)

/-- A build is the realization of the bound form, from the memo of the builder. -/
theorem build_of_boundForm {rows : End} (hrows : End.ofNat? ordinal = some rows)
    (h : b.boundForm x = .ok z) :
    b.build x ordinal = (((z.realize b.options rows).run.run b.memo).1,
      { b with memo := ((z.realize b.options rows).run.run b.memo).2 }) := by
  simp only [build, resolve, hrows, h]
  rfl

/-- A build is one of the bound form. -/
theorem build_eq_build_toOpen {rows : End} (hrows : End.ofNat? ordinal = some rows)
    (h : b.boundForm x = .ok z) : b.build x ordinal = b.build z.toOpen rows.toNat := by
  rw [build_of_boundForm hrows h,
    build_of_boundForm (End.ofNat?_toNat rows) (boundForm_toOpen b z)]

/-- A build without a bound form or without an end to start from changes nothing. -/
theorem build_eq_or (b : Builder O S I) (x : OpenExpr S) (ordinal : Nat) :
    (∃ rows z, End.ofNat? ordinal = some rows ∧ b.boundForm x = .ok z) ∨
      ∃ e, b.resolve x ordinal = .error e ∧
        b.build x ordinal = (.error (PathFailure.rejected e), b) := by
  cases hresolve : b.resolve x ordinal with
  | error e => exact .inr ⟨e, rfl, by rw [build, hresolve]⟩
  | ok pair =>
    unfold resolve at hresolve
    cases hrows : End.ofNat? ordinal with
    | none =>
      rw [hrows] at hresolve
      cases hresolve
    | some rows =>
      cases hform : b.boundForm x with
      | error e =>
        rw [hrows, hform] at hresolve
        cases hresolve
      | ok z => exact .inl ⟨rows, z, rfl, rfl⟩

/-- A build that succeeds is one of a bound form. -/
theorem exists_boundForm_of_build {built : Built I} (hok : (b.build x ordinal).1 = .ok built) :
    ∃ rows z, End.ofNat? ordinal = some rows ∧ b.boundForm x = .ok z := by
  rcases build_eq_or b x ordinal with hform | ⟨e, -, herror⟩
  · exact hform
  · rw [herror] at hok
    cases hok

/-! ## Runs -/

/-- The sets of a bound form are those of the expression or of the table. -/
theorem over_of_boundForm (hb : b.BindsOver U) (hx : x.Over U) (h : b.boundForm x = .ok z) :
    z.toOpen.Over U := by
  rcases boundForm_eq_ok_iff.1 h with rfl | ⟨-, hbind⟩
  · exact hx
  · intro v hv set hset
    -- All sets of an expression without sets of its own come from the table.
    obtain ⟨set', hset', hget⟩ := get?_of_bind hbind v hv
    rw [hset] at hset'
    cases hset'
    exact hb v.name set hget

/-- A call changes nothing, binds one more name, or realizes one bound form. -/
theorem step_cases (h : Step U b c) :
    c = b ∨
    (∃ name set, U set ∧ b.bindings.get? name = none ∧
      c = { b with bindings := b.bindings.insert name set }) ∨
    ∃ x z rows, x.Constructible ∧ x.Over U ∧ b.boundForm x = .ok z ∧
      c = { b with memo := ((z.realize b.options rows).run.run b.memo).2 } := by
  cases h with
  | @bind _ name set hset h =>
    unfold Builder.bind at h
    split at h
    · next hnew =>
      cases h
      exact .inr (.inl ⟨name, set, hset, hnew, rfl⟩)
    · split at h
      · cases h
        exact .inl rfl
      · cases h
  | refused => exact .inl rfl
  | @build x ordinal hx hover =>
    rcases build_eq_or b x ordinal with ⟨rows, z, hrows, hform⟩ | ⟨e, -, h⟩
    · rw [build_of_boundForm hrows hform]
      exact .inr (.inr ⟨x, z, rows, hx, hover, hform, rfl⟩)
    · rw [h]
      exact .inl rfl

/-- A call binds sets among `U` only. -/
theorem bindsOver_of_step (hb : b.BindsOver U) (h : Step U b c) : c.BindsOver U := by
  rcases step_cases h with rfl | ⟨name, set, hset, -, rfl⟩ | ⟨_, _, _, _, _, _, rfl⟩
  · exact hb
  · intro other set' hget
    -- Only the name that was bound can have a new set.
    by_cases hname : other = name
    · rw [hname, Bindings.get?_insert_self] at hget
      cases hget
      exact hset
    · rw [Bindings.get?_insert_of_ne _ _ hname] at hget
      exact hb other set' hget
  · exact hb

theorem bindsOver_of_runs (ha : a.BindsOver U) (h : Runs U a b) : b.BindsOver U := by
  induction h with
  | refl => exact ha
  | step _ hstep ih => exact bindsOver_of_step ih hstep

theorem prefix_of_step (h : Step U b c) : b.memo.entries <+: c.memo.entries := by
  rcases step_cases h with rfl | ⟨_, _, _, _, rfl⟩ | ⟨x, z, rows, hx, -, hform, rfl⟩
  · exact List.prefix_rfl
  · exact List.prefix_rfl
  · exact prefix_of_realize (wellFormed_of_boundForm (constructible_iff_wellFormed.1 hx) hform)
      rows b.memo

/-- Entries of the memo keep their places. -/
theorem prefix_of_runs (h : Runs U a b) : a.memo.entries <+: b.memo.entries := by
  induction h with
  | refl => exact List.prefix_rfl
  | step _ hstep ih => exact ih.trans (prefix_of_step hstep)

theorem options_of_step (h : Step U b c) : c.options = b.options := by
  rcases step_cases h with rfl | ⟨_, _, _, _, rfl⟩ | ⟨_, _, _, _, _, _, rfl⟩ <;> rfl

/-- The options of a builder never change. -/
theorem options_of_runs (h : Runs U a b) : b.options = a.options := by
  induction h with
  | refl => rfl
  | step _ hstep ih => exact (options_of_step hstep).trans ih

/-! ## Found indices -/

/-- After a success, the bound form is found under its key, with the index that was returned. -/
theorem exists_found_of_build (hx : x.WellFormed) {built : Built I}
    (h : b.build x ordinal = (.ok built, c)) :
    ∃ rows z, End.ofNat? ordinal = some rows ∧ b.boundForm x = .ok z ∧
      c.bindings = b.bindings ∧ b.memo.entries <+: c.memo.entries ∧
        c.memo.find? ⟨z.boundKey, rows⟩ = some built := by
  obtain ⟨rows, z, hrows, hform⟩ := exists_boundForm_of_build (congrArg Prod.fst h)
  have hz := wellFormed_of_boundForm hx hform
  rw [build_of_boundForm hrows hform] at h
  obtain ⟨hresult, rfl⟩ := Prod.mk.inj h
  have hrun : (z.realize b.options rows).run.run b.memo =
      (.ok built, ((z.realize b.options rows).run.run b.memo).2) := Prod.ext hresult rfl
  exact ⟨rows, z, hrows, hform, rfl, prefix_of_realize hz rows b.memo, find?_of_realize hz hrun⟩

/-- An expression whose bound form is found under its key is not realized again. -/
theorem build_of_found (hx : x.WellFormed) {rows : End} (hrows : End.ofNat? ordinal = some rows)
    (hform : b.boundForm x = .ok z) {built : Built I}
    (hfound : b.memo.find? ⟨z.boundKey, rows⟩ = some built) :
    (b.build x ordinal).1 = .ok built := by
  rw [build_of_boundForm hrows hform, realize_of_found (wellFormed_of_boundForm hx hform) hfound]

end Builder

/-- The two vertices of a mesh with a single edge, as the vertices that share an edge. -/
def sharedEdge : BoundExpr :=
  let vertices : SetView := ⟨⟨1⟩, "V", 2, [], #[], none⟩
  let edges : SetView := ⟨⟨2⟩, "E", 1, [⟨1⟩, ⟨1⟩], #[0, 1], none⟩
  .formula .and ⟨"u", vertices⟩ ⟨"w", vertices⟩ (some ⟨"e", edges⟩)
    (.link .vertexToEdge ⟨"u", vertices⟩ ⟨"e", edges⟩)
    (.link .edgeToVertex ⟨"e", edges⟩ ⟨"w", vertices⟩)

end MeshPath
