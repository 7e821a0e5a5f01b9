import MeshPath.Proofs.Expr.Capture

/-!
# Variables replaced by a callback

`mapVars` replaces every variable by what a callback gives for it. The callback may keep a state and
may fail, and nothing is done to avoid the capture of names: each formula is only checked again.

* `label_map_of_mapVars`: the names of the result, if the callback replaces names by a function.
* `exists_mapVars`: there is a result if these names pass the check.
* `Visits`, `visits_mapVars`: the callback is called on all variables in preorder, up to the first
  failure.
* `mapVars_structuralEq`: what `mapVars` does with a formula under such a callback.
-/

namespace MeshPath

namespace Var

/-- The name of a variable under `g`, without its set. -/
def label {S : Type} (g : String → String) (v : Var S) : Var Unit := ⟨g v.name, ()⟩

theorem name_label {S : Type} (g : String → String) (v : Var S) : (v.label g).name = g v.name :=
  rfl

end Var

namespace PathTree

open Success

variable {S T : Type} {f : OpenVar S → ExceptT PathError (StateM T) (OpenVar S)}
  {g : String → String} {x y : OpenExpr S} {vs : List (OpenVar S)}

/-! ## Names and results -/

/-- What the callback gives for a variable of `vs` has its name under `g`. -/
def Replaces (f : OpenVar S → ExceptT PathError (StateM T) (OpenVar S)) (g : String → String)
    (vs : List (OpenVar S)) : Prop :=
  ∀ v ∈ vs, ∀ {before after : T} {w : OpenVar S},
    (f v).run.run before = (.ok w, after) → w.name = g v.name

/-- The callback gives something for every variable of `vs`, in all its states. -/
def NeverFails (f : OpenVar S → ExceptT PathError (StateM T) (OpenVar S))
    (vs : List (OpenVar S)) : Prop :=
  ∀ v ∈ vs, ∀ before, ∃ w after, (f v).run.run before = (.ok w, after)

theorem Replaces.mono {us : List (OpenVar S)} (h : Replaces f g vs) (hsub : us ⊆ vs) :
    Replaces f g us := fun v hv => h v (hsub hv)

theorem NeverFails.mono {us : List (OpenVar S)} (h : NeverFails f vs) (hsub : us ⊆ vs) :
    NeverFails f us := fun v hv => h v (hsub hv)

/-- A variable that the callback has replaced has the new name of the old one. -/
theorem Replaces.label_eq {v w : OpenVar S} {before after : T} (h : Replaces f g vs) (hv : v ∈ vs)
    (hrun : (f v).run.run before = (.ok w, after)) : w.label id = v.label g := by
  rw [Var.label, Var.label, h v hv hrun, id]

theorem Replaces.map_label_eq {q q' : Option (OpenVar S)} {before after : T} (h : Replaces f g vs)
    (hq : ∀ v ∈ q.toList, v ∈ vs) (hrun : (q.mapM f).run.run before = (.ok q', after)) :
    q'.map (Var.label id) = q.map (Var.label g) := by
  cases q with
  | none =>
    cases hrun
    rfl
  | some q =>
    rw [Option.mapM_some, ← bind_pure_comp] at hrun
    obtain ⟨w, middle, hw, hrun⟩ := run_bind_eq_ok hrun
    cases hrun
    rw [Option.map_some, Option.map_some, h.label_eq (hq q (by simp)) hw]

/-- The names of a result are those that the callback gives. -/
theorem map_label_of_mapVars [Identified S] (h : Replaces f g x.vars) {before after : T}
    (hrun : (x.mapVars f).run.run before = (.ok y, after)) :
    y.map (Var.label id) = x.map (Var.label g) := by
  induction x generalizing y before after with
  | link kind source sink =>
    obtain ⟨source', _, hsource, hrun⟩ := run_bind_eq_ok hrun
    obtain ⟨sink', _, hsink, hrun⟩ := run_bind_eq_ok hrun
    cases hrun
    rw [map, map, h.label_eq (by simp [vars]) hsource, h.label_eq (by simp [vars]) hsink]
  | formula c x₁ x₂ q lhs rhs ihl ihr =>
    obtain ⟨x₁', _, hx₁, hrun⟩ := run_bind_eq_ok hrun
    obtain ⟨x₂', _, hx₂, hrun⟩ := run_bind_eq_ok hrun
    obtain ⟨q', _, hq, hrun⟩ := run_bind_eq_ok hrun
    obtain ⟨lhs', _, hl, hrun⟩ := run_bind_eq_ok hrun
    obtain ⟨rhs', _, hr, hrun⟩ := run_bind_eq_ok hrun
    have hcheck : checked (.formula c x₁' x₂' q' lhs' rhs') = .ok y := congrArg Prod.fst hrun
    obtain ⟨-, rfl⟩ := checked_eq_ok_iff.1 hcheck
    rw [map, map, h.label_eq (by simp [vars]) hx₁, h.label_eq (by simp [vars]) hx₂,
      h.map_label_eq (fun v hv => by simp [vars, hv]) hq,
      ihl (h.mono fun v hv => mem_vars_of_lhs hv) hl,
      ihr (h.mono fun v hv => mem_vars_of_rhs hv) hr]

/-- A callback that never fails replaces a quantified variable too. -/
theorem NeverFails.exists_mapM {q : Option (OpenVar S)} (h : NeverFails f vs)
    (hq : ∀ v ∈ q.toList, v ∈ vs) (before : T) :
    ∃ q' after, (q.mapM f).run.run before = (.ok q', after) := by
  cases q with
  | none => exact ⟨none, before, rfl⟩
  | some q =>
    obtain ⟨w, after, hw⟩ := h q (hq q (by simp)) before
    refine ⟨some w, after, ?_⟩
    rw [Option.mapM_some, ← bind_pure_comp, run_bind, hw]
    rfl

/-- Whether an expression is well-formed depends on its names alone. -/
theorem wellFormed_map_label_iff : (x.map (Var.label id)).WellFormed ↔ x.WellFormed :=
  wellFormed_map (Var.name_label id)

/-- There is a result if the callback gives something for every variable and the new names pass the
check. -/
theorem exists_mapVars [Identified S] (h : Replaces f g x.vars) (hok : NeverFails f x.vars)
    (hg : (x.map (Var.label g)).WellFormed) (before : T) :
    ∃ y after, (x.mapVars f).run.run before = (.ok y, after) := by
  induction x generalizing before with
  | link kind source sink =>
    obtain ⟨source', middle, hsource⟩ := hok source (by simp [vars]) before
    obtain ⟨sink', after, hsink⟩ := hok sink (by simp [vars]) middle
    refine ⟨link kind source' sink', after, ?_⟩
    rw [mapVars, run_bind, hsource]
    simp only [run_bind, hsink]
    rfl
  | formula c x₁ x₂ q lhs rhs ihl ihr =>
    obtain ⟨x₁', t₁, hx₁⟩ := hok x₁ (by simp [vars]) before
    obtain ⟨x₂', t₂, hx₂⟩ := hok x₂ (by simp [vars]) t₁
    obtain ⟨q', t₃, hq⟩ := hok.exists_mapM (q := q) (fun v hv => by simp [vars, hv]) t₂
    obtain ⟨lhs', t₄, hl⟩ := ihl (h.mono fun v hv => mem_vars_of_lhs hv)
      (hok.mono fun v hv => mem_vars_of_lhs hv) hg.2.1 t₃
    obtain ⟨rhs', t₅, hr⟩ := ihr (h.mono fun v hv => mem_vars_of_rhs hv)
      (hok.mono fun v hv => mem_vars_of_rhs hv) hg.2.2 t₄
    -- The rebuilt formula has the names that are known to pass the check.
    have hlabels : (formula c x₁' x₂' q' lhs' rhs').map (Var.label id) =
        (formula c x₁ x₂ q lhs rhs).map (Var.label g) := by
      rw [map, map, h.label_eq (by simp [vars]) hx₁, h.label_eq (by simp [vars]) hx₂,
        h.map_label_eq (fun v hv => by simp [vars, hv]) hq,
        map_label_of_mapVars (h.mono fun v hv => mem_vars_of_lhs hv) hl,
        map_label_of_mapVars (h.mono fun v hv => mem_vars_of_rhs hv) hr]
    have hresult : (formula c x₁' x₂' q' lhs' rhs').WellFormed :=
      wellFormed_map_label_iff.1 (hlabels ▸ hg)
    refine ⟨formula c x₁' x₂' q' lhs' rhs', t₅, ?_⟩
    rw [mapVars]
    simp only [run_bind, hx₁, hx₂, hq, hl, hr]
    rw [checked_eq_ok_iff.2 ⟨hresult.1, rfl⟩]
    rfl

/-! ## Order of the visits -/

/-- The callback, which also keeps a list of the variables on which it is called. -/
def recording (f : OpenVar S → ExceptT PathError (StateM T) (OpenVar S)) (v : OpenVar S) :
    ExceptT PathError (StateM (T × List (OpenVar S))) (OpenVar S) :=
  ExceptT.mk fun (before, visited) =>
    let (result, after) := (f v).run.run before
    (result, after, visited ++ [v])

/-- With a record of the calls, `a'` does what `a` does, and it calls the callback on the variables
`vs` in this order. A failure ends the visit, so that a first part of `vs` has been visited. -/
def Visits {α : Type} (a : ExceptT PathError (StateM T) α)
    (a' : ExceptT PathError (StateM (T × List (OpenVar S))) α) (vs : List (OpenVar S)) : Prop :=
  ∀ (before : T) (earlier : List (OpenVar S)), ∃ visited,
    a'.run.run (before, earlier) =
      ((a.run.run before).1, (a.run.run before).2, earlier ++ visited) ∧
    visited <+: vs ∧ ∀ z, (a.run.run before).1 = .ok z → visited = vs

namespace Visits

variable {α β : Type}

theorem result (z : Except PathError α) :
    Visits (ExceptT.mk (pure z)) (ExceptT.mk (pure z) : ExceptT _ (StateM (T × _)) α)
      ([] : List (OpenVar S)) :=
  fun before earlier => ⟨[], by rw [List.append_nil]; rfl, List.prefix_rfl, fun _ _ => rfl⟩

theorem call (v : OpenVar S) : Visits (f v) (recording f v) [v] :=
  fun _ _ => ⟨[v], rfl, List.prefix_rfl, fun _ _ => rfl⟩

/-- Visits of two computations in a row. -/
theorem bind {a : ExceptT PathError (StateM T) α}
    {a' : ExceptT PathError (StateM (T × List (OpenVar S))) α} {us : List (OpenVar S)}
    {k : α → ExceptT PathError (StateM T) β}
    {k' : α → ExceptT PathError (StateM (T × List (OpenVar S))) β} (h : Visits a a' vs)
    (hk : ∀ z, Visits (k z) (k' z) us) : Visits (a >>= k) (a' >>= k') (vs ++ us) := by
  intro before earlier
  obtain ⟨visited, hrun, hprefix, hall⟩ := h before earlier
  rw [run_bind, run_bind, hrun]
  rcases hfirst : a.run.run before with ⟨e | z, middle⟩
  -- After a failure nothing more is visited.
  · refine ⟨visited, rfl, hprefix.trans (List.prefix_append vs us), fun z hz => ?_⟩
    cases hz
  · obtain ⟨visited', hrun', hprefix', hall'⟩ := hk z middle (earlier ++ visited)
    obtain rfl : visited = vs := hall z (by rw [hfirst])
    refine ⟨visited ++ visited', ?_, (List.prefix_append_right_inj visited).2 hprefix', ?_⟩
    · rw [← List.append_assoc]
      exact hrun'
    · intro y hy
      rw [hall' y hy]

/-- A quantified variable is visited, if there is one. -/
theorem mapM (q : Option (OpenVar S)) : Visits (q.mapM f) (q.mapM (recording f)) q.toList := by
  cases q with
  | none => exact result (.ok none)
  | some q =>
    rw [Option.mapM_some, Option.mapM_some, ← bind_pure_comp, ← bind_pure_comp]
    exact (call q).bind fun w => result (.ok (some w))

end Visits

/-- All variables are visited in preorder. -/
theorem visits_mapVars [Identified S] (x : OpenExpr S) :
    Visits (x.mapVars f) (x.mapVars (recording f)) x.vars := by
  induction x with
  | link kind source sink =>
    exact (Visits.call source).bind fun source => (Visits.call sink).bind fun sink =>
      .result (.ok (link kind source sink))
  | formula c x y q lhs rhs ihl ihr =>
    have hvisits : Visits ((formula c x y q lhs rhs).mapVars f)
        ((formula c x y q lhs rhs).mapVars (recording f))
        ([x] ++ ([y] ++ (q.toList ++ (lhs.vars ++ (rhs.vars ++ []))))) :=
      (Visits.call x).bind fun x => (Visits.call y).bind fun y => (Visits.mapM q).bind fun q =>
        ihl.bind fun lhs => ihr.bind fun rhs => .result (checked (formula c x y q lhs rhs))
    rwa [List.append_nil] at hvisits

/-! ## Formulas under a callback -/

/-- The callback may merge names. If the check of all formulas passes, then no variable has been
captured: the result refers to the same binders. It passes if all names stay apart. Whether it does
or not, the callback is called on the variables in preorder, on all of them if there is a result. -/
theorem mapVars_structuralEq [Identified S] (hx : x.Constructible) (hg : Replaces f g x.vars)
    (before : T) :
    (∀ y after, (x.mapVars f).run.run before = (.ok y, after) →
      x.connective?.isSome = true → y.structuralEq x = true) ∧
    ((∀ v ∈ x.vars, ∀ w ∈ x.vars, g v.name = g w.name → v.name = w.name) →
      NeverFails f x.vars → ∃ y after, (x.mapVars f).run.run before = (.ok y, after)) ∧
    ∃ visited, (x.mapVars (recording f)).run.run (before, []) =
        (((x.mapVars f).run.run before).1, ((x.mapVars f).run.run before).2, visited) ∧
      visited <+: x.vars ∧
      ∀ y, ((x.mapVars f).run.run before).1 = .ok y → visited = x.vars := by
  have hwf := constructible_iff_wellFormed.1 hx
  refine ⟨fun y after hrun hformula => ?_, fun hinj hok => ?_, visits_mapVars x before []⟩
  · have hlabels := map_label_of_mapVars hg hrun
    have hmap : (x.map (Var.label g)).WellFormed := by
      rw [← hlabels, wellFormed_map_label_iff]
      exact wellFormed_of_mapVars hrun
    refine structuralEq_iff.2 ⟨?_, ?_⟩
    · rw [← shape_map (Var.label id), hlabels, shape_map]
    · rw [← binders_map (Var.name_label id), hlabels,
        binders_map_of_formula (Var.name_label g) hwf hmap hformula]
  · exact exists_mapVars hg hok (wellFormed_map_of_injOn (Var.name_label g) hwf hinj) before

/-- Two steps, of which the second one is a path over a variable `z` of its own. -/
def nestedPath : OpenExpr :=
  let v := Var.unbound
  .formula .and (v "u") (v "w") (some (v "v")) (.link .vertexToEdge (v "u") (v "v"))
    (.formula .and (v "v") (v "w") (some (v "z")) (.link .edgeToVertex (v "v") (v "z"))
      (.link .vertexToEdge (v "z") (v "w")))

/-- The inner variable takes the name of an end that its formula does not mention. It hides this
end, and nothing is captured. The callback counts its calls. -/
theorem mapVars_structuralEq_nestedPath :
    let g (name : String) := if name = "z" then "u" else name
    let f (v : OpenVar) : ExceptT PathError (StateM Nat) OpenVar := do
      modify (· + 1)
      return Var.unbound (g v.name)
    ∃ y, (nestedPath.mapVars f).run.run 0 = (.ok y, 12) ∧ y.structuralEq nestedPath = true ∧
      (nestedPath.mapVars (recording f)).run.run (0, []) = (.ok y, 12, nestedPath.vars) := by
  intro g f
  have hg : Replaces f g nestedPath.vars := by
    intro v hv before after w hrun
    cases hrun
    rfl
  have hx : nestedPath.Constructible := constructible_iff_wellFormed.2 (by decide)
  have hrun : ∃ y, (nestedPath.mapVars f).run.run 0 = (.ok y, 12) := ⟨_, rfl⟩
  obtain ⟨y, hrun⟩ := hrun
  obtain ⟨hstructural, -, visited, hrecord, -, hall⟩ := mapVars_structuralEq hx hg 0
  rw [hrun] at hrecord hall
  exact ⟨y, hrun, hstructural y 12 hrun rfl, hall y rfl ▸ hrecord⟩

end PathTree

end MeshPath
