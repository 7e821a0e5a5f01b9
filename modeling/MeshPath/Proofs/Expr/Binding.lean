import MeshPath.Proofs.Expr.Binder
import MeshPath.Proofs.Expr.Coherent

/-!
# Binding by name

* `bind_eq_ok_iff_map`: binding succeeds exactly if the table has a set for every name, and replaces
  every variable by the one with the set of its name.
* `coherent_of_bind`: a table gives one set to a name, wherever the name stands, so that an
  expression that is bound from a table is coherent.
* `Bindings.Within`: a table with more bindings. `bind_of_within`: an expression that is bound from
  a table is bound to the same sets from a table with more bindings.
* `boundKey_eq_iff_of_bind`: expressions of one shape that are bound from a table have one key
  exactly if the table has the same sets for their names, occurrence by occurrence.
-/

namespace MeshPath

namespace Bindings

variable {S : Type}

/-- The variable with the set of its name, if the name is bound. -/
def assign (table : Bindings S) (v : OpenVar S) : OpenVar S := ⟨v.name, table.get? v.name⟩

theorem name_assign (table : Bindings S) (v : OpenVar S) : (table.assign v).name = v.name := rfl

/-- Every binding of the table `old` is one of `new`. -/
def Within (old new : Bindings S) : Prop :=
  ∀ name set, old.get? name = some set → new.get? name = some set

variable [Identified S]

/-- The identity of the set of a name, if the name is bound. -/
def id? (table : Bindings S) (name : String) : Option SetId :=
  (table.get? name).map Identified.id

@[simp]
theorem isSome_id? (table : Bindings S) (name : String) :
    (table.id? name).isSome = (table.get? name).isSome := by
  rw [id?, Option.isSome_map]

end Bindings

namespace PathTree

open Success

variable {S : Type} {table table' : Bindings S} {x y : OpenExpr S}

/-- A variable is bound exactly if the table has its name. -/
theorem bindVar_eq_ok_iff {v w : OpenVar S} :
    bindVar table v = .ok w ↔ (table.get? v.name).isSome = true ∧ w = table.assign v := by
  unfold bindVar Bindings.assign
  cases table.get? v.name with
  | none => simp
  | some set =>
    rw [Except.ok.injEq, eq_comm]
    exact (and_iff_right rfl).symm

theorem mapM_bindVar_eq_ok_iff {q q' : Option (OpenVar S)} :
    q.mapM (bindVar table) = .ok q' ↔
      (∀ v ∈ q.toList, (table.get? v.name).isSome = true) ∧ q' = q.map table.assign := by
  cases q with
  | none =>
    constructor
    · intro h
      cases h
      simp
    · rintro ⟨-, rfl⟩
      rfl
  | some q =>
    rw [Option.mapM_some]
    constructor
    · intro h
      obtain ⟨w, hw, h⟩ := bind_eq_ok_iff.1 h
      cases h
      simpa using bindVar_eq_ok_iff.1 hw
    · rintro ⟨hall, rfl⟩
      exact bind_eq_ok_iff.2 ⟨_, bindVar_eq_ok_iff.2 ⟨hall q (by simp), rfl⟩, rfl⟩

variable [Identified S]

/-- Binding succeeds exactly on well-formed expressions all of whose names are bound, and gives
every variable the set of its name. -/
theorem bind_eq_ok_iff_map : x.bind table = .ok y ↔
    x.WellFormed ∧ (∀ v ∈ x.vars, (table.get? v.name).isSome = true) ∧ y = x.map table.assign := by
  induction x generalizing y with
  | link kind source sink =>
    rw [bind_link]
    constructor
    · intro h
      obtain ⟨source', hsource, h⟩ := bind_eq_ok_iff.1 h
      obtain ⟨sink', hsink, h⟩ := bind_eq_ok_iff.1 h
      cases h
      obtain ⟨hfirst, rfl⟩ := bindVar_eq_ok_iff.1 hsource
      obtain ⟨hsecond, rfl⟩ := bindVar_eq_ok_iff.1 hsink
      exact ⟨trivial, by simp [vars, hfirst, hsecond], rfl⟩
    · rintro ⟨-, hall, rfl⟩
      have hvar : ∀ v ∈ [source, sink], bindVar table v = .ok (table.assign v) :=
        fun v hv => bindVar_eq_ok_iff.2 ⟨hall v hv, rfl⟩
      rw [hvar source (by simp), hvar sink (by simp)]
      rfl
  | formula c x₁ x₂ q lhs rhs ihl ihr =>
    rw [bind_formula]
    -- The table keeps all names, so that the formula passes the check again exactly if it did.
    have hwf : ((formula c x₁ x₂ q lhs rhs).map table.assign).WellFormed ↔
        (formula c x₁ x₂ q lhs rhs).WellFormed := wellFormed_map table.name_assign
    constructor
    · intro h
      obtain ⟨x₁', hx₁, h⟩ := bind_eq_ok_iff.1 h
      obtain ⟨x₂', hx₂, h⟩ := bind_eq_ok_iff.1 h
      obtain ⟨q', hq, h⟩ := bind_eq_ok_iff.1 h
      obtain ⟨lhs', hl, h⟩ := bind_eq_ok_iff.1 h
      obtain ⟨rhs', hr, h⟩ := bind_eq_ok_iff.1 h
      obtain ⟨hdefect, rfl⟩ := checked_eq_ok_iff.1 h
      have hl' := wellFormed_of_bind hl
      have hr' := wellFormed_of_bind hr
      obtain ⟨hfirst, rfl⟩ := bindVar_eq_ok_iff.1 hx₁
      obtain ⟨hsecond, rfl⟩ := bindVar_eq_ok_iff.1 hx₂
      obtain ⟨hquantified, rfl⟩ := mapM_bindVar_eq_ok_iff.1 hq
      obtain ⟨-, hlhs, rfl⟩ := ihl.1 hl
      obtain ⟨-, hrhs, rfl⟩ := ihr.1 hr
      refine ⟨hwf.1 ⟨hdefect, hl', hr'⟩, ?_, rfl⟩
      intro v hv
      simp only [vars, List.mem_cons, List.mem_append] at hv
      rcases hv with rfl | rfl | hv | hv | hv
      · exact hfirst
      · exact hsecond
      · exact hquantified v hv
      · exact hlhs v hv
      · exact hrhs v hv
    · rintro ⟨hx, hall, rfl⟩
      have hmem : ∀ v ∈ x₁ :: x₂ :: (q.toList ++ (lhs.vars ++ rhs.vars)),
          (table.get? v.name).isSome = true := hall
      simp only [List.forall_mem_cons, List.forall_mem_append] at hmem
      obtain ⟨hx₁, hx₂, hq, hl, hr⟩ := hmem
      rw [bindVar_eq_ok_iff.2 ⟨hx₁, rfl⟩, bindVar_eq_ok_iff.2 ⟨hx₂, rfl⟩,
        mapM_bindVar_eq_ok_iff.2 ⟨hq, rfl⟩, ihl.2 ⟨hx.2.1, hl, rfl⟩, ihr.2 ⟨hx.2.2, hr, rfl⟩]
      exact checked_eq_ok_iff.2 ⟨(hwf.2 hx).1, rfl⟩

/-- Every variable of the result has the set of its name. -/
theorem get?_of_bind (h : x.bind table = .ok y) :
    ∀ v ∈ y.vars, ∃ set, v.set = some set ∧ table.get? v.name = some set := by
  obtain ⟨-, hall, rfl⟩ := bind_eq_ok_iff_map.1 h
  rw [vars_map]
  intro v hv
  obtain ⟨w, hw, rfl⟩ := List.mem_map.1 hv
  obtain ⟨set, hset⟩ := Option.isSome_iff_exists.1 (hall w hw)
  exact ⟨set, hset, hset⟩

theorem endpoint_mem_vars {V : Type} (t : PathTree V) (e : End) : t.endpoint e ∈ t.vars := by
  cases t <;> cases e <;> simp [endpoint, End.pick, vars]

theorem mem_vars_of_lhs {V : Type} {c : Connective} {x y v : V} {q : Option V}
    {lhs rhs : PathTree V} (h : v ∈ lhs.vars) : v ∈ (formula c x y q lhs rhs).vars := by
  simp [vars, h]

theorem mem_vars_of_rhs {V : Type} {c : Connective} {x y v : V} {q : Option V}
    {lhs rhs : PathTree V} (h : v ∈ rhs.vars) : v ∈ (formula c x y q lhs rhs).vars := by
  simp [vars, h]

/-- If a name stands for one set throughout the expression, its formulas and their operands agree on
whatever is said of the sets. -/
theorem coherentBy_of_set_eq {S α : Type} {x : PathExpr S} (f : S → α)
    (h : ∀ v ∈ x.vars, ∀ w ∈ x.vars, v.name = w.name → v.set = w.set) : x.CoherentBy f := by
  induction x with
  | link => trivial
  | formula c x₁ x₂ q lhs rhs ihl ihr =>
    -- The variables that coherence compares are occurrences of the whole expression.
    have hown : ∀ v ∈ x₁ :: x₂ :: q.toList, v ∈ (formula c x₁ x₂ q lhs rhs).vars :=
      fun v hv => List.mem_append_left (lhs.vars ++ rhs.vars) hv
    refine ⟨fun v hv e => ⟨fun hname => ?_, fun hname => ?_⟩,
      ihl fun v hv w hw => h v (mem_vars_of_lhs hv) w (mem_vars_of_lhs hw),
      ihr fun v hv w hw => h v (mem_vars_of_rhs hv) w (mem_vars_of_rhs hw)⟩
    · exact congrArg f (h _ (mem_vars_of_lhs (endpoint_mem_vars lhs e)) v (hown v hv) hname)
    · exact congrArg f (h _ (mem_vars_of_rhs (endpoint_mem_vars rhs e)) v (hown v hv) hname)

/-- In an expression that is bound from a table, a name stands for one set. -/
theorem set_eq_of_bind (h : x.bind table = .ok y) :
    ∀ v ∈ y.vars, ∀ w ∈ y.vars, v.name = w.name → v.set = w.set := by
  intro v hv w hw hname
  obtain ⟨s, hs, hget⟩ := get?_of_bind h v hv
  obtain ⟨t, ht, hget'⟩ := get?_of_bind h w hw
  rw [hname, hget'] at hget
  cases hget
  rw [hs, ht]

/-- An expression that is bound from a table is coherent. -/
theorem coherent_of_bind (h : x.bind table = .ok y) :
    y.Coherent := coherentBy_of_set_eq _ (set_eq_of_bind h)

/-! ## More bindings -/

/-- More bindings do not change what an expression is bound to. -/
theorem bind_of_within (h : table.Within table') (hx : x.bind table = .ok y) :
    x.bind table' = .ok y := by
  obtain ⟨hwf, hall, rfl⟩ := bind_eq_ok_iff_map.1 hx
  have hsame : ∀ v ∈ x.vars, table'.get? v.name = table.get? v.name := by
    intro v hv
    obtain ⟨set, hset⟩ := Option.isSome_iff_exists.1 (hall v hv)
    rw [hset, h v.name set hset]
  refine bind_eq_ok_iff_map.2 ⟨hwf, fun v hv => ?_, map_congr fun v hv => ?_⟩
  · rw [hsame v hv]
    exact hall v hv
  · rw [Bindings.assign, Bindings.assign, hsame v hv]

/-! ## Keys of bound expressions -/

/-- The bound form of an expression has its shape and its binders, and the sets of its names. -/
theorem sets_of_bind {z : BoundExpr S} (h : x.bind table = .ok z.toOpen) :
    z.shape = x.shape ∧ z.binders = x.binders ∧
      (z.vars.map fun v => some (Identified.id v.set)) = x.vars.map fun v => table.id? v.name := by
  obtain ⟨-, -, hmap⟩ := bind_eq_ok_iff_map.1 h
  refine ⟨?_, ?_, ?_⟩
  · rw [← shape_toOpen, hmap, shape_map]
  · rw [← binders_toOpen, hmap, binders_map table.name_assign]
  · rw [← map_setId?_toOpen, hmap, vars_map, List.map_map]
    rfl

/-- Two expressions with one key of the shape have bound forms with one key exactly if the table
has the same sets for their names, occurrence by occurrence. -/
theorem boundKey_eq_iff_of_bind {z z' : BoundExpr S} (hkey : y.structuralKey = x.structuralKey)
    (hx : x.bind table = .ok z.toOpen) (hy : y.bind table = .ok z'.toOpen) :
    z'.boundKey = z.boundKey ↔
      (y.vars.map fun v => table.id? v.name) = x.vars.map fun v => table.id? v.name := by
  obtain ⟨hshape, hbinders, -⟩ := keyWith_eq_iff.1 hkey
  obtain ⟨hshapez, hbindersz, hsetsz⟩ := sets_of_bind hx
  obtain ⟨hshapez', hbindersz', hsetsz'⟩ := sets_of_bind hy
  rw [boundKey, boundKey, keyWith_eq_iff, hshapez', hshape, hshapez, hbindersz', hbinders,
    hbindersz, hsetsz', hsetsz]
  exact ⟨fun h => h.2.2, fun h => ⟨rfl, rfl, h⟩⟩

/-- If the table has the same sets for the names of two expressions, it binds both or none. -/
theorem exists_bind_of_ids_eq (hy : y.WellFormed)
    (hids : (y.vars.map fun v => table.id? v.name) = x.vars.map fun v => table.id? v.name)
    (hx : ∃ z : BoundExpr S, x.bind table = .ok z.toOpen) :
    ∃ z : BoundExpr S, y.bind table = .ok z.toOpen := by
  obtain ⟨z, hz⟩ := hx
  obtain ⟨-, hall, -⟩ := bind_eq_ok_iff_map.1 hz
  have hall' : ∀ v ∈ y.vars, (table.get? v.name).isSome = true := by
    intro v hv
    have hmem : table.id? v.name ∈ x.vars.map fun w => table.id? w.name := by
      rw [← hids]
      exact List.mem_map_of_mem hv
    obtain ⟨w, hw, hid⟩ := List.mem_map.1 hmem
    rw [← Bindings.isSome_id?, ← hid, Bindings.isSome_id?]
    exact hall w hw
  have hbound : (y.map table.assign).vars.all (·.isBound) = true := by
    simpa [Bindings.assign, Var.isBound] using hall'
  obtain ⟨z', hz'⟩ := all_isBound_iff.1 hbound
  exact ⟨z', bind_eq_ok_iff_map.2 ⟨hy, hall', hz'.symm⟩⟩

end PathTree

end MeshPath
