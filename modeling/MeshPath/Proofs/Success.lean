/-!
# Computations in steps

A computation of several steps succeeds exactly if each step does. This module states that for the
monads of the library: `Except`, and `Except` over a state.
-/

namespace MeshPath.Success

variable {ε T α β : Type}

/-- Two steps in a row succeed exactly if the second one succeeds on what the first one gives. -/
theorem bind_eq_ok_iff {a : Except ε α} {f : α → Except ε β} {y : β} :
    a >>= f = .ok y ↔ ∃ z, a = .ok z ∧ f z = .ok y := by
  cases a with
  | error e =>
    constructor
    · intro h
      cases h
    · rintro ⟨z, hz, -⟩
      cases hz
  | ok z =>
    constructor
    · intro h
      exact ⟨z, rfl, h⟩
    · rintro ⟨z, hz, h⟩
      cases hz
      exact h

theorem map_eq_ok {a : Except ε α} {f : α → β} {y : β} (h : a.map f = .ok y) :
    ∃ x, a = .ok x ∧ f x = y := by
  cases a with
  | error e => cases h
  | ok x => exact ⟨x, rfl, Except.ok.inj h⟩

/-- The second of two steps that keep a state runs in the state that the first one leaves. -/
theorem run_bind (a : ExceptT ε (StateM T) α) (f : α → ExceptT ε (StateM T) β) (before : T) :
    (a >>= f).run.run before =
      match a.run.run before with
      | (.ok x, middle) => (f x).run.run middle
      | (.error e, middle) => (.error e, middle) := by
  rw [ExceptT.run_bind, StateT.run_bind]
  rcases a.run.run before with ⟨result, middle⟩
  cases result <;> rfl

/-- Two steps in a row that succeed pass on the state between them. -/
theorem run_bind_eq_ok {a : ExceptT ε (StateM T) α} {f : α → ExceptT ε (StateM T) β}
    {before after : T} {y : β} (h : (a >>= f).run.run before = (.ok y, after)) :
    ∃ z middle, a.run.run before = (.ok z, middle) ∧ (f z).run.run middle = (.ok y, after) := by
  rw [run_bind] at h
  rcases hfirst : a.run.run before with ⟨result, middle⟩
  rw [hfirst] at h
  cases result with
  | ok z => exact ⟨z, middle, rfl, h⟩
  | error e => cases h

/-- Two steps fail if the first one does, or the second one after a success of the first. -/
theorem run_bind_eq_error_iff {a : ExceptT ε (StateM T) α} {f : α → ExceptT ε (StateM T) β}
    {before after : T} {e : ε} : (a >>= f).run.run before = (.error e, after) ↔
      a.run.run before = (.error e, after) ∨
        ∃ x middle, a.run.run before = (.ok x, middle) ∧
          (f x).run.run middle = (.error e, after) := by
  rw [run_bind]
  rcases a.run.run before with ⟨e' | x, middle⟩
  · constructor
    · intro h
      cases h
      exact .inl rfl
    · rintro (h | ⟨x, middle', h, -⟩)
      · cases h
        rfl
      · cases h
  · constructor
    · intro h
      exact .inr ⟨x, middle, rfl, h⟩
    · rintro (h | ⟨x', middle', h, hrest⟩)
      · cases h
      · cases h
        exact hrest

/-- Steps without a state are steps of `Except`. -/
theorem run_bind_id (a : ExceptT ε Id α) (f : α → ExceptT ε Id β) :
    Id.run (a >>= f).run = Id.run a.run >>= fun x => Id.run (f x).run := by
  rcases h : Id.run a.run with e | x
  · have ha : a = ExceptT.mk (pure (.error e)) := h
    rw [ha]
    rfl
  · have ha : a = ExceptT.mk (pure (.ok x)) := h
    rw [ha]
    rfl

end MeshPath.Success
