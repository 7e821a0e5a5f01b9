import MeshPath.Error
import MeshPath.Word

/-!
# Stencils

A `Stencil` is a non-empty list of integer offsets of one length. It relates every element of a
lattice to the elements that its offsets reach. The offsets keep their order, which is the order
of each row of the realized index.

* `Stencil.ofOffsets`: a stencil from its offsets, or the reason why they do not form one.
* `Stencil.star`: the centre and its two neighbours along each axis.
* `Stencil.inverse`: the stencil that leads back. `Stencil.Negatable`: no component is the least
  one of 32 bits, the only one that negation keeps.
-/

namespace MeshPath

/-- Offsets applied to the elements of a lattice. -/
structure Stencil where
  /-- The number of components per offset. -/
  arity : Nat
  /-- The offsets in the order of each index row. -/
  offsets : List (List Int)
  /-- There is at least one offset. -/
  offsets_ne_nil : offsets ≠ []
  /-- All offsets have the same number of components. -/
  length_of_mem : ∀ o ∈ offsets, o.length = arity
deriving DecidableEq

namespace Stencil

/-- The stencil with the given offsets. The first offset whose length differs from that of the
very first one is reported. -/
def ofOffsets (offsets : List (List Int)) : Except PathError Stencil :=
  match offsets with
  | [] => .error .emptyStencil
  | first :: rest =>
    match h : (first :: rest).find? (·.length ≠ first.length) with
    | some bad => .error (.raggedStencil bad first.length bad.length)
    | none => .ok {
        arity := first.length
        offsets := first :: rest
        offsets_ne_nil := List.cons_ne_nil _ _
        length_of_mem := fun o ho => by simpa using List.find?_eq_none.1 h o ho }

/-- The offset of length `dims` that is `delta` along `axis` and zero along every other axis. -/
def step (dims axis : Nat) (delta : Int) : List Int := (List.replicate dims 0).set axis delta

/-- The star of `2 * dims + 1` offsets: the centre, then for each axis one step back and one step
forth. -/
def star (dims : Nat) : Stencil where
  arity := dims
  offsets := List.replicate dims 0 ::
    (List.range dims).flatMap fun axis => [step dims axis (-1), step dims axis 1]
  offsets_ne_nil := List.cons_ne_nil _ _
  length_of_mem := by
    intro o ho
    simp only [List.mem_cons, List.mem_flatMap, List.not_mem_nil, or_false] at ho
    rcases ho with rfl | ⟨axis, -, rfl | rfl⟩ <;> simp [step]

/-- The stencil that relates sinks back to sources: every component negated, as a word. -/
def inverse (s : Stencil) : Stencil where
  arity := s.arity
  offsets := s.offsets.map fun o => o.map Word.negate32
  offsets_ne_nil := by simpa using s.offsets_ne_nil
  length_of_mem := by
    intro o ho
    obtain ⟨p, hp, rfl⟩ := List.mem_map.1 ho
    simpa using s.length_of_mem p hp

/-- Offset lists are compared lexicographically, offset by offset and component by component. -/
instance : Ord Stencil where
  compare s t := compare s.offsets t.offsets

/-- The arity is that of the offsets, so the offsets alone determine a stencil. -/
theorem eq_of_offsets_eq {s t : Stencil} (h : s.offsets = t.offsets) : s = t := by
  obtain ⟨o, ho⟩ := List.exists_mem_of_ne_nil s.offsets s.offsets_ne_nil
  have arities : s.arity = t.arity :=
    (s.length_of_mem o ho).symm.trans (t.length_of_mem o (h ▸ ho))
  cases s
  cases t
  simp_all

/-- Every component has a negation of 32 bits. -/
def Negatable (s : Stencil) : Prop := ∀ o ∈ s.offsets, ∀ c ∈ o, c ≠ Word.least32

instance (s : Stencil) : Decidable s.Negatable :=
  inferInstanceAs (Decidable (∀ o ∈ s.offsets, ∀ c ∈ o, c ≠ Word.least32))

/-- The inverse of a stencil has the negated offsets. -/
theorem offsets_inverse {s : Stencil} (h : s.Negatable) :
    s.inverse.offsets = s.offsets.map fun o => o.map fun c => -c :=
  List.map_congr_left fun o ho => List.map_congr_left fun c hc => Word.negate32_eq_neg (h o ho c hc)

end Stencil

end MeshPath
