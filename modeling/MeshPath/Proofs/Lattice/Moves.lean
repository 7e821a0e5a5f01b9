import Mathlib.Data.List.Forall2
import MeshPath.Proofs.Lattice.Coordinates

/-!
# Moves inside a lattice

A move adds to the coordinates of an element. Unlike a shift it does not wrap around: an element
that would leave the extents has no image.

* `move?`: the image of an element.
* `id?_lt_id?`: larger coordinates belong to later elements.
* `countP_move?`: how many elements have an image.
-/

namespace MeshPath

/-- Counted over rows of length `d`, a condition on the place in the row and one on the row. -/
theorem countP_range_mul (p q : Nat → Bool) (d n : Nat) :
    (List.range (d * n)).countP (fun k => p (k % d) && q (k / d)) =
      (List.range d).countP p * (List.range n).countP q := by
  induction n with
  | zero => simp
  | succ n ih =>
    rw [Nat.mul_succ, List.range_add, List.countP_append, ih, List.range_succ, List.countP_append,
      Nat.mul_add, List.countP_map]
    refine congrArg _ ?_
    -- In the last row, the condition on the row is one for all places.
    have hlast : ∀ c ∈ List.range d, ((p ((d * n + c) % d) && q ((d * n + c) / d)) = true ↔
        (p c && q n) = true) := by
      intro c hc
      have hlt := List.mem_range.1 hc
      rw [Nat.mul_add_mod, Nat.mod_eq_of_lt hlt, Nat.mul_add_div (Nat.zero_lt_of_lt hlt),
        Nat.div_eq_of_lt hlt, Nat.add_zero]
    refine (List.countP_congr hlast).trans ?_
    cases hq : q n <;> simp [hq]

theorem countP_range_add_lt (a d n : Nat) :
    (List.range n).countP (fun c => c + a < d) = min n (d - a) := by
  induction n with
  | zero => simp
  | succ n ih =>
    rw [List.range_succ, List.countP_append, ih, List.countP_singleton]
    simp only [decide_eq_true_eq]
    split <;> omega

namespace Lattice

variable {dims ds cs cs' : List Nat} {d c i j : Nat}

/-- The number of an element by its first coordinate and the number of the others. -/
theorem id?_cons_eq_some_iff :
    id? (d :: dims) (c :: cs) = some i ↔ ∃ j, id? dims cs = some j ∧ c < d ∧ c + d * j = i := by
  rw [id?, Option.bind_eq_some_iff]
  refine exists_congr fun j => and_congr_right fun _ => ?_
  split
  · next h => rw [Option.some_inj, and_iff_right h]
  · next h => simp [h]

/-- Coordinates that are not smaller belong to an element that is not earlier. -/
theorem id?_le_id? (hle : List.Forall₂ (· ≤ ·) cs cs') (h : id? dims cs = some i)
    (h' : id? dims cs' = some j) : i ≤ j := by
  induction hle generalizing dims i j with
  | nil =>
    rw [h] at h'
    exact Nat.le_of_eq (Option.some.inj h')
  | cons hc hcs ih =>
    cases dims with
    | nil => cases h
    | cons d dims =>
      obtain ⟨k, hk, -, rfl⟩ := id?_cons_eq_some_iff.1 h
      obtain ⟨k', hk', -, rfl⟩ := id?_cons_eq_some_iff.1 h'
      exact Nat.add_le_add hc (Nat.mul_le_mul_left d (ih hk hk'))

/-- Coordinates that are not smaller, and not all equal, belong to a later element. -/
theorem id?_lt_id? (hle : List.Forall₂ (· ≤ ·) cs cs') (hne : cs ≠ cs') (h : id? dims cs = some i)
    (h' : id? dims cs' = some j) : i < j := by
  refine Nat.lt_of_le_of_ne (id?_le_id? hle h h') ?_
  rintro rfl
  exact hne (eq_of_id? h h')

/-- The element whose coordinates are those of `i` moved by `ds`, unless they leave the extents. -/
def move? (dims ds : List Nat) (i : Nat) : Option Nat :=
  id? dims (List.zipWith (· + ·) (coords dims i) ds)

/-- An element can be moved if its first coordinate has room and the others can be moved. -/
theorem isSome_move?_cons {a : Nat} :
    (move? (d :: dims) (a :: ds) i).isSome =
      (decide (i % d + a < d) && (move? dims ds (i / d)).isSome) := by
  rw [move?, coords, List.zipWith_cons_cons, id?, move?]
  cases id? dims (List.zipWith (· + ·) (coords dims (i / d)) ds) with
  | none => simp
  | some j =>
    rw [Option.bind_some]
    split
    · next h => simp [h]
    · next h => simp [h]

/-- Along every axis there is room for as many coordinates less as the move is long. -/
theorem countP_move? (hlength : ds.length = dims.length) :
    (List.range (dims.foldr (· * ·) 1)).countP (fun i => (move? dims ds i).isSome) =
      (List.zipWith (· - ·) dims ds).foldr (· * ·) 1 := by
  induction dims generalizing ds with
  | nil =>
    cases ds with
    | nil => rfl
    | cons => cases hlength
  | cons d dims ih =>
    cases ds with
    | nil => cases hlength
    | cons a ds =>
      simp only [isSome_move?_cons]
      rw [List.foldr_cons, countP_range_mul (fun c => c + a < d) fun i => (move? dims ds i).isSome,
        countP_range_add_lt, Nat.min_eq_right (Nat.sub_le d a), ih (Nat.succ.inj hlength)]
      rfl

end Lattice

end MeshPath
