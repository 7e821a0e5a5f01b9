import Mathlib.Algebra.Group.Nat.Defs
import Mathlib.Data.Set.Function
import Mathlib.Order.Interval.Set.Defs
import MeshPath.Proofs.Lattice

/-!
# Shifts permute a lattice

The offsets of a lattice act on its elements as a group: they are added component by component, and
each coordinate moves along its own axis, modulo the extent.

* `getElem?_coords_shift`: the coordinates of the element that an offset reaches.
* `shift_eq_iff`, `bijOn_shift`: the negated offset leads back, so that every offset permutes the
  elements.
* `shift_action`: these facts together, for extents with a product below `2 ^ 62`.
-/

namespace MeshPath.Lattice

variable {dims : List Nat} {id : Nat} {a : List Int}

/-- A coordinate of the element that an offset reaches is the wrapped sum along its axis. -/
theorem getElem?_coords_shift {k d c : Nat} {o : Int}
    (hdims : ∀ d ∈ dims, 0 < d ∧ d < Word.span64 / 2) (hd : dims[k]? = some d)
    (hc : (coords dims id)[k]? = some c) (ho : a[k]? = some o) :
    (coords dims (shift dims id a))[k]? = some (wrap d c o) := by
  induction dims generalizing id a k with
  | nil => cases hd
  | cons d' ds ih =>
    cases a with
    | nil => cases ho
    | cons o' os =>
      obtain ⟨hpos, hd'⟩ := hdims d' List.mem_cons_self
      rw [coords, shift_cons_mod ds id o' os hpos hd', shift_cons_div ds id o' os hpos hd']
      cases k with
      | zero =>
        cases hd
        cases hc
        cases ho
        rfl
      | succ k => exact ih (fun e he => hdims e (List.mem_cons_of_mem d' he)) hd hc ho

/-- Coordinates lie below their extents. -/
theorem coord_lt {k d c : Nat} (hpos : ∀ d ∈ dims, 0 < d) (hd : dims[k]? = some d)
    (hc : (coords dims id)[k]? = some c) : c < d := by
  induction dims generalizing id k with
  | nil => cases hd
  | cons d' ds ih =>
    cases k with
    | zero =>
      cases hd
      cases hc
      exact Nat.mod_lt id (hpos d List.mem_cons_self)
    | succ k => exact ih (fun e he => hpos e (List.mem_cons_of_mem d' he)) hd hc

/-- Between elements, an offset leads forth exactly if the negated one leads back. -/
theorem shift_eq_iff {i j : Nat} (ha : a.length = dims.length)
    (hi : i < dims.foldr (· * ·) 1) (hj : j < dims.foldr (· * ·) 1)
    (hdims : ∀ d ∈ dims, 0 < d ∧ d < Word.span64 / 2) :
    shift dims i a = j ↔ shift dims j (a.map fun c => -c) = i := by
  constructor
  · rintro rfl
    exact shift_neg ha hi hdims
  · rintro rfl
    have hneg : (a.map fun c => -c).length = dims.length := by rw [List.length_map, ha]
    have hback := shift_neg hneg hj hdims
    simpa [Function.comp_def] using hback

/-- Every offset permutes the elements of the lattice. -/
theorem bijOn_shift (ha : a.length = dims.length)
    (hdims : ∀ d ∈ dims, 0 < d ∧ d < Word.span64 / 2) :
    Set.BijOn (fun i => shift dims i a) (Set.Iio (dims.foldr (· * ·) 1))
      (Set.Iio (dims.foldr (· * ·) 1)) := by
  have hneg : (a.map fun c => -c).length = dims.length := by rw [List.length_map, ha]
  have hinv : Set.InvOn (fun j => shift dims j (a.map fun c => -c)) (fun i => shift dims i a)
      (Set.Iio (dims.foldr (· * ·) 1)) (Set.Iio (dims.foldr (· * ·) 1)) :=
    ⟨fun i hi => shift_neg ha hi hdims,
      fun j hj => (shift_eq_iff ha (shift_lt_prod j hneg hdims) hj hdims).2 rfl⟩
  exact hinv.bijOn (fun i _ => shift_lt_prod i ha hdims) fun j _ => shift_lt_prod j hneg hdims

/-- Extents whose product is below `2 ^ 62` are positive signed words. -/
theorem pos_and_lt_of_prod_lt (hpos : ∀ d ∈ dims, 0 < d) (hprod : dims.foldr (· * ·) 1 < 2 ^ 62) :
    ∀ d ∈ dims, 0 < d ∧ d < Word.span64 / 2 := by
  intro d hd
  have hzero : 0 ∉ dims := fun h => Nat.lt_irrefl 0 (hpos 0 h)
  have hle : d ≤ dims.foldr (· * ·) 1 := Extents.le_prod_of_mem hzero hd
  exact ⟨hpos d hd, Nat.lt_trans (Nat.lt_of_le_of_lt hle hprod) (by decide)⟩

/-- Over positive extents with a product below `2 ^ 62`, coordinates and shifts are defined. An
offset leads into the lattice and moves every coordinate modulo its extent. Offsets add up, the zero
offset fixes every element of the lattice, the negated offset leads back to it, and each offset
permutes the lattice. -/
theorem shift_action (hpos : ∀ d ∈ dims, 0 < d) (hprod : dims.foldr (· * ·) 1 < 2 ^ 62)
    (ha : a.length = dims.length) (id : Nat) :
    coords? dims id = some (coords dims id) ∧ shift? dims id a = some (shift dims id a) ∧
      shift dims id a < dims.foldr (· * ·) 1 ∧
      (∀ (k d c : Nat) (o : Int), dims[k]? = some d → (coords dims id)[k]? = some c →
        a[k]? = some o → ∃ c' : Nat, (coords dims (shift dims id a))[k]? = some c' ∧
          (c' : Int) = (c + o) % d) ∧
      (∀ b : List Int, b.length = dims.length →
        shift dims (shift dims id a) b = shift dims id (List.zipWith (· + ·) a b)) ∧
      (id < dims.foldr (· * ·) 1 → shift dims id (List.replicate dims.length 0) = id ∧
        shift dims (shift dims id a) (a.map fun c => -c) = id) ∧
      Set.BijOn (fun i => shift dims i a) (Set.Iio (dims.foldr (· * ·) 1))
        (Set.Iio (dims.foldr (· * ·) 1)) := by
  have hdims := pos_and_lt_of_prod_lt hpos hprod
  have hzero : 0 ∉ dims := fun h => Nat.lt_irrefl 0 (hpos 0 h)
  refine ⟨if_neg hzero, if_neg hzero, shift_lt_prod id ha hdims, ?_, ?_, ?_, bijOn_shift ha hdims⟩
  · intro k d c o hd hc ho
    obtain ⟨hdpos, hdlt⟩ := hdims d (List.mem_of_getElem? hd)
    have hcd := coord_lt hpos hd hc
    refine ⟨wrap d c o, getElem?_coords_shift hdims hd hc ho, ?_⟩
    rw [wrap_eq_emod o hdlt (Nat.lt_trans hcd hdlt)]
    exact Int.toNat_of_nonneg (Int.emod_nonneg _ (by omega))
  · exact fun b hb => shift_shift id ha hb hdims
  · exact fun hid => ⟨shift_zero hid hdims, shift_neg ha hid hdims⟩

/-- On a lattice of three by four elements, two steps back along the first axis and nine forth along
the second one. -/
theorem shift_action_threeByFour :
    shift [3, 4] 7 [-2, 9] = 11 ∧ shift [3, 4] 11 [2, -9] = 7 ∧
      Set.BijOn (fun i => shift [3, 4] i [-2, 9]) (Set.Iio 12) (Set.Iio 12) := by
  have hpos : ∀ d ∈ [3, 4], 0 < d := by decide
  have hlength : [-2, 9].length = [3, 4].length := rfl
  obtain ⟨-, -, -, -, -, hback, hbij⟩ := shift_action hpos (by decide) hlength 7
  exact ⟨by decide, (hback (by decide)).2, hbij⟩

end MeshPath.Lattice
