import MeshPath.Proofs.Lattice.Action

/-!
# Coordinates of lattice elements

Every element of a lattice has its own coordinates, and they lead back to it.

* `id?_eq_some_iff`: the element at given coordinates is the one that has them. `eq_of_coords_eq`
  and `eq_of_id?` say that neither of the two is shared.
* `Displaces`: along every axis, one element lies a given step away from another one.
  `shift_eq_iff_displaces`: the element that an offset reaches is the one that it displaces to.
-/

namespace MeshPath.Lattice

variable {dims cs cs' : List Nat} {id i j : Nat} {o : List Int}

/-- Coordinates are those of the element that they lead to. -/
theorem coords_of_id? (h : id? dims cs = some id) : coords dims id = cs := by
  induction dims generalizing cs id with
  | nil =>
    cases cs with
    | nil => rfl
    | cons => cases h
  | cons d ds ih =>
    cases cs with
    | nil => cases h
    | cons c cs =>
      rw [id?, Option.bind_eq_some_iff] at h
      obtain ⟨rest, hrest, h⟩ := h
      obtain ⟨hc, rfl⟩ : c < d ∧ c + d * rest = id := by simpa using h
      rw [coords, Nat.add_mul_mod_self_left, Nat.mod_eq_of_lt hc,
        Nat.add_mul_div_left _ _ (Nat.zero_lt_of_lt hc), Nat.div_eq_of_lt hc, Nat.zero_add,
        ih hrest]

/-- The coordinates of an element lead back to it. -/
theorem id?_coords (hid : id < dims.foldr (· * ·) 1) : id? dims (coords dims id) = some id := by
  induction dims generalizing id with
  | nil =>
    have hzero : id = 0 := by simpa using hid
    rw [hzero]
    rfl
  | cons d ds ih =>
    rw [List.foldr_cons] at hid
    have hpos : 0 < d := Nat.pos_of_mul_pos_right (Nat.zero_lt_of_lt hid)
    rw [coords, id?, ih (Nat.div_lt_of_lt_mul hid), Option.bind_some, if_pos (Nat.mod_lt id hpos),
      Nat.mod_add_div]

/-- The element at given coordinates is the one that has them. -/
theorem id?_eq_some_iff :
    id? dims cs = some id ↔ coords dims id = cs ∧ id < dims.foldr (· * ·) 1 := by
  constructor
  · exact fun h => ⟨coords_of_id? h, id?_lt_prod h⟩
  · rintro ⟨rfl, hid⟩
    exact id?_coords hid

/-- Different elements have different coordinates. -/
theorem eq_of_coords_eq (hi : i < dims.foldr (· * ·) 1) (hj : j < dims.foldr (· * ·) 1)
    (h : coords dims i = coords dims j) : i = j := by
  have hback := id?_coords hi
  rw [h, id?_coords hj] at hback
  exact (Option.some.inj hback).symm

/-- Different coordinates lead to different elements. -/
theorem eq_of_id? (h : id? dims cs = some id) (h' : id? dims cs' = some id) : cs = cs' :=
  (coords_of_id? h).symm.trans (coords_of_id? h')

/-! ## Displacements -/

/-- Along every axis, the coordinate of `j` is that of `i` moved by the component of `o`, modulo the
extent. -/
def Displaces (dims : List Nat) (i : Nat) (o : List Int) (j : Nat) : Prop :=
  ∀ (k d c : Nat) (a : Int), dims[k]? = some d → (coords dims i)[k]? = some c → o[k]? = some a →
    ∃ c' : Nat, (coords dims j)[k]? = some c' ∧ (c' : Int) = (c + a) % d

/-- A shift displaces an element by its offset. -/
theorem displaces_shift (hdims : ∀ d ∈ dims, 0 < d ∧ d < Word.span64 / 2) (i : Nat) (o : List Int) :
    Displaces dims i o (shift dims i o) := by
  intro k d c a hd hc ha
  obtain ⟨hpos, hlt⟩ := hdims d (List.mem_of_getElem? hd)
  have hcd : c < d := coord_lt (fun d hd => (hdims d hd).1) hd hc
  refine ⟨wrap d c a, getElem?_coords_shift hdims hd hc ha, ?_⟩
  rw [wrap_eq_emod a hlt (Nat.lt_trans hcd hlt)]
  exact Int.toNat_of_nonneg (Int.emod_nonneg _ (by omega))

/-- An offset displaces an element to one element at most. -/
theorem Displaces.coords_eq {j' : Nat} (ho : o.length = dims.length) (h : Displaces dims i o j)
    (h' : Displaces dims i o j') : coords dims j = coords dims j' := by
  refine List.ext_getElem? fun k => ?_
  by_cases hk : k < dims.length
  · have hc : k < (coords dims i).length := by rwa [length_coords]
    have ha : k < o.length := by rwa [ho]
    obtain ⟨c, hget, hmod⟩ := h k _ _ _ (List.getElem?_eq_getElem hk) (List.getElem?_eq_getElem hc)
      (List.getElem?_eq_getElem ha)
    obtain ⟨c', hget', hmod'⟩ := h' k _ _ _ (List.getElem?_eq_getElem hk)
      (List.getElem?_eq_getElem hc) (List.getElem?_eq_getElem ha)
    rw [hget, hget', Int.ofNat.inj (hmod.trans hmod'.symm)]
  -- There is no coordinate past the dimensions.
  · have hlength : ∀ id, (coords dims id).length ≤ k := fun id => by
      rw [length_coords]
      exact Nat.le_of_not_lt hk
    rw [List.getElem?_eq_none (hlength j), List.getElem?_eq_none (hlength j')]

/-- Between elements, the element that an offset reaches is the one that it displaces to. -/
theorem shift_eq_iff_displaces (hdims : ∀ d ∈ dims, 0 < d ∧ d < Word.span64 / 2)
    (ho : o.length = dims.length) (hj : j < dims.foldr (· * ·) 1) :
    shift dims i o = j ↔ Displaces dims i o j := by
  constructor
  · rintro rfl
    exact displaces_shift hdims i o
  · intro h
    have hcoords := (displaces_shift hdims i o).coords_eq ho h
    exact eq_of_coords_eq (shift_lt_prod i ho hdims) hj hcoords

end MeshPath.Lattice
