import MeshPath.Lattice

/-!
# Elements and shifts of a lattice

* `wrap_lt`, `shift_lt_size`: a wrapped coordinate lies below its extent, and the element that an
  offset reaches is an element of the lattice.
* `id?_lt_prod`: so is the element at coordinates inside the extents.
* `shift_shift`, `shift_zero`: shifts add up, and the zero offset fixes every element.
* `shift_neg`: the negated offset leads back.
-/

namespace MeshPath.Lattice

/-- A wrapped coordinate lies below its extent. -/
theorem wrap_lt {d : Nat} (c : Nat) (o : Int) (hpos : 0 < d) (hd : d < Word.span64 / 2) :
    wrap d c o < d := by
  rw [wrap, Word.signed64_eq_self hd]
  -- The remainder of any sum lies between zero and the extent, also where the sum wraps around.
  have hlt := Int.emod_lt_of_pos (Word.signed64 c + o) (by omega : (0 : Int) < d)
  have hnonneg := Int.emod_nonneg (Word.signed64 c + o) (by omega : (d : Int) ≠ 0)
  omega

/-- An offset with one component per dimension stays below the product of the extents. -/
theorem shift_lt_prod {dims : List Nat} (id : Nat) {offset : List Int}
    (hlength : offset.length = dims.length) (hdims : ∀ d ∈ dims, 0 < d ∧ d < Word.span64 / 2) :
    shift dims id offset < dims.foldr (· * ·) 1 := by
  induction dims generalizing id offset with
  | nil => simp [shift]
  | cons d ds ih =>
    cases offset with
    | nil => simp at hlength
    | cons o os =>
      obtain ⟨hpos, hd⟩ := hdims d List.mem_cons_self
      have hrest := ih (id / d) (Nat.succ.inj hlength) fun d' hd' =>
        hdims d' (List.mem_cons_of_mem d hd')
      have hwrap := wrap_lt (id % d) o hpos hd
      rw [shift, List.foldr_cons]
      calc wrap d (id % d) o + d * shift ds (id / d) os
          < d + d * shift ds (id / d) os := Nat.add_lt_add_right hwrap _
        _ = d * (shift ds (id / d) os + 1) := by rw [Nat.mul_succ, Nat.add_comm]
        _ ≤ d * ds.foldr (· * ·) 1 := Nat.mul_le_mul_left d hrest

namespace Extents

theorem prod_pos {dims : List Nat} (h : 0 ∉ dims) : 0 < dims.foldr (· * ·) 1 := by
  induction dims with
  | nil => exact Nat.one_pos
  | cons d ds ih =>
    rw [List.mem_cons, not_or] at h
    exact Nat.mul_pos (Nat.pos_of_ne_zero (Ne.symm h.1)) (ih h.2)

/-- No extent exceeds the number of elements. -/
theorem le_prod_of_mem {dims : List Nat} (h : 0 ∉ dims) {d : Nat} (hd : d ∈ dims) :
    d ≤ dims.foldr (· * ·) 1 := by
  induction dims with
  | nil => cases hd
  | cons d' ds ih =>
    rw [List.mem_cons, not_or] at h
    rw [List.foldr_cons]
    rcases List.mem_cons.1 hd with rfl | hd
    · exact Nat.le_mul_of_pos_right d (prod_pos h.2)
    · exact Nat.le_trans (ih h.2 hd)
        (Nat.le_mul_of_pos_left _ (Nat.pos_of_ne_zero (Ne.symm h.1)))

end Extents

/-- If stored numbers hold all elements, the extents are positive signed words. -/
theorem Extents.pos_and_lt (e : Extents) (hsize : e.size < Word.span32) :
    ∀ d ∈ e.dims, 0 < d ∧ d < Word.span64 / 2 := by
  intro d hd
  refine ⟨Nat.pos_of_ne_zero ?_, ?_⟩
  · rintro rfl
    exact e.zero_notMem hd
  · have hle : d ≤ e.size := Extents.le_prod_of_mem e.zero_notMem hd
    exact Nat.lt_trans (Nat.lt_of_le_of_lt hle hsize) (by decide)

/-- Every offset of the right length leads from element to element, for every number of elements
that fits a stored number. -/
theorem shift_lt_size (e : Extents) (id : Nat) {offset : List Int}
    (hlength : offset.length = e.dims.length) (hsize : e.size < Word.span32) :
    shift e.dims id offset < e.size :=
  shift_lt_prod id hlength (e.pos_and_lt hsize)

/-- Coordinates inside the extents are those of an element. -/
theorem id?_lt_prod {dims cs : List Nat} {id : Nat} (h : id? dims cs = some id) :
    id < dims.foldr (· * ·) 1 := by
  induction dims generalizing cs id with
  | nil =>
    cases cs with
    | nil =>
      cases h
      exact Nat.one_pos
    | cons => cases h
  | cons d ds ih =>
    cases cs with
    | nil => cases h
    | cons c cs =>
      rw [id?, Option.bind_eq_some_iff] at h
      obtain ⟨rest, hrest, h⟩ := h
      obtain ⟨hc, rfl⟩ : c < d ∧ c + d * rest = id := by simpa using h
      rw [List.foldr_cons]
      calc c + d * rest
          < d + d * rest := Nat.add_lt_add_right hc _
        _ = d * (rest + 1) := by rw [Nat.mul_succ, Nat.add_comm]
        _ ≤ d * ds.foldr (· * ·) 1 := Nat.mul_le_mul_left d (ih hrest)

/-! ## Shifts add up -/

/-- Moving by two components one after the other is moving by their sum. -/
theorem wrap_wrap {d : Nat} (c : Nat) (a b : Int) (hpos : 0 < d) (hd : d < Word.span64 / 2) :
    wrap d (wrap d c a) b = wrap d c (a + b) := by
  have hlt := wrap_lt c a hpos hd
  have hcast : (wrap d c a : Int) = (Word.signed64 c + a) % d := by
    rw [wrap, Word.signed64_eq_self hd]
    exact Int.toNat_of_nonneg (Int.emod_nonneg _ (by omega))
  rw [wrap_eq_emod b hd (Nat.lt_trans hlt hd), hcast, Int.emod_add_emod, Int.add_assoc, wrap,
    Word.signed64_eq_self hd]

theorem wrap_zero {d c : Nat} (hc : c < d) (hd : d < Word.span64 / 2) : wrap d c 0 = c := by
  rw [wrap_eq_emod 0 hd (Nat.lt_trans hc hd), Int.add_zero, Int.emod_eq_of_lt (by omega) (by omega)]
  rfl

/-- A shift moves the coordinate along the first axis. -/
theorem shift_cons_mod {d : Nat} (ds : List Nat) (id : Nat) (o : Int) (os : List Int)
    (hpos : 0 < d) (hd : d < Word.span64 / 2) :
    shift (d :: ds) id (o :: os) % d = wrap d (id % d) o := by
  rw [shift, Nat.add_mul_mod_self_left, Nat.mod_eq_of_lt (wrap_lt (id % d) o hpos hd)]

/-- The other coordinates are shifted by the other components. -/
theorem shift_cons_div {d : Nat} (ds : List Nat) (id : Nat) (o : Int) (os : List Int)
    (hpos : 0 < d) (hd : d < Word.span64 / 2) :
    shift (d :: ds) id (o :: os) / d = shift ds (id / d) os := by
  rw [shift, Nat.add_mul_div_left _ _ hpos, Nat.div_eq_of_lt (wrap_lt (id % d) o hpos hd),
    Nat.zero_add]

/-- Shifting by two offsets one after the other is shifting by their sum. -/
theorem shift_shift {dims : List Nat} (id : Nat) {a b : List Int} (ha : a.length = dims.length)
    (hb : b.length = dims.length) (hdims : ∀ d ∈ dims, 0 < d ∧ d < Word.span64 / 2) :
    shift dims (shift dims id a) b = shift dims id (List.zipWith (· + ·) a b) := by
  induction dims generalizing id a b with
  | nil => simp [shift]
  | cons d ds ih =>
    cases a with
    | nil => cases ha
    | cons o os =>
      cases b with
      | nil => cases hb
      | cons p ps =>
        obtain ⟨hpos, hd⟩ := hdims d List.mem_cons_self
        have hrest := ih (id / d) (Nat.succ.inj ha) (Nat.succ.inj hb) fun d' hd' =>
          hdims d' (List.mem_cons_of_mem d hd')
        calc shift (d :: ds) (shift (d :: ds) id (o :: os)) (p :: ps)
            = wrap d (wrap d (id % d) o) p + d * shift ds (shift ds (id / d) os) ps := by
              rw [shift, shift_cons_mod ds id o os hpos hd, shift_cons_div ds id o os hpos hd]
          _ = wrap d (id % d) (o + p) + d * shift ds (id / d) (List.zipWith (· + ·) os ps) := by
              rw [wrap_wrap _ _ _ hpos hd, hrest]

/-- The zero offset fixes every element. -/
theorem shift_zero {dims : List Nat} {id : Nat} (hid : id < dims.foldr (· * ·) 1)
    (hdims : ∀ d ∈ dims, 0 < d ∧ d < Word.span64 / 2) :
    shift dims id (List.replicate dims.length 0) = id := by
  induction dims generalizing id with
  | nil =>
    have hzero : id = 0 := by simpa using hid
    rw [hzero]
    rfl
  | cons d ds ih =>
    obtain ⟨hpos, hd⟩ := hdims d List.mem_cons_self
    have hquotient : id / d < ds.foldr (· * ·) 1 := Nat.div_lt_of_lt_mul hid
    rw [List.length_cons, List.replicate_succ, shift, wrap_zero (Nat.mod_lt id hpos) hd,
      ih hquotient fun d' hd' => hdims d' (List.mem_cons_of_mem d hd'), Nat.mod_add_div]

/-- The negated offset leads back. -/
theorem shift_neg {dims : List Nat} {id : Nat} {offset : List Int}
    (hlength : offset.length = dims.length) (hid : id < dims.foldr (· * ·) 1)
    (hdims : ∀ d ∈ dims, 0 < d ∧ d < Word.span64 / 2) :
    shift dims (shift dims id offset) (offset.map fun c => -c) = id := by
  have hsum : List.zipWith (· + ·) offset (offset.map fun c => -c) =
      List.replicate dims.length 0 := by
    rw [List.zipWith_map_right, List.zipWith_self, ← hlength]
    simp only [Int.add_right_neg, List.map_const']
  rw [shift_shift id hlength (by rw [List.length_map, hlength]) hdims, hsum, shift_zero hid hdims]

end MeshPath.Lattice
