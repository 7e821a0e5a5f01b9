import Mathlib.Data.List.Forall2
import MeshPath.Proofs.Lattice.Coordinates

/-!
# Numbers and coordinates

Over positive extents, the numbers below the product of the extents and the coordinates inside them
are in bijection. Numbers past the product have the coordinates of their remainder.

* `exists_id?_iff_forall₂`: coordinates have a number exactly if each lies below its extent.
* `coords_mod`: coordinates repeat with the product of the extents.
* `recordedId?`: the numbering with a record of the products and sums that it forms.
  `lt_of_mem_recordedId?`: they stay below the product of the extents that are not zero, so that
  machine words hold them.
* `id?_coords_bijection`: these facts together.
-/

namespace MeshPath.Lattice

variable {dims cs : List Nat} {id t : Nat}

/-- Coordinates have a number exactly if each lies below its extent. -/
theorem exists_id?_iff_forall₂ : (∃ id, id? dims cs = some id) ↔ List.Forall₂ (· < ·) cs dims := by
  induction dims generalizing cs with
  | nil => cases cs <;> simp [id?]
  | cons d ds ih =>
    cases cs with
    | nil => simp [id?]
    | cons c cs =>
      rw [List.forall₂_cons, ← ih, id?]
      cases id? ds cs with
      | none => simp
      | some rest => by_cases hc : c < d <;> simp [hc]

/-- No coordinate lies below a zero extent. -/
theorem zero_notMem_of_forall₂ (h : List.Forall₂ (· < ·) cs dims) : 0 ∉ dims := by
  induction h with
  | nil => exact List.not_mem_nil
  | cons hc _ ih =>
    rw [List.mem_cons, not_or]
    exact ⟨Nat.ne_of_lt (Nat.zero_lt_of_lt hc), ih⟩

/-- Coordinates repeat with the product of the extents. -/
theorem coords_mod (dims : List Nat) (id : Nat) :
    coords dims (id % dims.foldr (· * ·) 1) = coords dims id := by
  induction dims generalizing id with
  | nil => rfl
  | cons d ds ih =>
    rw [List.foldr_cons, coords, coords, Nat.mod_mul_right_mod, Nat.mod_mul_right_div_self, ih]

/-! ## Intermediate values -/

/-- The product of the extents that are not zero. -/
def nonzeroProd (dims : List Nat) : Nat := (dims.filter (· ≠ 0)).foldr (· * ·) 1

/-- Without a zero extent, the product leaves nothing out. -/
theorem nonzeroProd_eq_prod (h : 0 ∉ dims) : nonzeroProd dims = dims.foldr (· * ·) 1 := by
  have hne : ∀ d ∈ dims, decide (d ≠ 0) = true := by
    rintro d hd
    exact decide_eq_true (ne_of_mem_of_not_mem hd h)
  rw [nonzeroProd, List.filter_eq_self.2 hne]

theorem nonzeroProd_cons_of_pos {d : Nat} (ds : List Nat) (hd : 0 < d) :
    nonzeroProd (d :: ds) = d * nonzeroProd ds := by
  rw [nonzeroProd, List.filter_cons, if_pos (decide_eq_true (Nat.ne_of_gt hd))]
  rfl

theorem nonzeroProd_le_cons (d : Nat) (ds : List Nat) : nonzeroProd ds ≤ nonzeroProd (d :: ds) := by
  rcases Nat.eq_zero_or_pos d with rfl | hd
  · exact Nat.le_refl _
  · rw [nonzeroProd_cons_of_pos ds hd]
    exact Nat.le_mul_of_pos_left _ hd

/-- The numbering with a record of the products and sums that it forms, from the slowest axis to
the fastest. The first coordinate outside its extent ends the run. -/
def recordedId? : List Nat → List Nat → Option Nat × List Nat
  | [], [] => (some 0, [])
  | d :: ds, c :: cs =>
    match recordedId? ds cs with
    | (some rest, terms) =>
      if c < d then (some (c + d * rest), terms ++ [d * rest, c + d * rest]) else (none, terms)
    | (none, terms) => (none, terms)
  | _, _ => (none, [])

/-- Without its record, this is the numbering. -/
theorem fst_recordedId? (dims cs : List Nat) : (recordedId? dims cs).1 = id? dims cs := by
  fun_induction id? dims cs with
  | case1 => rfl
  | case2 d ds c cs ih =>
    rw [recordedId?, ← ih]
    rcases recordedId? ds cs with ⟨_ | rest, terms⟩
    · rfl
    · by_cases hc : c < d <;> simp [hc]
  | case3 => simp [recordedId?, *]

/-- The products and sums stay below the product of the extents that are not zero, also when some
coordinate is refused. -/
theorem lt_of_mem_recordedId? (h : t ∈ (recordedId? dims cs).2) : t < nonzeroProd dims := by
  fun_induction recordedId? dims cs with
  | case1 => cases h
  | case2 d ds c cs rest terms hrec hc ih =>
    rw [hrec] at ih
    have hnumber : id? ds cs = some rest := by rw [← fst_recordedId?, hrec]
    have hzero := zero_notMem_of_forall₂ (exists_id?_iff_forall₂.1 ⟨rest, hnumber⟩)
    have hrest : rest < nonzeroProd ds := by
      rw [nonzeroProd_eq_prod hzero]
      exact id?_lt_prod hnumber
    -- The last sum is the greatest of all, and it is the number of the coordinates.
    have hsum : c + d * rest < nonzeroProd (d :: ds) := by
      rw [nonzeroProd_cons_of_pos ds (Nat.zero_lt_of_lt hc)]
      calc c + d * rest
          < d + d * rest := Nat.add_lt_add_right hc _
        _ = d * (rest + 1) := by rw [Nat.mul_succ, Nat.add_comm]
        _ ≤ d * nonzeroProd ds := Nat.mul_le_mul_left d hrest
    rcases List.mem_append.1 h with hearlier | hlast
    · exact Nat.lt_of_lt_of_le (ih hearlier) (nonzeroProd_le_cons d ds)
    · simp only [List.mem_cons, List.not_mem_nil, or_false] at hlast
      omega
  | case3 d ds c cs rest terms hrec hc ih =>
    rw [hrec] at ih
    exact Nat.lt_of_lt_of_le (ih h) (nonzeroProd_le_cons d ds)
  | case4 d ds c cs terms hrec ih =>
    rw [hrec] at ih
    exact Nat.lt_of_lt_of_le (ih h) (nonzeroProd_le_cons d ds)
  | case5 => cases h

/-! ## The bijection -/

/-- If machine words hold the product of the extents that are not zero, they hold all values on the
way to a number. Over positive extents, exactly the coordinates inside them have a number. It lies
below the product of the extents, like all values on the way to it, and has the given coordinates.
Every number below the product is that of its coordinates, and every number has the coordinates of
its remainder. With a zero among the extents, no coordinates have a number. -/
theorem id?_coords_bijection (hwords : nonzeroProd dims < Word.span64) :
    (∀ cs, (recordedId? dims cs).1 = id? dims cs ∧
      ∀ t ∈ (recordedId? dims cs).2, t < Word.span64) ∧
    ((∀ d ∈ dims, 0 < d) →
      nonzeroProd dims = dims.foldr (· * ·) 1 ∧
      (∀ cs, (∃ id, id? dims cs = some id) ↔ List.Forall₂ (· < ·) cs dims) ∧
      (∀ cs id, id? dims cs = some id → id < dims.foldr (· * ·) 1 ∧ coords? dims id = some cs ∧
        ∀ t ∈ (recordedId? dims cs).2, t ≤ dims.foldr (· * ·) 1 - 1) ∧
      (∀ id < dims.foldr (· * ·) 1, id? dims (coords dims id) = some id) ∧
      ∀ id, coords? dims id = some (coords dims id) ∧
        coords dims id = coords dims (id % dims.foldr (· * ·) 1)) ∧
    (0 ∈ dims → ∀ cs, id? dims cs = none) := by
  refine ⟨fun cs => ⟨fst_recordedId? dims cs, fun t ht => ?_⟩, fun hpos => ?_, fun hzero cs => ?_⟩
  · exact Nat.lt_trans (lt_of_mem_recordedId? ht) hwords
  · have hzero : 0 ∉ dims := fun h => Nat.lt_irrefl 0 (hpos 0 h)
    have hprod := nonzeroProd_eq_prod hzero
    have hcoords : ∀ id, coords? dims id = some (coords dims id) := fun id => if_neg hzero
    refine ⟨hprod, fun cs => exists_id?_iff_forall₂, fun cs id hid => ?_, fun id hid => ?_,
      fun id => ⟨hcoords id, (coords_mod dims id).symm⟩⟩
    · refine ⟨id?_lt_prod hid, ?_, fun t ht => ?_⟩
      · rw [hcoords, coords_of_id? hid]
      · rw [← hprod]
        exact Nat.le_sub_one_of_lt (lt_of_mem_recordedId? ht)
    · exact id?_coords hid
  · cases hid : id? dims cs with
    | none => rfl
    | some id => exact absurd hzero (zero_notMem_of_forall₂ (exists_id?_iff_forall₂.1 ⟨id, hid⟩))

/-- Four by one by `2 ^ 61` elements, the last of them and a number past them, and no elements where
the middle extent is zero. -/
theorem id?_coords_bijection_wide :
    id? [4, 1, 2 ^ 61] [3, 0, 2 ^ 61 - 1] = some (2 ^ 63 - 1) ∧
      coords [4, 1, 2 ^ 61] (2 ^ 63 - 1) = [3, 0, 2 ^ 61 - 1] ∧
      coords [4, 1, 2 ^ 61] (2 ^ 63 + 5) = coords [4, 1, 2 ^ 61] 5 ∧
      (∀ t ∈ (recordedId? [4, 1, 2 ^ 61] [3, 0, 2 ^ 61 - 1]).2, t ≤ 2 ^ 63 - 1) ∧
      id? [4, 0, 2 ^ 61] [3, 0, 2 ^ 61 - 1] = none := by
  obtain ⟨-, hbijection, -⟩ := @id?_coords_bijection [4, 1, 2 ^ 61] (by decide)
  obtain ⟨-, -, hnumber, -, hrepeat⟩ := hbijection (by decide)
  obtain ⟨-, -, hnone⟩ := @id?_coords_bijection [4, 0, 2 ^ 61] (by decide)
  have hid : id? [4, 1, 2 ^ 61] [3, 0, 2 ^ 61 - 1] = some (2 ^ 63 - 1) := by decide
  obtain ⟨-, hcoords, hterms⟩ := hnumber _ _ hid
  exact ⟨hid, Option.some.inj hcoords, (hrepeat (2 ^ 63 + 5)).2, hterms, hnone (by decide) _⟩

end MeshPath.Lattice
