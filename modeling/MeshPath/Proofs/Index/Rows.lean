import Mathlib.Algebra.GroupWithZero.Nat
import MeshPath.Index.PathIndex

/-!
# Rows of indices

The rows that a segmented index gives back are those that it was made from.

* `row_ofRows`: the rows of an index from a list of rows.
* `ofWidth_eq_ofRows_iff`: which rows an array of sinks of one width stores.
* `PathIndex.HasRows`: an index has the given rows, and it counts their sinks.
  `hasRows_ofRows_map` and `hasRows_ofWidth` say so for the two ways in which compressed rows are
  stored.
* `PathIndex.TellsWidth`: the width that an index reports is the length of its rows.
-/

namespace MeshPath

/-- A row that is ascending stays as it is. -/
theorem Row.sort_eq_self {row : List Nat} (h : row.Pairwise (· ≤ ·)) : sort row = row :=
  (perm_sort row).eq_of_pairwise (fun _ _ _ _ => Nat.le_antisymm) (pairwise_sort row) h

namespace Segmented

/-- A row is what stands between its two offsets. -/
theorem row_eq {s : Segmented} {i start stop : Nat} (hstart : s.coords[i]? = some start)
    (hstop : s.coords[i + 1]? = some stop) :
    s.row i = (s.sinks.toList.drop start).take (stop - start) := by
  rw [row, hstart, hstop]
  simp only [Array.toList_extract, List.extract_eq_take_drop]

theorem row_eq_nil {s : Segmented} {i : Nat} (h : s.coords[i + 1]? = none) : s.row i = [] := by
  rw [row, h]
  cases s.coords[i]? <;> rfl

/-- The offset of a row is the number of sinks before it. -/
theorem getElem?_offsets (start : Nat) (rows : List (List Nat)) (i : Nat) :
    (offsets start rows)[i]? =
      if i ≤ rows.length then some (start + (rows.take i).flatten.length) else none := by
  induction rows generalizing start i with
  | nil => cases i <;> simp [offsets]
  | cons row rows ih =>
    cases i with
    | zero => simp [offsets]
    | succ i => simp [offsets, ih, Nat.add_assoc]

/-- A row stands between the ends of the rows before it and of itself. -/
theorem take_drop_flatten {rows : List (List Nat)} {i : Nat} (h : i < rows.length) :
    (rows.flatten.drop (rows.take i).flatten.length).take rows[i].length = rows[i] := by
  have hsplit : rows.flatten =
      (rows.take i).flatten ++ (rows[i] ++ (rows.drop (i + 1)).flatten) := by
    rw [← List.flatten_cons, ← List.flatten_append, List.getElem_cons_drop, List.take_append_drop]
  rw [hsplit, List.drop_left, List.take_left]

/-- The sinks up to a row are those before it and its own. -/
theorem length_flatten_take_succ {rows : List (List Nat)} {i : Nat} (h : i < rows.length) :
    (rows.take (i + 1)).flatten.length = (rows.take i).flatten.length + rows[i].length := by
  rw [List.take_succ_eq_append_getElem h, List.flatten_append, List.length_append,
    List.flatten_singleton]

/-- Every offset is the number of sinks before a row. -/
theorem getElem?_coords_ofRows (rows : List (List Nat)) (i : Nat) :
    (ofRows rows).coords[i]? =
      if i ≤ rows.length then some (rows.take i).flatten.length else none := by
  rw [ofRows, List.getElem?_toArray, getElem?_offsets, Nat.zero_add]

/-- An index gives back the rows that it was made from, and nothing past them. -/
theorem row_ofRows (rows : List (List Nat)) (i : Nat) :
    (ofRows rows).row i = rows[i]?.getD [] := by
  have hstop := getElem?_coords_ofRows rows (i + 1)
  by_cases h : i < rows.length
  -- The offsets of the row are the sinks before it and the sinks before the next one.
  · have hstart := getElem?_coords_ofRows rows i
    rw [if_pos (Nat.le_of_lt h)] at hstart
    rw [if_pos (Nat.succ_le_of_lt h), length_flatten_take_succ h] at hstop
    rw [row_eq hstart hstop, Nat.add_sub_cancel_left, List.getElem?_eq_getElem h]
    exact take_drop_flatten h
  -- After the last row there is no offset at which it could end.
  · rw [if_neg (by omega)] at hstop
    rw [row_eq_nil hstop, List.getElem?_eq_none (Nat.le_of_not_lt h)]
    rfl

/-- A width is recorded exactly if there is a row and all rows have this length. -/
theorem uniformWidth_eq_some_iff {rows : List (List Nat)} {w : Nat} :
    uniformWidth rows = some w ↔ 0 < rows.length ∧ ∀ row ∈ rows, row.length = w := by
  cases rows with
  | nil => simp [uniformWidth]
  | cons row rows =>
    -- The other rows are compared with the first one.
    have hall : (rows.all (·.length = row.length) = true) ↔
        ∀ r ∈ rows, r.length = row.length := by simp
    rw [uniformWidth, List.forall_mem_cons, List.length_cons,
      and_iff_right (Nat.zero_lt_succ rows.length)]
    constructor
    · intro h
      split at h
      · next hsame =>
        obtain rfl := Option.some.inj h
        exact ⟨rfl, hall.1 hsame⟩
      · cases h
    · rintro ⟨rfl, hsame⟩
      exact if_pos (hall.2 hsame)

/-! ## Rows of one width -/

section Width

variable {rows : List (List Nat)} {n width : Nat} {sinks : List Nat}

theorem length_flatten_of_width (h : ∀ row ∈ rows, row.length = width) :
    rows.flatten.length = rows.length * width := by
  induction rows with
  | nil => simp
  | cons row rows ih =>
    rw [List.flatten_cons, List.length_append, h row List.mem_cons_self,
      ih fun r hr => h r (List.mem_cons_of_mem row hr), List.length_cons, Nat.succ_mul,
      Nat.add_comm]

theorem length_flatten_take_of_width (h : ∀ row ∈ rows, row.length = width) {i : Nat}
    (hi : i ≤ rows.length) : (rows.take i).flatten.length = i * width := by
  rw [length_flatten_of_width fun row hrow => h row (List.mem_of_mem_take hrow), List.length_take,
    Nat.min_eq_left hi]

/-- Running lengths of rows of one width are multiples of it. -/
theorem offsets_of_width (h : ∀ row ∈ rows, row.length = width) (start : Nat) :
    offsets start rows = (List.range (rows.length + 1)).map (start + · * width) := by
  induction rows generalizing start with
  | nil => simp [offsets]
  | cons row rows ih =>
    -- The rows after the first one start a width later.
    have hrest : offsets (start + width) rows =
        (List.range (rows.length + 1)).map (start + width + · * width) :=
      ih (fun r hr => h r (List.mem_cons_of_mem row hr)) (start + width)
    rw [offsets, h row List.mem_cons_self, hrest, List.length_cons,
      List.range_succ_eq_map (n := rows.length + 1), List.map_cons, List.map_map, Nat.zero_mul,
      Nat.add_zero]
    refine congrArg (start :: ·) (List.map_congr_left fun i _ => ?_)
    rw [Function.comp_apply, Nat.succ_mul, Nat.add_comm (i * width), Nat.add_assoc]

/-- Rows of one width have this uniform width, unless there are none. -/
theorem uniformWidth_of_width (h : ∀ row ∈ rows, row.length = width) :
    uniformWidth rows = if 0 < rows.length then some width else none := by
  split
  · next hrow => exact uniformWidth_eq_some_iff.2 ⟨hrow, h⟩
  · next hrow =>
    rw [List.length_eq_zero_iff.1 (Nat.eq_zero_of_not_pos hrow)]
    rfl

/-- An array of sinks of one width stores the rows that all have this width, and that are the
array one after another. -/
theorem ofWidth_eq_ofRows_iff : ofWidth n width sinks = ofRows rows ↔
    rows.length = n ∧ (∀ row ∈ rows, row.length = width) ∧ rows.flatten = sinks := by
  constructor
  · intro h
    have hcount : rows.length = n := by
      rw [← numElements_ofRows rows, ← h, numElements_ofWidth]
    have hsinks : sinks = rows.flatten := by
      simpa [ofWidth, ofRows] using congrArg Segmented.sinks h
    -- An offset is a multiple of the width on one side and a number of sinks on the other.
    have hstart : ∀ i ≤ rows.length, (rows.take i).flatten.length = i * width := by
      intro i hi
      have hcoords := getElem?_coords_ofRows rows i
      rw [if_pos hi, ← h, ofWidth, List.getElem?_toArray, List.getElem?_map,
        List.getElem?_range (by omega)] at hcoords
      exact (Option.some.inj hcoords).symm
    refine ⟨hcount, List.forall_mem_iff_forall_getElem.2 fun i hi => ?_, hsinks.symm⟩
    -- The row lies between two adjacent multiples of the width.
    have hnext := length_flatten_take_succ hi
    rw [hstart (i + 1) hi, hstart i (Nat.le_of_lt hi), Nat.succ_mul] at hnext
    exact (Nat.add_left_cancel hnext).symm
  · rintro ⟨rfl, hwidth, rfl⟩
    rw [ofWidth, ofRows, offsets_of_width hwidth, uniformWidth_of_width hwidth]
    simp only [Nat.zero_add]

end Width

end Segmented

namespace PathIndex

/-! ## Indices with given rows -/

/-- The index has the elements below `n`, the row of each of them is that of `f`, and it counts
the sinks of these rows. -/
structure HasRows (index : PathIndex) (n : Nat) (f : Nat → List Nat) : Prop where
  numElements_eq : index.numElements = n
  row_eq : ∀ e, index.row e = if e < n then f e else []
  numNeighbors_eq : index.numNeighbors = ((List.range n).map fun e => (f e).length).sum

variable {index : PathIndex} {n width : Nat} {f g : Nat → List Nat}

theorem HasRows.congr (h : index.HasRows n f) (hfg : ∀ e < n, f e = g e) : index.HasRows n g where
  numElements_eq := h.numElements_eq
  row_eq e := by
    rw [h.row_eq]
    split
    · next he => rw [hfg e he]
    · rfl
  numNeighbors_eq := by
    rw [h.numNeighbors_eq]
    congr 1
    exact List.map_congr_left fun e he => by rw [hfg e (List.mem_range.1 he)]

/-- The number of all sinks is the sum of the numbers of sinks of the elements. -/
theorem HasRows.numNeighbors_eq_sum (h : index.HasRows n f) :
    index.numNeighbors = ((List.range index.numElements).map index.numNeighborsOf).sum := by
  rw [h.numNeighbors_eq, h.numElements_eq]
  congr 1
  refine List.map_congr_left fun e he => ?_
  rw [numNeighborsOf, h.row_eq, if_pos (List.mem_range.1 he)]

/-- If stored numbers hold the elements, the rows of an index are listed element by element. -/
theorem HasRows.rows_eq (h : index.HasRows n f) (hn : n < Word.span32) :
    index.rows = (List.range n).map f := by
  rw [rows, elements, h.numElements_eq, Word.low32_eq_self hn]
  refine List.map_congr_left fun e he => ?_
  rw [h.row_eq, if_pos (List.mem_range.1 he)]

/-- An index that was made from its rows has them. -/
theorem hasRows_ofRows_map (n : Nat) (f : Nat → List Nat) :
    (segmented (.ofRows ((List.range n).map f))).HasRows n f where
  numElements_eq := by simp [numElements]
  row_eq e := by
    rw [row, Segmented.row_ofRows, List.getElem?_map]
    split
    · next he =>
      rw [List.getElem?_range he]
      rfl
    · next he =>
      rw [List.getElem?_eq_none (by simpa using he)]
      rfl
  numNeighbors_eq := by
    rw [numNeighbors, Segmented.numNeighbors_ofRows, List.length_flatten, List.map_map]
    rfl

/-- An index that stores rows of one width one after another has them. -/
theorem hasRows_ofWidth (hf : ∀ e < n, (f e).length = width) :
    (segmented (.ofWidth n width ((List.range n).flatMap f))).HasRows n f := by
  have hwidth : ∀ row ∈ (List.range n).map f, row.length = width := by
    intro row hrow
    obtain ⟨e, he, rfl⟩ := List.mem_map.1 hrow
    exact hf e (List.mem_range.1 he)
  have hstored : Segmented.ofWidth n width ((List.range n).flatMap f) =
      .ofRows ((List.range n).map f) :=
    Segmented.ofWidth_eq_ofRows_iff.2 ⟨by simp, hwidth, List.flatMap_def.symm⟩
  rw [hstored]
  exact hasRows_ofRows_map n f

/-! ## Widths -/

/-- The width that the index reports is the length of its rows. It reports one exactly if it has a
row and all its rows have one length. -/
def TellsWidth (index : PathIndex) : Prop :=
  ∀ w, index.rowWidth = some w ↔
    0 < index.numElements ∧ ∀ e < index.numElements, (index.row e).length = w

/-- Indices with the same rows tell the same width. -/
theorem TellsWidth.rowWidth_eq {index' : PathIndex} (h : index.TellsWidth) (h' : index'.TellsWidth)
    (hn : index.numElements = index'.numElements) (hrow : ∀ e, index.row e = index'.row e) :
    index.rowWidth = index'.rowWidth := by
  refine Option.ext fun w => ?_
  rw [h, h', hn]
  simp only [hrow]

/-- An index that was made from its rows tells their width. -/
theorem tellsWidth_ofRows (rows : List (List Nat)) : (segmented (.ofRows rows)).TellsWidth := by
  intro w
  have hrow : ∀ e (he : e < rows.length), (segmented (.ofRows rows)).row e = rows[e] := by
    intro e he
    rw [row, Segmented.row_ofRows, List.getElem?_eq_getElem he]
    rfl
  have hwidth : (segmented (.ofRows rows)).rowWidth = Segmented.uniformWidth rows := rfl
  have hcount : (segmented (.ofRows rows)).numElements = rows.length :=
    Segmented.numElements_ofRows rows
  rw [hwidth, Segmented.uniformWidth_eq_some_iff, hcount, List.forall_mem_iff_forall_getElem]
  refine and_congr_right fun _ => forall₂_congr fun e he => ?_
  rw [hrow e he]

/-- An index with rows of one width tells it exactly if it reports this width, and no width where it
has no row. -/
theorem HasRows.tellsWidth_iff (h : index.HasRows n f) (hf : ∀ e < n, (f e).length = width) :
    index.TellsWidth ↔ index.rowWidth = if 0 < n then some width else none := by
  have hlength : ∀ e < n, (index.row e).length = width := by
    intro e he
    rw [h.row_eq, if_pos he, hf e he]
  rw [TellsWidth, Option.ext_iff, h.numElements_eq]
  refine forall_congr' fun w => iff_congr Iff.rfl ?_
  by_cases hn : 0 < n
  · rw [if_pos hn, and_iff_right hn, Option.some_inj]
    -- All rows have the length of the first one.
    constructor
    · intro hw
      exact (hlength 0 hn).symm.trans (hw 0 hn)
    · rintro rfl
      exact hlength
  · simp [hn]

end PathIndex

end MeshPath
