import Mathlib.Data.List.Perm.Basic
import MeshPath.Proofs.Index.Rows

/-!
# Packing rows

Compressed rows give every row back from the two offsets that enclose it. Packing deposits entries
one after another, and comes to the index whose rows collect the sinks of each element.

* `Segmented.gathered`: the sinks of an element among entries. `deposit_deposited` says what one
  deposit does to these rows, and `foldlM_deposit` what a run of deposits comes to.
* `pack_eq`: what packing gives, an index or an error. `pack_eq_of_perm`: with sorted rows, the
  order of the entries does not choose the index.
* `hasRows_of_pack`: the rows of a packed index.
* `Segmented.Stores`: the rows are read back from the offsets and sinks of an index, and
  `Stores.eq_of_coords_eq`: these determine them.
* `fromRows_pack_roundTrip`: both ways to store rows.
* `Segmented.pieces`: the consecutive pieces of an array of sinks. `ofWidth_eq_fromRows_pieces`:
  they are the rows of the index that stores the array by its width.
-/

namespace MeshPath

/-- A sorted row is known by its members. -/
theorem Row.sort_eq_sort_of_perm {row row' : List Nat} (h : row.Perm row') :
    sort row = sort row' := by
  have hperm : (sort row).Perm (sort row') := ((perm_sort row).trans h).trans (perm_sort row').symm
  exact hperm.eq_of_pairwise (fun _ _ _ _ => Nat.le_antisymm) (pairwise_sort row)
    (pairwise_sort row')

namespace Segmented

variable {n : Nat} {rows : List (List Nat)} {entries entries' : List (Nat × List Nat)}
  {sorted : Bool}

/-! ## Deposits -/

/-- The row of `element` that `entries` spell out: their sinks for this element in entry order. -/
def gathered (entries : List (Nat × List Nat)) (element : Nat) : List Nat :=
  (entries.filter (·.1 = element)).flatMap (·.2)

/-- One more entry adds its sinks at the end of one row. -/
theorem gathered_append_singleton (entries : List (Nat × List Nat)) (entry : Nat × List Nat)
    (element : Nat) :
    gathered (entries ++ [entry]) element =
      if entry.1 = element then gathered entries element ++ entry.2
      else gathered entries element := by
  rw [gathered, List.filter_append, List.flatMap_append]
  by_cases h : entry.1 = element <;> simp [gathered, h]

/-- In another order, the entries give the same sinks for each element. -/
theorem gathered_perm (h : entries.Perm entries') (element : Nat) :
    (gathered entries element).Perm (gathered entries' element) :=
  (h.filter _).flatMap_right _

/-- The rows of `n` elements after the deposits `done`. -/
def deposited (n : Nat) (done : List (Nat × List Nat)) : Array (List Nat) :=
  ((List.range n).map (gathered done)).toArray

@[simp]
theorem size_deposited (n : Nat) (done : List (Nat × List Nat)) : (deposited n done).size = n := by
  simp [deposited]

theorem deposited_nil (n : Nat) : deposited n [] = Array.replicate n [] := by
  ext i hi hi'
  · simp
  · simp [deposited, gathered]

/-- A deposit goes to the row of its element and to no other row. -/
theorem deposit_deposited (done : List (Nat × List Nat)) (entry : Nat × List Nat) :
    deposit (deposited n done) entry =
      if entry.1 < n then .ok (deposited n (done ++ [entry]))
      else .error (.elementOutOfRange entry.1 n) := by
  rw [deposit, size_deposited]
  split
  · refine congrArg Except.ok ?_
    ext i hi hi'
    · simp
    · simp only [Array.getElem_modify, deposited, List.getElem_toArray, List.getElem_map,
        List.getElem_range, gathered_append_singleton]
  · rfl

/-- A run of deposits ends at the first entry without a row. -/
theorem foldlM_deposit (done entries : List (Nat × List Nat)) :
    entries.foldlM deposit (deposited n done) =
      match entries.find? (n ≤ ·.1) with
      | some entry => .error (.elementOutOfRange entry.1 n)
      | none => .ok (deposited n (done ++ entries)) := by
  induction entries generalizing done with
  | nil =>
    rw [List.append_nil]
    rfl
  | cons entry entries ih =>
    rw [List.foldlM_cons, deposit_deposited]
    by_cases h : entry.1 < n
    · rw [if_pos h, List.find?_cons_of_neg (by simpa using h)]
      show entries.foldlM deposit (deposited n (done ++ [entry])) = _
      rw [ih, List.append_assoc, List.singleton_append]
    · rw [if_neg h, List.find?_cons_of_pos (by simpa using h)]
      rfl

/-! ## Packed rows -/

/-- Packing gives the index whose rows collect the sinks of each element, unless some entry is for
an element outside the index. The first such entry is reported. -/
theorem pack_eq (n : Nat) (entries : List (Nat × List Nat)) (sorted : Bool) :
    pack n entries sorted =
      match entries.find? (n ≤ ·.1) with
      | some entry => .error (.elementOutOfRange entry.1 n)
      | none => .ok (fromRows ((List.range n).map (gathered entries)) sorted) := by
  rw [pack, ← deposited_nil, foldlM_deposit]
  cases entries.find? (n ≤ ·.1) <;> rfl

/-- No entry is reported exactly if all of them are for elements of the index. -/
theorem find?_eq_none_iff_forall_lt :
    entries.find? (n ≤ ·.1) = none ↔ ∀ entry ∈ entries, entry.1 < n := by
  simp [List.find?_eq_none]

/-- Entries for elements of the index are packed. -/
theorem pack_eq_ok (sorted : Bool) (h : ∀ entry ∈ entries, entry.1 < n) :
    pack n entries sorted = .ok (fromRows ((List.range n).map (gathered entries)) sorted) := by
  rw [pack_eq, find?_eq_none_iff_forall_lt.2 h]

/-- If packing succeeds, all entries are for elements of the index. -/
theorem forall_lt_of_pack {s : Segmented} (h : pack n entries sorted = .ok s) :
    ∀ entry ∈ entries, entry.1 < n := by
  rw [pack_eq] at h
  split at h
  · cases h
  · next hnone => exact find?_eq_none_iff_forall_lt.1 hnone

/-- With sorted rows, the order of the entries does not choose the index. -/
theorem pack_eq_of_perm (h : entries.Perm entries') {s : Segmented}
    (hpack : pack n entries true = .ok s) : pack n entries' true = .ok s := by
  have hrange := forall_lt_of_pack hpack
  have hrange' : ∀ entry ∈ entries', entry.1 < n := fun entry hentry =>
    hrange entry (h.mem_iff.2 hentry)
  rw [pack_eq_ok true hrange] at hpack
  rw [pack_eq_ok true hrange', ← hpack, fromRows, fromRows, if_pos rfl, if_pos rfl,
    List.map_map, List.map_map]
  congr 2
  exact List.map_congr_left fun e _ => Row.sort_eq_sort_of_perm (gathered_perm h.symm e)

/-! ## Compressed rows -/

/-- The index stores `rows`: the offsets start at zero and end at the number of sinks, they are
numbers that fit a stored word, any two adjacent ones enclose a slice of the sinks, and each row is
read back from its slice. There is no other row. -/
structure Stores (s : Segmented) (rows : List (List Nat)) : Prop where
  size_coords : s.coords.size = rows.length + 1
  first : s.coords[0]? = some 0
  last : s.coords[rows.length]? = some s.numNeighbors
  numNeighbors_eq : s.numNeighbors = rows.flatten.length
  size_sinks : s.sinks.size = rows.flatten.length
  word : ∀ c ∈ s.coords, Word.low32 c = c
  slice : ∀ {i start stop : Nat}, s.coords[i]? = some start → s.coords[i + 1]? = some stop →
    start ≤ stop ∧ stop ≤ s.sinks.size
  row_eq : ∀ i, s.row i = rows[i]?.getD []

theorem length_flatten_take_le (rows : List (List Nat)) {i j : Nat} (h : i ≤ j) :
    (rows.take i).flatten.length ≤ (rows.take j).flatten.length := by
  obtain ⟨later, hlater⟩ := List.take_prefix_take_left (l := rows) h
  rw [← hlater, List.flatten_append, List.length_append]
  exact Nat.le_add_right _ _

/-- No offset lies past the sinks. -/
theorem le_of_getElem?_coords {i c : Nat} (h : (ofRows rows).coords[i]? = some c) :
    i ≤ rows.length ∧ c = (rows.take i).flatten.length ∧ c ≤ rows.flatten.length := by
  rw [getElem?_coords_ofRows] at h
  split at h
  · next hi =>
    cases h
    have hle := length_flatten_take_le rows hi
    rw [List.take_length] at hle
    exact ⟨hi, rfl, hle⟩
  · cases h

/-- Rows with fewer sinks than there are stored numbers are stored as they are. -/
theorem stores_ofRows (hsmall : rows.flatten.length < Word.span32) :
    (ofRows rows).Stores rows where
  size_coords := by simp [ofRows]
  first := by
    rw [getElem?_coords_ofRows]
    rfl
  last := by
    rw [getElem?_coords_ofRows, if_pos (Nat.le_refl _), List.take_length, numNeighbors_ofRows]
  numNeighbors_eq := numNeighbors_ofRows rows
  size_sinks := numNeighbors_ofRows rows
  word := by
    intro c hc
    obtain ⟨i, hi⟩ := Array.mem_iff_getElem?.1 hc
    obtain ⟨-, -, hle⟩ := le_of_getElem?_coords hi
    exact Word.low32_eq_self (Nat.lt_of_le_of_lt hle hsmall)
  slice := by
    intro i start stop hstart hstop
    obtain ⟨-, rfl, -⟩ := le_of_getElem?_coords hstart
    obtain ⟨-, rfl, hle⟩ := le_of_getElem?_coords hstop
    exact ⟨length_flatten_take_le rows (Nat.le_succ i), by simpa [ofRows] using hle⟩
  row_eq := row_ofRows rows

/-- Sorting neither adds nor loses a sink. -/
theorem length_flatten_map_sort (rows : List (List Nat)) :
    (rows.map Row.sort).flatten.length = rows.flatten.length := by
  rw [List.length_flatten, List.length_flatten, List.map_map]
  exact congrArg List.sum (List.map_congr_left fun row _ => (Row.perm_sort row).length_eq)

/-- The offsets and the sinks determine the rows. -/
theorem Stores.eq_of_coords_eq {s s' : Segmented} {rows' : List (List Nat)} (h : s.Stores rows)
    (h' : s'.Stores rows') (hcoords : s.coords = s'.coords) (hsinks : s.sinks = s'.sinks) :
    rows = rows' := by
  have hlength : rows.length = rows'.length := by
    have hsize := h.size_coords
    rw [hcoords, h'.size_coords] at hsize
    exact (Nat.succ.inj hsize).symm
  refine List.ext_getElem hlength fun i hi hi' => ?_
  have hrow : s.row i = s'.row i := by
    rw [row, row, hcoords, hsinks]
  rw [h.row_eq, h'.row_eq, List.getElem?_eq_getElem hi, List.getElem?_eq_getElem hi'] at hrow
  exact hrow

/-- Rows with fewer sinks than there are stored numbers are stored as they are or sorted, and the
offsets and sinks of an index determine them. Packing reports the first entry outside the index. If
there is none, it gives the rows that collect the sinks of each element in the order of the entries,
and if these are sorted, any order of the entries gives the same index. -/
theorem fromRows_pack_roundTrip (rows : List (List Nat))
    (hsmall : rows.flatten.length < Word.span32) (n : Nat) (entries : List (Nat × List Nat)) :
    (fromRows rows false).Stores rows ∧ (fromRows rows true).Stores (rows.map Row.sort) ∧
      (rows.map Row.sort).flatten.length = rows.flatten.length ∧
      (∀ row ∈ rows, (Row.sort row).Perm row ∧ (Row.sort row).Pairwise (· ≤ ·)) ∧
      (∀ rows' : List (List Nat), rows'.flatten.length < Word.span32 →
        (fromRows rows false).coords = (fromRows rows' false).coords →
        (fromRows rows false).sinks = (fromRows rows' false).sinks → rows = rows') ∧
      (∀ sorted, pack n entries sorted =
        match entries.find? (n ≤ ·.1) with
        | some entry => .error (.elementOutOfRange entry.1 n)
        | none => .ok (fromRows ((List.range n).map (gathered entries)) sorted)) ∧
      ∀ entries' s, entries.Perm entries' →
        (pack n entries true = .ok s ↔ pack n entries' true = .ok s) := by
  refine ⟨stores_ofRows hsmall, ?_, length_flatten_map_sort rows,
    fun row _ => ⟨Row.perm_sort row, Row.pairwise_sort row⟩, fun rows' hsmall' => ?_,
    pack_eq n entries, fun entries' s hperm => ?_⟩
  · rw [← length_flatten_map_sort] at hsmall
    exact stores_ofRows hsmall
  · exact (stores_ofRows hsmall).eq_of_coords_eq (stores_ofRows hsmall')
  · exact ⟨pack_eq_of_perm hperm, pack_eq_of_perm hperm.symm⟩

/-- Three rows, one of them empty. The entries of two elements are packed in two orders, and then
with entries for elements that the index does not have. -/
theorem fromRows_pack_roundTrip_threeRows :
    (fromRows [[2, 1], [], [3]] false).Stores [[2, 1], [], [3]] ∧
      (fromRows [[2, 1], [], [3]] true).Stores [[1, 2], [], [3]] ∧
      pack 2 [(1, [5, 3]), (0, [7]), (1, [4])] true = .ok (fromRows [[7], [5, 3, 4]] true) ∧
      pack 2 [(1, [4]), (1, [5, 3]), (0, [7])] true = .ok (fromRows [[7], [5, 3, 4]] true) ∧
      pack 2 [(1, [4]), (3, []), (2, [1])] false = .error (.elementOutOfRange 3 2) := by
  obtain ⟨hstored, hstored', -, -, -, hpack, hperm⟩ := fromRows_pack_roundTrip [[2, 1], [], [3]]
    (by decide) 2 [(1, [5, 3]), (0, [7]), (1, [4])]
  obtain ⟨-, -, -, -, -, hpack', -⟩ := fromRows_pack_roundTrip [] (by decide) 2
    [(1, [4]), (3, []), (2, [1])]
  have hsorted : [[2, 1], [], [3]].map Row.sort = [[1, 2], [], [3]] := by
    simp [Row.sort, List.mergeSort, List.MergeSort.Internal.splitInTwo]
  rw [hsorted] at hstored'
  exact ⟨hstored, hstored', hpack true, (hperm _ _ (by decide)).1 (hpack true), hpack' false⟩

/-! ## Pieces of one width -/

/-- The first `n` consecutive pieces of `sinks` of length `width`. -/
def pieces (n width : Nat) (sinks : List Nat) : List (List Nat) :=
  (List.range n).map fun i => (sinks.drop (i * width)).take width

variable {width : Nat} {sinks : List Nat}

@[simp]
theorem length_pieces (n width : Nat) (sinks : List Nat) : (pieces n width sinks).length = n := by
  simp [pieces]

/-- One after another, the pieces are the beginning of the array. -/
theorem flatten_pieces (n width : Nat) (sinks : List Nat) :
    (pieces n width sinks).flatten = sinks.take (n * width) := by
  induction n with
  | zero => simp [pieces]
  | succ n ih =>
    rw [pieces] at ih
    rw [pieces, List.range_succ, List.map_append, List.flatten_append, ih, Nat.succ_mul,
      List.take_add, List.map_singleton, List.flatten_singleton]

/-- No piece of an array with room for all of them is short. -/
theorem length_of_mem_pieces (hlength : n * width ≤ sinks.length) :
    ∀ row ∈ pieces n width sinks, row.length = width := by
  intro row hrow
  obtain ⟨i, hi, rfl⟩ := List.mem_map.1 hrow
  have hend : (i + 1) * width ≤ n * width :=
    Nat.mul_le_mul_right width (Nat.succ_le_of_lt (List.mem_range.1 hi))
  rw [Nat.succ_mul] at hend
  rw [List.length_take, List.length_drop]
  omega

/-- Rows of one width are the pieces of their sinks. -/
theorem eq_pieces {rows : List (List Nat)} (h : ∀ row ∈ rows, row.length = width) :
    rows = pieces rows.length width rows.flatten := by
  refine List.ext_getElem (length_pieces _ _ _).symm fun i hi _ => ?_
  have hpiece := take_drop_flatten hi
  rw [length_flatten_take_of_width h (Nat.le_of_lt hi), h _ (List.getElem_mem hi)] at hpiece
  simpa [pieces] using hpiece.symm

/-- An array of `n` times `width` sinks is stored by its width as its consecutive pieces are stored
one after another, with the same offsets, sinks and width. Stored words hold the offsets if they
hold the number of sinks. No other rows are stored in this way. -/
theorem ofWidth_eq_fromRows_pieces (n width : Nat) (sinks : List Nat)
    (hlength : sinks.length = n * width) (hsmall : n * width < Word.span32) :
    ofWidth n width sinks = fromRows (pieces n width sinks) false ∧
      (ofWidth n width sinks).Stores (pieces n width sinks) ∧
      ∀ rows, ofWidth n width sinks = fromRows rows false ↔ rows = pieces n width sinks := by
  have hflatten : (pieces n width sinks).flatten = sinks := by
    rw [flatten_pieces, ← hlength, List.take_length]
  have hstored : ofWidth n width sinks = ofRows (pieces n width sinks) :=
    ofWidth_eq_ofRows_iff.2
      ⟨length_pieces n width sinks, length_of_mem_pieces (Nat.le_of_eq hlength.symm), hflatten⟩
  refine ⟨hstored, ?_, fun rows => ⟨fun h => ?_, ?_⟩⟩
  · rw [hstored]
    exact stores_ofRows (by rwa [hflatten, hlength])
  -- Rows that are stored in this way have the width, so they are the pieces of their own sinks.
  · obtain ⟨rfl, hwidth, rfl⟩ := ofWidth_eq_ofRows_iff.1 h
    exact eq_pieces hwidth
  · rintro rfl
    exact hstored

/-- Two rows of three sinks, three empty rows, and no row. -/
theorem ofWidth_eq_fromRows_pieces_twoRows :
    ofWidth 2 3 [4, 1, 1, 0, 2, 7] = fromRows [[4, 1, 1], [0, 2, 7]] false ∧
      ofWidth 3 0 [] = fromRows [[], [], []] false ∧
      ofWidth 0 3 [] = fromRows [] false ∧
      (ofWidth 2 3 [4, 1, 1, 0, 2, 7]).Stores [[4, 1, 1], [0, 2, 7]] := by
  obtain ⟨hrows, hstores, -⟩ := ofWidth_eq_fromRows_pieces 2 3 [4, 1, 1, 0, 2, 7] rfl (by decide)
  exact ⟨hrows, (ofWidth_eq_fromRows_pieces 3 0 [] rfl (by decide)).1,
    (ofWidth_eq_fromRows_pieces 0 3 [] rfl (by decide)).1, hstores⟩

end Segmented

namespace PathIndex

variable {n : Nat}

/-- If all entries are in range, packing gives the index whose rows hold the sinks of the
entries. Rows that are ascending anyway are not changed by sorting them. -/
theorem hasRows_of_pack {entries : List (Nat × List Nat)} (sorted : Bool)
    (hrange : ∀ e ∈ entries, e.1 < n)
    (hrows : ∀ e < n, (Segmented.gathered entries e).Pairwise (· ≤ ·)) :
    ∃ s, Segmented.pack n entries sorted = .ok s ∧
      (segmented s).HasRows n (Segmented.gathered entries) := by
  refine ⟨_, Segmented.pack_eq_ok sorted hrange, ?_⟩
  rw [Segmented.fromRows]
  cases sorted with
  | false => exact hasRows_ofRows_map n _
  | true =>
    rw [if_pos rfl, List.map_map]
    exact (hasRows_ofRows_map n _).congr fun e he => Row.sort_eq_self (hrows e he)

end PathIndex

end MeshPath
