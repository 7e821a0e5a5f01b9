/-!
# Rows

A row is the list of sinks of one source. Two operations put it into ascending order:

* `Row.sort` keeps every sink as often as it occurs (`perm_sort`, `pairwise_sort`);
* `Row.distinct` keeps every sink once (`mem_distinct`, `pairwise_distinct`).

`Row.inter` and `Row.union` are intersection and union of rows as sets, ascending and without
repetition.
-/

namespace MeshPath.Row

/-- The members of a row in ascending order. -/
def sort (row : List Nat) : List Nat := row.mergeSort

/-- Puts `n` into a strictly ascending row unless it is there already. -/
def insertDistinct (n : Nat) : List Nat → List Nat
  | [] => [n]
  | m :: ms => if n < m then n :: m :: ms else if n = m then m :: ms else m :: insertDistinct n ms

/-- The members of a row in ascending order, each once. -/
def distinct (row : List Nat) : List Nat := row.foldr insertDistinct []

/-- The common members of two rows, ascending, each once. -/
def inter (l r : List Nat) : List Nat := (distinct l).filter (r.contains ·)

/-- The members of two rows, ascending, each once. -/
def union (l r : List Nat) : List Nat := distinct (l ++ r)

/-- Sorting only changes the order. -/
theorem perm_sort (row : List Nat) : (sort row).Perm row := List.mergeSort_perm row _

/-- A sorted row is ascending. -/
theorem pairwise_sort (row : List Nat) : (sort row).Pairwise (· ≤ ·) := by
  have hsorted := @List.pairwise_mergeSort Nat (fun a b => decide (a ≤ b))
    (by simpa using fun _ _ _ => Nat.le_trans) (by simpa using Nat.le_total) row
  simpa [sort] using hsorted

theorem mem_insertDistinct {a n : Nat} {row : List Nat} :
    a ∈ insertDistinct n row ↔ a = n ∨ a ∈ row := by
  induction row with
  | nil => simp [insertDistinct]
  | cons m ms ih =>
    rw [insertDistinct]
    split
    · simp
    · split
      · next h => simp [h]
      · simp only [List.mem_cons, ih]
        exact or_left_comm

/-- Without repetition, a row has the members that it had. -/
@[simp]
theorem mem_distinct {a : Nat} {row : List Nat} : a ∈ distinct row ↔ a ∈ row := by
  induction row with
  | nil => simp [distinct]
  | cons n ns ih =>
    rw [distinct, List.foldr_cons, mem_insertDistinct, List.mem_cons, ← ih, distinct]

theorem pairwise_insertDistinct {n : Nat} {row : List Nat} (h : row.Pairwise (· < ·)) :
    (insertDistinct n row).Pairwise (· < ·) := by
  induction row with
  | nil => exact List.pairwise_singleton _ _
  | cons m ms ih =>
    obtain ⟨hm, hms⟩ := List.pairwise_cons.1 h
    rw [insertDistinct]
    split
    · next lt =>
      refine List.pairwise_cons.2 ⟨fun a ha => ?_, h⟩
      rcases List.mem_cons.1 ha with rfl | ha
      · exact lt
      · exact Nat.lt_trans lt (hm a ha)
    · split
      · exact h
      · refine List.pairwise_cons.2 ⟨fun a ha => ?_, ih hms⟩
        rcases mem_insertDistinct.1 ha with rfl | ha
        · omega
        · exact hm a ha

/-- A row without repetition is strictly ascending. -/
theorem pairwise_distinct (row : List Nat) : (distinct row).Pairwise (· < ·) := by
  induction row with
  | nil => exact .nil
  | cons n ns ih => exact pairwise_insertDistinct ih

theorem pairwise_inter (l r : List Nat) : (inter l r).Pairwise (· < ·) :=
  (pairwise_distinct l).filter _

theorem pairwise_union (l r : List Nat) : (union l r).Pairwise (· < ·) := pairwise_distinct (l ++ r)

/-- The intersection of rows has the members of both, as that of sets. -/
@[simp]
theorem mem_inter {a : Nat} {l r : List Nat} : a ∈ inter l r ↔ a ∈ l ∧ a ∈ r := by
  simp [inter, List.mem_filter]

/-- The union of rows has the members of either, as that of sets. -/
@[simp]
theorem mem_union {a : Nat} {l r : List Nat} : a ∈ union l r ↔ a ∈ l ∨ a ∈ r := by
  simp [union]

end MeshPath.Row
