import Mathlib.Data.Finset.Card
import Mathlib.Order.Interval.Finset.Nat
import MeshPath.Expr.Rename

/-!
# Unused names

A quantified variable that moves away takes the first of the names `base1`, `base2`, … that is not
taken. As these names differ, one more of them than there are taken names is enough, so that the
search ends, also one that counts in a machine word.

* `exists_unused`: one of the first names is unused.
* `FirstUnused`: the number at the end of the new name (`unusedName_eq`).
* `unusedName_notMem`: the new name is unused.
* `unusedName_takenNames`: the new name for a quantified variable under a substitution.
-/

namespace MeshPath

variable {base : String} {taken : List String} {n : Nat}

/-- Behind the base stand the digits of the number. -/
theorem toDigits_eq_of_append_eq {ending : String} (h : base ++ toString n = base ++ ending) :
    Nat.toDigits 10 n = ending.toList := by
  have hlist := congrArg String.toList h
  simp only [String.toList_append] at hlist
  have hdigits := List.append_cancel_left hlist
  rw [Nat.toString_eq_ofList_toDigits, String.toList_ofList] at hdigits
  exact hdigits

/-- Different numbers give different names. -/
theorem append_toString_injective (base : String) :
    Function.Injective fun n : Nat => base ++ toString n := by
  intro m n h
  have hdigits := toDigits_eq_of_append_eq h
  rw [Nat.toString_eq_ofList_toDigits, String.toList_ofList] at hdigits
  -- Reading the digits back gives the number.
  simpa using congrArg (fun ds => Nat.ofDigitChars 10 ds 0) hdigits

/-- No number is written as an apostrophe, the ending of the name that would be taken if all
candidates were. -/
theorem append_toString_ne (base : String) (n : Nat) : base ++ toString n ≠ base ++ "'" := by
  intro h
  have hdigits := toDigits_eq_of_append_eq h
  -- Read as a number, an apostrophe would be zero, and zero is written differently.
  have hzero : n = 0 := by
    simpa [Nat.ofDigitChars_cons] using congrArg (fun ds => Nat.ofDigitChars 10 ds 0) hdigits
  rw [hzero] at hdigits
  revert hdigits
  decide

/-- One more name than there are different taken ones contains an unused one. -/
theorem exists_unused (base : String) (taken : List String) :
    ∃ n, 1 ≤ n ∧ n ≤ taken.toFinset.card + 1 ∧ base ++ toString n ∉ taken := by
  have hcard : taken.toFinset.card <
      ((Finset.Icc 1 (taken.toFinset.card + 1)).image fun k => base ++ toString k).card := by
    rw [Finset.card_image_of_injective _ (append_toString_injective base), Nat.card_Icc]
    omega
  obtain ⟨name, hname, hunused⟩ := Finset.exists_mem_notMem_of_card_lt_card hcard
  obtain ⟨n, hn, rfl⟩ := Finset.mem_image.1 hname
  obtain ⟨hpos, hle⟩ := Finset.mem_Icc.1 hn
  exact ⟨n, hpos, hle, mt List.mem_toFinset.2 hunused⟩

/-- `n` is the smallest positive number with which `base` is not taken. -/
structure FirstUnused (base : String) (taken : List String) (n : Nat) : Prop where
  pos : 1 ≤ n
  notMem : base ++ toString n ∉ taken
  mem : ∀ k, 1 ≤ k → k < n → base ++ toString k ∈ taken

/-- Some number leads to an unused name, since only finitely many are taken. -/
theorem exists_firstUnused (base : String) (taken : List String) :
    ∃ n, FirstUnused base taken n := by
  have hexists : ∃ n, 1 ≤ n ∧ base ++ toString n ∉ taken := by
    obtain ⟨n, hpos, -, hunused⟩ := exists_unused base taken
    exact ⟨n, hpos, hunused⟩
  obtain ⟨hpos, hunused⟩ := Nat.find_spec hexists
  refine ⟨Nat.find hexists, hpos, hunused, fun k hk hlt => ?_⟩
  by_contra htaken
  exact Nat.find_min hexists hlt ⟨hk, htaken⟩

/-- The first number that leads to an unused name exceeds the number of taken names by one at most.
-/
theorem FirstUnused.le_card (h : FirstUnused base taken n) : n ≤ taken.toFinset.card + 1 := by
  obtain ⟨m, hpos, hle, hunused⟩ := exists_unused base taken
  refine Nat.le_trans (Nat.le_of_not_lt fun hlt => ?_) hle
  exact hunused (h.mem m hpos hlt)

/-- A search through sufficiently many numbers stops at the first unused one. -/
theorem FirstUnused.find?_eq (h : FirstUnused base taken n) {bound : Nat} (hn : n ≤ bound) :
    ((List.range' 1 bound).find? fun k => base ++ toString k ∉ taken) = some n := by
  have hmem : n ∈ List.range' 1 bound := by
    have hpos := h.pos
    rw [List.mem_range'_1]
    omega
  refine List.find?_range'_eq_some.2 ⟨decide_eq_true h.notMem, hmem, fun k hk hlt => ?_⟩
  simpa using h.mem k hk hlt

/-- The name that is chosen has the first number that leads to an unused one. -/
theorem unusedName_eq (h : FirstUnused base taken n) :
    unusedName base taken = base ++ toString n := by
  have hn : n ≤ taken.length + 1 :=
    h.le_card.trans (Nat.add_le_add_right taken.toFinset_card_le 1)
  have hcandidates : (List.range (taken.length + 1)).map (fun n => base ++ toString (n + 1)) =
      (List.range' 1 (taken.length + 1)).map fun n => base ++ toString n := by
    rw [List.range'_eq_map_range, List.map_map]
    exact List.map_congr_left fun k _ => congrArg (base ++ toString ·) (Nat.add_comm k 1)
  have hfind : ((List.range' 1 (taken.length + 1)).map fun n => base ++ toString n).find?
      (· ∉ taken) = some (base ++ toString n) := by
    rw [List.find?_map]
    exact congrArg (Option.map fun k => base ++ toString k) (h.find?_eq hn)
  rw [unusedName]
  simp only [hcandidates, hfind, Option.getD_some]

/-- The new name is unused. -/
theorem unusedName_notMem (base : String) (taken : List String) :
    unusedName base taken ∉ taken := by
  obtain ⟨n, hn⟩ := exists_firstUnused base taken
  rw [unusedName_eq hn]
  exact hn.notMem

/-! ## Under a substitution -/

namespace PathTree

variable {S : Type} {x : OpenExpr S} {σ : Substitution S} {name : String}

/-- The name is that of a variable of the expression, or an old or a new name of the
substitution. -/
def Taken (x : OpenExpr S) (σ : Substitution S) (name : String) : Prop :=
  (∃ v ∈ x.vars, v.name = name) ∨ ∃ entry ∈ σ, entry.1 = name ∨ entry.2.name = name

/-- The names among which the substitution in a formula looks for an unused one. -/
def takenNames (x : OpenExpr S) (σ : Substitution S) : List String := x.vars.map (·.name) ++ σ.names

/-- The taken names are those of the formula and those that the replacements bring. -/
theorem mem_takenNames_iff : name ∈ takenNames x σ ↔ Taken x σ name := by
  rw [takenNames, List.mem_append, List.mem_map, Substitution.names, List.mem_flatMap, Taken]
  simp only [List.mem_cons, List.not_mem_nil, or_false, eq_comm]

/-- If the different names fit into a machine word, a quantified variable that moves away gets the
first of the names `base1`, `base2`, … that neither the expression nor the substitution has. A
search that counts in machine words finds its number before they are exhausted. -/
theorem unusedName_takenNames (base : String)
    (hcard : (takenNames x σ).toFinset.card < Word.span32 - 2) :
    ∃ n, 1 ≤ n ∧ n ≤ (takenNames x σ).toFinset.card + 1 ∧ n ≤ Word.span32 - 2 ∧
      unusedName base (takenNames x σ) = base ++ toString n ∧
      ¬ Taken x σ (base ++ toString n) ∧
      (∀ k, 1 ≤ k → k < n → Taken x σ (base ++ toString k)) ∧
      ((List.range' 1 (Word.span32 - 2)).find? fun k => base ++ toString k ∉ takenNames x σ) =
        some n ∧
      unusedName base (takenNames x σ) ≠ base ++ "'" := by
  obtain ⟨n, hn⟩ := exists_firstUnused base (takenNames x σ)
  have hle := hn.le_card
  have hword : n ≤ Word.span32 - 2 := by omega
  refine ⟨n, hn.pos, hle, hword, unusedName_eq hn, mt mem_takenNames_iff.2 hn.notMem,
    fun k hk hlt => mem_takenNames_iff.1 (hn.mem k hk hlt), hn.find?_eq hword, ?_⟩
  rw [unusedName_eq hn]
  exact append_toString_ne base n

/-- The names `b1`, `b2` and `b10` are taken. -/
theorem unusedName_takenNames_gap :
    let x : OpenExpr := .link .edgeToVertex (.unbound "b1") (.unbound "b10")
    let σ : Substitution := [("b", .unbound "b2")]
    (takenNames x σ).toFinset.card < Word.span32 - 2 ∧
      ∃ n, 1 ≤ n ∧ n ≤ (takenNames x σ).toFinset.card + 1 ∧
        unusedName "b" (takenNames x σ) = "b" ++ toString n ∧ ¬ Taken x σ ("b" ++ toString n) ∧
        unusedName "b" (takenNames x σ) = "b3" := by
  intro x σ
  have hcard : (takenNames x σ).toFinset.card < Word.span32 - 2 := by decide +kernel
  obtain ⟨n, hpos, hle, -, hname, hunused, -⟩ := unusedName_takenNames "b" hcard
  exact ⟨hcard, n, hpos, hle, hname, hunused, by decide +kernel⟩

end PathTree

end MeshPath
