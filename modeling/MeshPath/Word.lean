/-!
# Machine words

Sizes, extents and coordinates are natural numbers, and the components of offsets are integers.
Three operations still see the width of a machine word:

* `low32 n`: the 32 bits under which element number `n` is stored, so that an element at or above
  `span32` shares its stored number with an earlier one;
* `signed64 n`: the signed reading of the low 64 bits of `n`, in which coordinates are shifted;
* `negate32 c`: the negation of a component of 32 bits, which leaves `least32` as it is.

Below `span32` and half of `span64` the first two are the identity (`low32_eq_self`,
`signed64_eq_self`). Every component but `least32` is negated as an integer (`negate32_eq_neg`).
-/

namespace MeshPath.Word

/-- The number of words of 32 bits. -/
abbrev span32 : Nat := 0x100000000

/-- The number of words of 64 bits. -/
abbrev span64 : Nat := 0x10000000000000000

/-- The low 32 bits of `n`. -/
def low32 (n : Nat) : Nat := n % span32

/-- The low 64 bits of `n`, read as a two's complement number. -/
def signed64 (n : Nat) : Int := Int.bmod n span64

/-- The least two's complement number of 32 bits. -/
abbrev least32 : Int := -0x80000000

/-- The negation of a two's complement number of 32 bits. The least one has none, and negation
wraps around to itself. -/
def negate32 (c : Int) : Int := if c = least32 then least32 else -c

/-- Every number of 32 bits but the least one is negated as an integer. -/
theorem negate32_eq_neg {c : Int} (h : c ≠ least32) : negate32 c = -c := if_neg h

theorem low32_le (n : Nat) : low32 n ≤ n := Nat.mod_le _ _

/-- Below `span32`, an element is stored under its own number. -/
theorem low32_eq_self {n : Nat} (h : n < span32) : low32 n = n := by
  unfold low32
  exact Nat.mod_eq_of_lt h

/-- The signed reading of a word whose top bit is clear is the word itself. -/
theorem signed64_eq_self {n : Nat} (h : n < span64 / 2) : signed64 n = n := by
  have bound : n < 0x8000000000000000 := by simpa only [span64, Nat.reduceDiv] using h
  unfold signed64
  rw [Int.bmod_def]
  simp only [span64]
  omega

end MeshPath.Word
