/-
# Counts of one word

Generations, and bounds that a setting may make as large as it likes, are counts of 64 bits: the
count after the greatest is zero.
-/
import VectorQuery.Number.Count

namespace VectorQuery.Number

/-- A count as a word holds it. -/
def word (n : Nat) : Nat := n % 2 ^ 64

theorem word_lt (n : Nat) : word n < 2 ^ 64 := Nat.mod_lt _ (by decide)

theorem word_of_lt {n : Nat} (h : n < 2 ^ 64) : word n = n := Nat.mod_eq_of_lt h

end VectorQuery.Number
