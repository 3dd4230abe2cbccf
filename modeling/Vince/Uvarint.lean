import Mathlib.Data.Nat.Notation

/-!
# Variable-length numbers

A number as bytes of seven bits each, the lowest first, with the high bit set on all but the last.
What is needed of it here is how many bytes there are.
-/

namespace Uvarint

def encode (n : ℕ) : List (Fin 256) :=
  if n < 128 then [Fin.ofNat 256 n] else Fin.ofNat 256 (n % 128 + 128) :: encode (n / 128)
termination_by n
decreasing_by omega

theorem length_of_lt {n : ℕ} (small : n < 128) : (encode n).length = 1 := by
  rw [encode, if_pos small]
  rfl

theorem length_of_ge {n : ℕ} (large : 128 ≤ n) :
    (encode n).length = (encode (n / 128)).length + 1 := by
  rw [encode, if_neg (by omega)]
  rfl

theorem length_pos (n : ℕ) : 0 < (encode n).length := by
  by_cases small : n < 128
  · rw [length_of_lt small]
    exact Nat.one_pos
  · rw [length_of_ge (by omega)]
    exact Nat.succ_pos _

theorem length_eq_one_iff (n : ℕ) : (encode n).length = 1 ↔ n < 128 := by
  constructor
  · intro one
    rcases Nat.lt_or_ge n 128 with small | large
    · exact small
    · have more := length_of_ge large
      have rest := length_pos (n / 128)
      omega
  · exact length_of_lt

theorem length_eq_two_iff (n : ℕ) : (encode n).length = 2 ↔ 128 ≤ n ∧ n < 16384 := by
  rcases Nat.lt_or_ge n 128 with small | large
  · have one := length_of_lt small
    omega
  · have more := length_of_ge large
    have rest := length_eq_one_iff (n / 128)
    omega

end Uvarint
