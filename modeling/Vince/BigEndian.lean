import Mathlib.Algebra.Ring.Nat
import Mathlib.Data.List.Lex
import Mathlib.Order.Fin.Basic

/-!
# Numbers written with a fixed number of digits

The highest digit comes first, so that the lexicographic order of two numbers of the same width
is the order of the numbers.
-/

namespace BigEndian

variable {b : ℕ} [NeZero b]

/-- The lowest `w` digits of a number. -/
def digits (b : ℕ) [NeZero b] : ℕ → ℕ → List (Fin b)
  | 0, _ => []
  | w + 1, n => Fin.ofNat b (n / b ^ w) :: digits b w n

def value : List (Fin b) → ℕ
  | [] => 0
  | d :: ds => d * b ^ ds.length + value ds

theorem length_digits (w n : ℕ) : (digits b w n).length = w := by
  induction w with
  | zero => rfl
  | succ w ih => rw [digits, List.length_cons, ih]

omit [NeZero b] in
theorem value_lt (ds : List (Fin b)) : value ds < b ^ ds.length := by
  induction ds with
  | nil => simp [value]
  | cons d ds ih =>
    have digit : (d : ℕ) + 1 ≤ b := d.isLt
    calc value (d :: ds) < (d + 1) * b ^ ds.length := by
          rw [value, Nat.add_mul]
          omega
      _ ≤ b * b ^ ds.length := Nat.mul_le_mul_right _ digit
      _ = b ^ (d :: ds).length := by rw [List.length_cons, Nat.pow_succ, Nat.mul_comm]

theorem value_digits (w n : ℕ) : value (digits b w n) = n % b ^ w := by
  induction w with
  | zero => simp [digits, value, Nat.mod_one]
  | succ w ih =>
    rw [digits, value, ih, length_digits, Fin.val_ofNat, Nat.pow_succ, Nat.mod_mul, Nat.mul_comm,
      Nat.add_comm]

omit [NeZero b] in
theorem lt_iff_value_lt {ds es : List (Fin b)} (same : ds.length = es.length) :
    ds < es ↔ value ds < value es := by
  induction ds generalizing es with
  | nil =>
    obtain rfl := List.eq_nil_of_length_eq_zero same.symm
    simp
  | cons d ds ih =>
    cases es with
    | nil => simp at same
    | cons e es =>
      simp only [List.length_cons, Nat.add_right_cancel_iff] at same
      have low := value_lt ds
      have low' := value_lt es
      rw [List.cons_lt_cons_iff, ih same, value, value, same]
      rw [same] at low
      rcases lt_trichotomy d e with below | rfl | above
      · have digit : (d : ℕ) + 1 ≤ e := below
        have := Nat.mul_le_mul_right (b ^ es.length) digit
        rw [Nat.add_mul] at this
        exact iff_of_true (Or.inl below) (by omega)
      · simp
      · have digit : (e : ℕ) + 1 ≤ d := above
        have := Nat.mul_le_mul_right (b ^ es.length) digit
        rw [Nat.add_mul] at this
        refine iff_of_false ?_ (by omega)
        rintro (below | ⟨rfl, -⟩)
        · exact absurd below (not_lt_of_gt above)
        · exact lt_irrefl d above

theorem digits_lt_iff {w n m : ℕ} (hn : n < b ^ w) (hm : m < b ^ w) :
    digits b w n < digits b w m ↔ n < m := by
  rw [lt_iff_value_lt (by rw [length_digits, length_digits]), value_digits, value_digits,
    Nat.mod_eq_of_lt hn, Nat.mod_eq_of_lt hm]

end BigEndian
