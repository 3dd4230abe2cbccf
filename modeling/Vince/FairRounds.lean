import Mathlib.Algebra.BigOperators.Group.Finset.Basic
import Mathlib.Algebra.Order.BigOperators.Group.Finset
import Mathlib.Algebra.BigOperators.Ring.Finset
import Mathlib.Data.Fintype.BigOperators
import Mathlib.Tactic.Linarith
import Mathlib.Tactic.Ring

/-!
# Rounds in which whoever has most pays for all

In each round everyone is credited a weight, and one of those who then have most pays the sum of all
weights. However ties are broken, after as many rounds as the weights sum up to everyone has paid as
often as its weight says, and all accounts are even again.
-/

namespace FairRounds

variable {ι : Type*} [Fintype ι] [DecidableEq ι] (w : ι → ℤ)

structure Round (cur : ι → ℤ) (b : ι) (cur' : ι → ℤ) : Prop where
  most : ∀ j, cur j + w j ≤ cur b + w b
  next : ∀ j, cur' j = cur j + w j - if j = b then ∑ i, w i else 0

inductive Rounds : (ι → ℤ) → List ι → (ι → ℤ) → Prop
  | nil (cur) : Rounds cur [] cur
  | cons {cur cur' cur'' b picks} (first : Round w cur b cur') (rest : Rounds cur' picks cur'') :
    Rounds cur (b :: picks) cur''

variable {w} {cur cur' : ι → ℤ} {picks : List ι}

/-- What an account holds is what was credited less what was paid. -/
theorem Rounds.balance (rounds : Rounds w cur picks cur') (j : ι) :
    cur' j = cur j + picks.length * w j - picks.count j * ∑ i, w i := by
  induction rounds with
  | nil => simp
  | @cons _ _ _ b picks first _ ih =>
    rw [ih, first.next j, List.length_cons, List.count_cons]
    by_cases same : j = b
    · rw [if_pos same, if_pos (by simp [same])]
      push_cast
      ring
    · rw [if_neg same, if_neg (by simpa using fun h => same h.symm)]
      push_cast
      ring

/-- The accounts are even as a whole, and nobody owes a whole round. -/
structure Fair (w cur : ι → ℤ) : Prop where
  even : ∑ j, cur j = 0
  above : ∀ j, -∑ i, w i < cur j

theorem Round.fair {b : ι} (round : Round w cur b cur') (nonneg : ∀ j, 0 ≤ w j)
    (pos : 0 < ∑ i, w i) (fair : Fair w cur) : Fair w cur' := by
  have credited : ∑ j, (cur j + w j) = ∑ i, w i := by
    rw [Finset.sum_add_distrib, fair.even, zero_add]
  -- the sum of all is positive, so whoever has most has something
  have most : 0 < cur b + w b := by
    by_contra nothing
    have none : ∑ j, (cur j + w j) ≤ 0 :=
      Finset.sum_nonpos fun j _ => (round.most j).trans (not_lt.mp nothing)
    omega
  refine ⟨?_, fun j => ?_⟩
  · simp only [round.next, Finset.sum_sub_distrib, credited, Finset.sum_ite_eq', Finset.mem_univ,
      if_true, sub_self]
  · rw [round.next j]
    by_cases same : j = b
    · subst same
      rw [if_pos rfl]
      omega
    · rw [if_neg same]
      have before := fair.above j
      have credit := nonneg j
      omega

theorem Rounds.fair (rounds : Rounds w cur picks cur') (nonneg : ∀ j, 0 ≤ w j)
    (pos : 0 < ∑ i, w i) (fair : Fair w cur) : Fair w cur' := by
  induction rounds with
  | nil => exact fair
  | cons first _ ih => exact ih (first.fair nonneg pos fair)

omit [DecidableEq ι] in
/-- What an account holds, and what is credited to it, stays below a bound. -/
theorem Fair.below (fair : Fair w cur) (j : ι) :
    cur j + ∑ i, w i ≤ Fintype.card ι * ∑ i, w i :=
  calc cur j + ∑ i, w i ≤ ∑ k, (cur k + ∑ i, w i) :=
        Finset.single_le_sum (f := fun k => cur k + ∑ i, w i)
          (fun k _ => by have above := fair.above k; omega) (Finset.mem_univ j)
    _ = Fintype.card ι * ∑ i, w i := by
        rw [Finset.sum_add_distrib, fair.even, zero_add, Finset.sum_const, Finset.card_univ,
          nsmul_eq_mul]

theorem sum_count (picks : List ι) : ∑ j, picks.count j = picks.length := by
  have counted := Multiset.sum_count_eq_card (s := Finset.univ) (m := (picks : Multiset ι))
    fun a _ => Finset.mem_univ a
  simpa using counted

/-- From even accounts, as many rounds as the weights sum up to are paid by everyone as often as its
weight says. -/
theorem Rounds.exact (rounds : Rounds w 0 picks cur') (nonneg : ∀ j, 0 ≤ w j)
    (pos : 0 < ∑ i, w i) (whole : (picks.length : ℤ) = ∑ i, w i) (j : ι) :
    (picks.count j : ℤ) = w j ∧ cur' j = 0 := by
  have fair : Fair w cur' :=
    rounds.fair nonneg pos ⟨by simp, fun j => by simpa using pos⟩
  have balance (j : ι) : cur' j = (∑ i, w i) * (w j - picks.count j) := by
    rw [rounds.balance j, whole, Pi.zero_apply]
    ring
  -- nobody pays more than its weight, for it would owe a whole round
  have most (j : ι) : (picks.count j : ℤ) ≤ w j := by
    have above := fair.above j
    rw [balance j] at above
    by_contra more
    have deficit : w j - picks.count j ≤ -1 := by omega
    have owed := mul_le_mul_of_nonneg_left deficit pos.le
    omega
  have same : ∑ j, (picks.count j : ℤ) = ∑ j, w j := by
    rw [← Nat.cast_sum, sum_count, whole]
  have all := (Finset.sum_eq_sum_iff_of_le fun j _ => most j).mp same
  have count := all j (Finset.mem_univ j)
  refine ⟨count, ?_⟩
  rw [balance j, count, sub_self, mul_zero]

end FairRounds
