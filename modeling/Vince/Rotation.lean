import Mathlib.Data.List.Perm.Basic

/-!
# Calls of a deterministic chooser

A chooser with a state is called again and again. If its first calls come round again, then any
window of that many calls returns the same answers, in some order.
-/

namespace Rotation

variable {σ α : Type} (next : σ → α × σ)

/-- What a number of calls return, and the state they leave. -/
def run : ℕ → σ → List α × σ
  | 0, s => ([], s)
  | n + 1, s => ((next s).1 :: (run n (next s).2).1, (run n (next s).2).2)

theorem length_run (n : ℕ) (s : σ) : (run next n s).1.length = n := by
  induction n generalizing s with
  | zero => rfl
  | succ n ih =>
    show ((next s).1 :: (run next n (next s).2).1).length = n + 1
    rw [List.length_cons, ih]

theorem run_add (m n : ℕ) (s : σ) :
    run next (m + n) s =
      ((run next m s).1 ++ (run next n (run next m s).2).1,
        (run next n (run next m s).2).2) := by
  induction m generalizing s with
  | zero =>
    rw [Nat.zero_add]
    rfl
  | succ m ih =>
    rw [Nat.succ_add]
    simp only [run, ih, List.cons_append]

/-- Answers that come round again come round in every window. -/
theorem window_perm {period : List α} {s : σ}
    (again : ∀ k, (run next (period.length + k) s).1 = period ++ (run next k s).1) (k : ℕ) :
    (run next period.length (run next k s).2).1.Perm period := by
  have whole : (run next k s).1 ++ (run next period.length (run next k s).2).1 =
      period ++ (run next k s).1 := by
    have sum := again k
    rw [Nat.add_comm, run_add] at sum
    exact sum
  have both : ((run next k s).1 ++ (run next period.length (run next k s).2).1).Perm
      ((run next k s).1 ++ period) := by
    rw [whole]
    exact List.perm_append_comm
  exact (List.perm_append_left_iff _).mp both

end Rotation
