import Mathlib.Computability.StateTransition

/-!
# Running a deterministic step function

A machine is a step function `σ → Option σ`; a state without successor is final.
Reachability is Mathlib's `StateTransition.Reaches`. This file adds a run with an
explicit number of steps, which can be evaluated, and the two ways in which
termination is decided: a final state that is reached, or an invariant every step
preserves without ever meeting a final state. The rule for invariants at the end is
for any relation between states.
-/

namespace Transitions

open StateTransition Relation

universe u
variable {σ : Type u} {step : σ → Option σ} {s t : σ}

def run (step : σ → Option σ) : Nat → σ → σ
  | 0, s => s
  | n + 1, s => match step s with
    | none => s
    | some t => run step n t

/-- The machine stops after finitely many steps. -/
def Halts (step : σ → Option σ) (s : σ) : Prop :=
  ∃ t, Reaches step s t ∧ step t = none

theorem run_final (final : step s = none) (n : Nat) : run step n s = s := by
  cases n with
  | zero => rfl
  | succ n => simp only [run, final]

theorem run_add (n m : Nat) (s : σ) :
    run step (n + m) s = run step m (run step n s) := by
  induction n generalizing s with
  | zero => simp [run]
  | succ n ih =>
    rw [Nat.succ_add]
    cases h : step s with
    | none => simp only [run, h, run_final h m]
    | some t => simpa only [run, h] using ih t

theorem reaches_run (n : Nat) (s : σ) : Reaches step s (run step n s) := by
  induction n generalizing s with
  | zero => exact ReflTransGen.refl
  | succ n ih =>
    cases h : step s with
    | none => simp only [run, h]; exact ReflTransGen.refl
    | some t => simp only [run, h]; exact ReflTransGen.head h (ih t)

theorem run_of_reaches (path : Reaches step s t) : ∃ n, run step n s = t := by
  induction path using ReflTransGen.head_induction_on with
  | refl => exact ⟨0, rfl⟩
  | head edge _ ih =>
    obtain ⟨n, hn⟩ := ih
    refine ⟨n + 1, ?_⟩
    simp only [run, Option.mem_def.mp edge, hn]

/-- Once a run has met a final state, more steps change nothing. -/
theorem run_stable {n : Nat} (final : step (run step n s) = none) (m : Nat) :
    run step (n + m) s = run step n s := by
  rw [run_add, run_final final]

/-- Some reachable state satisfies the predicate. -/
def Leads (step : σ → Option σ) (s : σ) (P : σ → Prop) : Prop :=
  ∃ t, Reaches step s t ∧ P t

theorem Leads.here {P : σ → Prop} (h : P s) : Leads step s P := ⟨s, ReflTransGen.refl, h⟩

theorem Leads.next {P : σ → Prop} (edge : step s = some t) (h : Leads step t P) :
    Leads step s P := by
  obtain ⟨u, path, hu⟩ := h
  exact ⟨u, ReflTransGen.head edge path, hu⟩

theorem Leads.trans {P Q : σ → Prop} (h : Leads step s P)
    (further : ∀ t, P t → Leads step t Q) : Leads step s Q := by
  obtain ⟨t, path, ht⟩ := h
  obtain ⟨u, path', hu⟩ := further t ht
  exact ⟨u, ReflTransGen.trans path path', hu⟩

theorem halts_of_reaches (path : Reaches step s t) : Halts step s ↔ Halts step t := by
  constructor
  · rintro ⟨u, hu, final⟩
    rcases reaches_total path hu with h | h
    · exact ⟨u, h, final⟩
    · rcases ReflTransGen.cases_head h with heq | ⟨v, edge, _⟩
      · exact ⟨t, ReflTransGen.refl, heq ▸ final⟩
      · rw [Option.mem_def, final] at edge
        cases edge
  · rintro ⟨u, hu, final⟩
    exact ⟨u, ReflTransGen.trans path hu, final⟩

theorem halts_of_step (edge : step s = some t) : Halts step s ↔ Halts step t :=
  halts_of_reaches (ReflTransGen.single edge)

theorem halts_of_final (final : step s = none) : Halts step s := ⟨s, ReflTransGen.refl, final⟩

/-- An invariant that always offers a further step rules termination out. -/
theorem not_halts_of_invariant (I : σ → Prop)
    (progress : ∀ s, I s → ∃ t, step s = some t ∧ I t) (hs : I s) : ¬ Halts step s := by
  rintro ⟨t, path, final⟩
  have ht : I t := by
    clear final
    induction path with
    | refl => exact hs
    | tail _ edge ih =>
      obtain ⟨v, hv, hi⟩ := progress _ ih
      rw [Option.mem_def, hv] at edge
      exact Option.some.inj edge ▸ hi
  obtain ⟨v, hv, _⟩ := progress t ht
  rw [final] at hv
  cases hv

/-- What holds at the start and is kept by every step holds after a run. -/
theorem kept_by_run {R : σ → σ → Prop} {I : σ → Prop} (kept : ∀ s t, I s → R s t → I t)
    (hs : I s) (path : ReflTransGen R s t) : I t := by
  induction path with
  | refl => exact hs
  | tail _ edge ih => exact kept _ _ ih edge

end Transitions
