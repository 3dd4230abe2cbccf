import Mathlib.Data.List.Basic

/-!
# Loops in which the last write wins

A loop over a list whose steps may fail, with a field of its state that a step either sets, to
something that can be read off the element alone, or leaves as it is.
-/

namespace LastWrites

variable {σ α β γ ε : Type}

def Sets (step : σ → α → Except ε σ) (field : σ → β) (write : α → Option β) : Prop :=
  ∀ s a s', step s a = .ok s' → field s' = (write a).getD (field s)

/-- After the loop the field is what the last element that sets it has set it to. -/
theorem Sets.foldlM {step : σ → α → Except ε σ} {field : σ → β} {write : α → Option β}
    (sets : Sets step field write) {l : List α} {s s' : σ} (ran : l.foldlM step s = .ok s') :
    field s' = (l.filterMap write).getLast?.getD (field s) := by
  induction l generalizing s with
  | nil =>
    cases ran
    rfl
  | cons a l ih =>
    rw [List.foldlM_cons] at ran
    cases stepped : step s a with
    | error e =>
      rw [stepped] at ran
      cases ran
    | ok t =>
      rw [stepped] at ran
      rw [ih ran, sets s a t stepped]
      cases write : write a with
      | none => rw [List.filterMap_cons_none write, Option.getD_none]
      | some b => rw [List.filterMap_cons_some write, List.getLast?_cons, Option.getD_some,
          Option.getD_some]

/-- The loop returns iff none of the elements makes it fail, where that does not depend on the
state. -/
theorem foldlM_ok_iff {step : σ → α → Except ε σ} {good : α → Prop}
    (spec : ∀ s a, (∃ s', step s a = .ok s') ↔ good a) (list : List α) (s : σ) :
    (∃ s', list.foldlM step s = .ok s') ↔ ∀ a ∈ list, good a := by
  induction list generalizing s with
  | nil => simp [pure, Except.pure]
  | cons a list ih =>
    rw [List.foldlM_cons, List.forall_mem_cons, ← spec s a]
    cases run : step s a with
    | error e => simp [bind, Except.bind]
    | ok s' => simpa [bind, Except.bind] using ih s'

theorem filterMap_ite (p : α → Prop) [DecidablePred p] (f : α → β) (l : List α) :
    l.filterMap (fun a => if p a then some (f a) else none) = (l.filter p).map f := by
  induction l with
  | nil => rfl
  | cons a l ih => by_cases holds : p a <;> simp [holds, ih]

/-- Of several lists one after the other, the last entry is the last one of the last list that has
any. -/
theorem getLast?_replayed (blocks : List γ) (entries : γ → List α) (read : α → Option β) :
    ((blocks.reverse.flatMap entries).filterMap read).getLast? =
      blocks.findSome? fun b => ((entries b).filterMap read).getLast? := by
  rw [List.filterMap_flatMap, List.getLast?_flatMap, List.reverse_reverse]

end LastWrites
