import Mathlib.Data.Set.Card
import Mathlib.Logic.Function.Basic

/-!
# Counting the arguments of a function by their values

`tally P f` is the number of arguments whose value satisfies `P`. Changing the function at one
argument changes a tally by what was there before and what is there now. Nothing is said about
tallies of infinitely many arguments.
-/

namespace Census

universe u v
variable {α : Type u} {β : Type v} [DecidableEq α] {P : β → Prop} [DecidablePred P] {f : α → β}

noncomputable def tally (P : β → Prop) (f : α → β) : Nat := {a | P (f a)}.ncard

/-- All arguments but finitely many have the given value. -/
def Nearly (f : α → β) (b : β) : Prop := {a | f a ≠ b}.Finite

omit [DecidableEq α] [DecidablePred P] in
theorem Nearly.finite {b : β} (nearly : Nearly f b) (excluded : ¬ P b) :
    {a | P (f a)}.Finite := by
  apply nearly.subset
  intro a holds same
  exact excluded (same ▸ holds)

theorem Nearly.update {b : β} (nearly : Nearly f b) (a : α) (c : β) :
    Nearly (Function.update f a c) b := by
  apply (nearly.insert a).subset
  intro x differs
  by_cases same : x = a
  · exact Or.inl same
  · rw [Set.mem_ofPred_eq, Function.update_of_ne same] at differs
    exact Or.inr differs

omit [DecidableEq α] in
theorem nearly_const (b : β) : Nearly (fun _ : α => b) b := by
  simp [Nearly]

omit [DecidablePred P] in
theorem setOf_update_of_not {c : β} (excluded : ¬ P c) (a : α) :
    {x | P (Function.update f a c x)} = {x | P (f x)} \ {a} := by
  ext x
  by_cases same : x = a
  · simp [same, excluded]
  · simp [same]

omit [DecidablePred P] in
theorem setOf_update_of_holds {c : β} (holds : P c) (a : α) :
    {x | P (Function.update f a c x)} = insert a ({x | P (f x)} \ {a}) := by
  ext x
  by_cases same : x = a
  · simp [same, holds]
  · simp [same]

/-- What one change does to a tally. -/
theorem tally_update {b : β} (nearly : Nearly f b) (excluded : ¬ P b) (a : α) (c : β) :
    (tally P (Function.update f a c) : Int) =
      tally P f + (if P c then 1 else 0) - (if P (f a) then 1 else 0) := by
  have finite := nearly.finite excluded
  have without : (({x | P (f x)} \ {a}).ncard : Int) =
      tally P f - (if P (f a) then 1 else 0) := by
    by_cases old : P (f a)
    · have step := Set.ncard_sdiff_singleton_add_one (show a ∈ {x | P (f x)} from old) finite
      rw [if_pos old, tally, ← step]
      omega
    · rw [if_neg old, tally, Set.sdiff_singleton_eq_self (show a ∉ {x | P (f x)} from old)]
      omega
  by_cases new : P c
  · have step := Set.ncard_insert_of_notMem (s := {x | P (f x)} \ {a}) (a := a) (by simp)
      (finite.subset Set.sdiff_subset)
    rw [tally, setOf_update_of_holds new, step, if_pos new]
    omega
  · rw [tally, setOf_update_of_not new, without, if_neg new]
    omega

omit [DecidableEq α] [DecidablePred P] in
theorem tally_const {b : β} (excluded : ¬ P b) : tally P (fun _ : α => b) = 0 := by
  simp [tally, excluded]

omit [DecidableEq α] [DecidablePred P] in
theorem tally_eq_zero_iff {b : β} (nearly : Nearly f b) (excluded : ¬ P b) :
    tally P f = 0 ↔ ∀ a, ¬ P (f a) := by
  rw [tally, Set.ncard_eq_zero (nearly.finite excluded)]
  exact Set.eq_empty_iff_forall_notMem

end Census
