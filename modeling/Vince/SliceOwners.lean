import Mathlib.Logic.Function.Basic
import Vince.GoSlices

/-!
# Slices held by several owners

Several owners share one memory, each with a stack of slices. Slices of different owners, and
slices at different places of one stack, meet in an array only if that array is older than all
the owners. An owner changes the memory by `append` to the slice on top of its stack, which must
not be in an old array. Then no other slice sees it, whatever the order in which owners move.
-/

namespace SliceOwners

open GoSlices

universe u v
variable {α : Type u} {ι : Type v} {growth : Growth} {mem mem' : Memory α} {k : ℕ}
  {s s' : Option Slice} {xs : List α}

/-- The two slices meet in an array below `k` if at all. -/
def Apart (k : ℕ) (s s' : Option Slice) : Prop :=
  ∀ t ∈ s, ∀ t' ∈ s', t.array = t'.array → t.array < k

theorem Apart.symm (apart : Apart k s s') : Apart k s' s := by
  intro t' here' t here same
  rw [same]
  exact apart t here t' here' same.symm

theorem Apart.of_below (below : Below k s) : Apart k s s' := fun t here _ _ _ => below t here

/-- What an owner does to the memory and to its stack in one move. -/
inductive Move (growth : Growth) (k : ℕ) (mem : Memory α) :
    List (Option Slice) → Memory α → List (Option Slice) → Prop
  | drop {stack stack' : List (Option Slice)} :
    stack'.Sublist stack → Move growth k mem stack mem stack'
  | push {stack : List (Option Slice)} {s : Option Slice} :
    Below k s → Valid mem s → Move growth k mem stack mem (s :: stack)
  | append {s : Option Slice} {rest rest' : List (Option Slice)} (xs : List α) :
    Since k s → rest'.Sublist rest →
    Move growth k mem (s :: rest) (append growth mem s xs).2 ((append growth mem s xs).1 :: rest')

/-- The stacks of all owners, in a memory whose arrays below `k` are old. -/
structure Held (k : ℕ) (mem : Memory α) (stack : ι → List (Option Slice)) : Prop where
  bound : k ≤ mem.length
  valid : ∀ i, ∀ s ∈ stack i, Valid mem s
  inside : ∀ i, (stack i).Pairwise (Apart k)
  across : ∀ i j, i ≠ j → ∀ s ∈ stack i, ∀ s' ∈ stack j, Apart k s s'

/-! ## One append -/

/-- An append is not seen through a slice that is apart from the one appended to. -/
theorem append_frame (growth : Growth) (valid : Valid mem s) (since : Since k s)
    (apart : Apart k s s') (valid' : Valid mem s') (xs : List α) :
    Valid (append growth mem s xs).2 s' ∧
      contents (append growth mem s xs).2 s' = contents mem s' := by
  have appended := appended_append growth valid xs
  have same : ∀ t' ∈ s', (append growth mem s xs).2[t'.array]? = mem[t'.array]? := by
    intro t' here'
    refine appended.others _ (valid'.below t' here') fun t here meet => ?_
    have old := apart t here t' here' meet
    have new := since t here
    omega
  refine ⟨fun t' here' => ?_, ?_⟩
  · obtain ⟨b, found, long⟩ := valid' t' here'
    exact ⟨b, (same t' here').trans found, long⟩
  · cases s' with
    | none => rfl
    | some t' => rw [contents, contents, same t' rfl]

/-- What was apart from a slice is apart from the slice that `append` makes of it. -/
theorem append_apart (valid : Valid mem s) (apart : Apart k s s') (valid' : Valid mem s')
    (xs : List α) : Apart k (append growth mem s xs).1 s' := by
  intro t here t' here' meet
  rcases (appended_append growth valid xs).array t here with ⟨t₀, here₀, same⟩ | fresh
  · rw [same] at meet ⊢
    exact apart t₀ here₀ t' here' meet
  · have old := valid'.below t' here'
    omega

/-! ## One move -/

section Move

variable {stack stack' : List (Option Slice)}

theorem Move.grows (move : Move growth k mem stack mem' stack') (valid : ∀ s ∈ stack, Valid mem s) :
    mem.length ≤ mem'.length := by
  cases move with
  | drop _ => exact Nat.le_refl _
  | push _ _ => exact Nat.le_refl _
  | append xs _ _ => exact (appended_append growth (valid _ List.mem_cons_self) xs).grows

/-- The old arrays stay as they are. -/
theorem Move.agree (move : Move growth k mem stack mem' stack') (bound : k ≤ mem.length)
    (valid : ∀ s ∈ stack, Valid mem s) : Agree k mem mem' := by
  cases move with
  | drop _ => exact Agree.refl k mem
  | push _ _ => exact Agree.refl k mem
  | append xs since _ =>
    exact ((appended_append growth (valid _ List.mem_cons_self) xs).since since bound).2

/-- A slice apart from the whole stack. -/
theorem Move.frame (move : Move growth k mem stack mem' stack') (valid : ∀ s ∈ stack, Valid mem s)
    (valid' : Valid mem s') (apart : ∀ s ∈ stack, Apart k s s') :
    Valid mem' s' ∧ contents mem' s' = contents mem s' ∧ ∀ s ∈ stack', Apart k s s' := by
  cases move with
  | drop sub => exact ⟨valid', rfl, fun s here => apart s (sub.subset here)⟩
  | push below _ =>
    refine ⟨valid', rfl, fun s here => ?_⟩
    rcases List.mem_cons.mp here with rfl | here
    · exact .of_below below
    · exact apart s here
  | append xs since sub =>
    have top := valid _ List.mem_cons_self
    have off := apart _ List.mem_cons_self
    obtain ⟨kept, same⟩ := append_frame growth top since off valid' xs
    refine ⟨kept, same, fun s here => ?_⟩
    rcases List.mem_cons.mp here with rfl | here
    · exact append_apart top off valid' xs
    · exact apart s (List.mem_cons_of_mem _ (sub.subset here))

/-- The stack itself stays in order. -/
theorem Move.inside (move : Move growth k mem stack mem' stack')
    (valid : ∀ s ∈ stack, Valid mem s) (inside : stack.Pairwise (Apart k)) :
    (∀ s ∈ stack', Valid mem' s) ∧ stack'.Pairwise (Apart k) := by
  cases move with
  | drop sub => exact ⟨fun s here => valid s (sub.subset here), inside.sublist sub⟩
  | push below fits =>
    exact ⟨List.forall_mem_cons.mpr ⟨fits, valid⟩,
      List.pairwise_cons.mpr ⟨fun _ _ => .of_below below, inside⟩⟩
  | append xs since sub =>
    have top := valid _ List.mem_cons_self
    rw [List.pairwise_cons] at inside
    have rest := fun s here => append_frame growth top since (inside.1 s (sub.subset here))
      (valid s (List.mem_cons_of_mem _ (sub.subset here))) xs
    refine ⟨List.forall_mem_cons.mpr ⟨(appended_append growth top xs).valid, fun s here => ?_⟩,
      List.pairwise_cons.mpr ⟨fun s here => ?_, inside.2.sublist sub⟩⟩
    · exact (rest s here).1
    · exact append_apart top (inside.1 s (sub.subset here))
        (valid s (List.mem_cons_of_mem _ (sub.subset here))) xs

end Move

/-! ## Moves of several owners -/

section Held

variable {stack : ι → List (Option Slice)} {stack' : List (Option Slice)} {i : ι}

/-- What another owner's slices hold. -/
theorem Held.others (held : Held k mem stack) (move : Move growth k mem (stack i) mem' stack')
    {j : ι} (other : j ≠ i) (here : s ∈ stack j) : contents mem' s = contents mem s :=
  (move.frame (held.valid i) (held.valid j s here)
    fun s' here' => held.across i j other.symm s' here' s here).2.1

/-- An array that a move changes is not old, and no other owner holds it. -/
theorem Held.changed (held : Held k mem stack) (move : Move growth k mem (stack i) mem' stack')
    {a : ℕ} (bound : a < mem.length) (differs : mem'[a]? ≠ mem[a]?) :
    k ≤ a ∧ ∀ j ≠ i, ∀ s ∈ stack j, ∀ t ∈ s, t.array ≠ a := by
  have valid := held.valid i
  have across := fun j (other : j ≠ i) => held.across i j other.symm
  generalize stack i = own at move valid across
  cases move with
  | drop _ => exact absurd rfl differs
  | push _ _ => exact absurd rfl differs
  | @append s rest rest' xs since _ =>
    have appended := appended_append growth (valid s List.mem_cons_self) xs
    have hit : ∃ t ∈ s, t.array = a := by
      by_contra none
      push Not at none
      exact differs (appended.others a bound none)
    obtain ⟨t, here, rfl⟩ := hit
    have new := since t here
    refine ⟨new, fun j other s' here' t' mem' meet => ?_⟩
    have old := across j other s List.mem_cons_self s' here' t here t' mem' meet.symm
    omega

/-- What an owner's slices below the one appended to hold. -/
theorem Held.below (held : Held k mem stack) {rest : List (Option Slice)}
    (top : stack i = s :: rest) (since : Since k s) (growth : Growth) (xs : List α)
    (here : s' ∈ rest) : contents (append growth mem s xs).2 s' = contents mem s' := by
  have valid := held.valid i
  have inside := held.inside i
  rw [top, List.forall_mem_cons] at valid
  rw [top, List.pairwise_cons] at inside
  exact (append_frame growth valid.1 since (inside.1 s' here) (valid.2 s' here) xs).2

theorem Held.move [DecidableEq ι] (held : Held k mem stack)
    (move : Move growth k mem (stack i) mem' stack') :
    Held k mem' (Function.update stack i stack') := by
  have others : ∀ j ≠ i, ∀ s ∈ stack j,
      Valid mem' s ∧ contents mem' s = contents mem s ∧ ∀ s' ∈ stack', Apart k s' s :=
    fun j other s here => move.frame (held.valid i) (held.valid j s here)
      fun s' here' => held.across i j other.symm s' here' s here
  obtain ⟨valid, inside⟩ := move.inside (held.valid i) (held.inside i)
  refine ⟨Nat.le_trans held.bound (move.grows (held.valid i)), fun j => ?_, fun j => ?_,
    fun j j' differ => ?_⟩
  · by_cases same : j = i
    · subst same
      rwa [Function.update_self]
    · rw [Function.update_of_ne same]
      exact fun s here => (others j same s here).1
  · by_cases same : j = i
    · subst same
      rwa [Function.update_self]
    · rw [Function.update_of_ne same]
      exact held.inside j
  · by_cases first : j = i
    · subst first
      rw [Function.update_self, Function.update_of_ne differ.symm]
      exact fun s here s' here' => (others j' differ.symm s' here').2.2 s here
    · rw [Function.update_of_ne first]
      by_cases second : j' = i
      · subst second
        rw [Function.update_self]
        exact fun s here s' here' => ((others j differ s here).2.2 s' here').symm
      · rw [Function.update_of_ne second]
        exact held.across j j' differ

end Held

end SliceOwners
