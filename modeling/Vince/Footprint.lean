import Mathlib.Data.Set.Insert
import Mathlib.Logic.Function.Basic

/-!
# Maps that are only ever assigned to

An operation assigns a set of keys when it gives each of them a value that does not depend on the
map it starts from and leaves all other keys as they were. Such operations compose, and what a run
of them leaves behind is seen by a later one exactly at the keys it does not assign itself.
-/

namespace Footprint

universe u v w
variable {κ : Type u} {ν : Type v} {α : Type w}

def empty : κ → Option ν := fun _ => none

def put [DecidableEq κ] (m : κ → Option ν) (k : κ) (x : ν) : κ → Option ν :=
  Function.update m k (some x)

theorem put_self [DecidableEq κ] (m : κ → Option ν) (k : κ) (x : ν) : put m k x k = some x := by
  rw [put, Function.update_self]

theorem put_of_ne [DecidableEq κ] (m : κ → Option ν) {j k : κ} (x : ν) (other : j ≠ k) :
    put m k x j = m j := by
  rw [put, Function.update_of_ne other]

structure Assigns (f : (κ → Option ν) → κ → Option ν) (keys : Set κ) : Prop where
  assigned : ∀ k ∈ keys, ∃ x, ∀ m, f m k = some x
  kept : ∀ k ∉ keys, ∀ m, f m k = m k

namespace Assigns

variable {f g : (κ → Option ν) → κ → Option ν} {keys others : Set κ}

theorem congr (assigns : Assigns f keys) (same : ∀ k, k ∈ others ↔ k ∈ keys) :
    Assigns f others :=
  Set.ext same ▸ assigns

theorem nothing : Assigns (fun m : κ → Option ν => m) ∅ where
  assigned _ member := member.elim
  kept _ _ _ := rfl

theorem andThen (first : Assigns f keys) (second : Assigns g others) :
    Assigns (fun m => g (f m)) (others ∪ keys) where
  assigned k member := by
    by_cases late : k ∈ others
    · obtain ⟨x, value⟩ := second.assigned k late
      exact ⟨x, fun m => value (f m)⟩
    · obtain ⟨x, value⟩ := first.assigned k (member.resolve_left late)
      exact ⟨x, fun m => (second.kept k late (f m)).trans (value m)⟩
  kept k outside m := by
    rw [Set.mem_union, not_or] at outside
    exact (second.kept k outside.1 (f m)).trans (first.kept k outside.2 m)

theorem single [DecidableEq κ] (k : κ) (x : ν) : Assigns (fun m => put m k x) {k} where
  assigned j member := by
    rw [Set.mem_singleton_iff.mp member]
    exact ⟨x, fun m => put_self m k x⟩
  kept j outside m := by
    rw [Set.mem_singleton_iff] at outside
    exact put_of_ne m x outside

theorem put [DecidableEq κ] (first : Assigns f keys) (k : κ) (x : ν) :
    Assigns (fun m => Footprint.put (f m) k x) (insert k keys) :=
  first.andThen (single k x)

theorem foldl (items : List α) {step : (κ → Option ν) → α → κ → Option ν} {each : α → Set κ}
    (assigns : ∀ a ∈ items, Assigns (fun m => step m a) (each a)) :
    Assigns (fun m => items.foldl step m) {k | ∃ a ∈ items, k ∈ each a} := by
  induction items with
  | nil => simpa using nothing
  | cons a rest ih =>
    have later := ih fun b member => assigns b (List.mem_cons_of_mem a member)
    have both := (assigns a List.mem_cons_self).andThen later
    have keys_eq : {k | ∃ b ∈ a :: rest, k ∈ each b} = {k | ∃ b ∈ rest, k ∈ each b} ∪ each a := by
      ext k
      simp [or_comm]
    rw [keys_eq]
    exact both

/-- A loop that puts one entry for each item. -/
theorem puts [DecidableEq κ] (first : Assigns f keys) (items : List α) (key : α → κ)
    (value : α → ν) :
    Assigns (fun m => items.foldl (fun m a => Footprint.put m (key a) (value a)) (f m))
      ({k | ∃ a ∈ items, k = key a} ∪ keys) :=
  first.andThen (foldl items fun a _ => single (key a) (value a))

theorem bound_iff (assigns : Assigns f keys) (k : κ) : f empty k ≠ none ↔ k ∈ keys := by
  constructor
  · intro bound
    by_contra outside
    exact bound (assigns.kept k outside empty)
  · intro member
    obtain ⟨x, value⟩ := assigns.assigned k member
    simp [value]

/-- What the map held before shows through exactly at the keys that are not assigned. -/
theorem fresh_iff (assigns : Assigns f keys) (m : κ → Option ν) (k : κ) :
    f m k = f empty k ↔ k ∈ keys ∨ m k = none := by
  by_cases member : k ∈ keys
  · obtain ⟨x, value⟩ := assigns.assigned k member
    simp [value, member]
  · rw [assigns.kept k member, assigns.kept k member]
    simp [member, empty]

end Assigns

end Footprint
