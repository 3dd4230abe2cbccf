import Mathlib.Data.List.Basic

/-!
# Resolving the segments of a path

The segments are entered one after the other. Some are skipped, some climb to the parent, and the
others are names. Climbing at the root stays there.
-/

namespace PathSegments

universe u

variable {α : Type u} (skips climbs : α → Bool)

/-- Where one is after one more segment, the innermost name first. -/
def enter (names : List α) (s : α) : List α :=
  if skips s then names else if climbs s then names.tail else s :: names

def resolve (segments : List α) : List α := (segments.foldl (enter skips climbs) []).reverse

variable {skips climbs}

theorem foldl_enter_level {more : List α} (level : ∀ s ∈ more, climbs s = false)
    (names : List α) :
    more.foldl (enter skips climbs) names = (more.filter (!skips ·)).reverse ++ names := by
  induction more generalizing names with
  | nil => rfl
  | cons s more ih =>
    obtain ⟨first, others⟩ := List.forall_mem_cons.mp level
    rw [List.foldl_cons, ih others]
    cases skipped : skips s with
    | true => simp [enter, skipped]
    | false => simp [enter, skipped, first]

/-- Segments that do not climb are added to what came before them. -/
theorem resolve_append_level (front : List α) {more : List α}
    (level : ∀ s ∈ more, climbs s = false) :
    resolve skips climbs (front ++ more) =
      resolve skips climbs front ++ more.filter (!skips ·) := by
  rw [resolve, resolve, List.foldl_append, foldl_enter_level level, List.reverse_append,
    List.reverse_reverse]

theorem resolve_append_skipped (front : List α) {more : List α}
    (skipped : ∀ s ∈ more, skips s = true) :
    resolve skips climbs (front ++ more) = resolve skips climbs front := by
  induction more generalizing front with
  | nil => rw [List.append_nil]
  | cons s more ih =>
    obtain ⟨first, others⟩ := List.forall_mem_cons.mp skipped
    have step := ih (front ++ [s]) others
    rw [List.append_assoc, List.singleton_append] at step
    rw [step]
    simp [resolve, List.foldl_append, enter, first]

end PathSegments
