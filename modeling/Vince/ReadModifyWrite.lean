import Mathlib.Data.List.Induction
import Mathlib.Logic.Function.Basic

/-!
# A shared value that is read, modified and written back

Any number of calls share a value. Each loads it, and later saves what it makes of the value it
has loaded; what happens in between is overwritten. A schedule is the order of these steps. Read
backwards it shows which calls survive: the one that saved last, then the one that had saved last
when that one loaded, and so on. The final value is what these calls alone make of the first one.
-/

namespace ReadModifyWrite

universe u v
variable {ι : Type u} {V : Type v} [DecidableEq ι]

inductive Access (ι : Type u) where
  | load (call : ι)
  | save (call : ι)
  deriving DecidableEq

/-- The shared value, and what each call has loaded. -/
structure Cell (ι : Type u) (V : Type v) where
  value : V
  held : ι → Option V

def Cell.start (value : V) : Cell ι V := ⟨value, fun _ => none⟩

/-- A call cannot save before it has loaded. -/
def Cell.step (modify : ι → V → V) (cell : Cell ι V) : Access ι → Option (Cell ι V)
  | .load call => some { cell with held := Function.update cell.held call (some cell.value) }
  | .save call => (cell.held call).map fun loaded => { cell with value := modify call loaded }

def Cell.run (modify : ι → V → V) (cell : Cell ι V) (schedule : List (Access ι)) :
    Option (Cell ι V) :=
  schedule.foldlM (Cell.step modify) cell

/-- The schedule read backwards, on the way to the last save or to the load of a call. -/
def trace : Option ι → List (Access ι) → List ι
  | _, [] => []
  | none, .load _ :: earlier => trace none earlier
  | none, .save call :: earlier => call :: trace (some call) earlier
  | some call, .load other :: earlier =>
    if other = call then trace none earlier else trace (some call) earlier
  | some call, .save _ :: earlier => trace (some call) earlier

/-- The calls whose modifications are in the value after the schedule, the last one first. -/
def survivors (schedule : List (Access ι)) : List ι := trace none schedule.reverse

variable {modify : ι → V → V} {schedule : List (Access ι)} {v : V} {cell : Cell ι V}

theorem run_concat {access : Access ι} {start : Cell ι V}
    (run : start.run modify (schedule ++ [access]) = some cell) :
    ∃ before, start.run modify schedule = some before ∧ before.step modify access = some cell := by
  rw [Cell.run, List.foldlM_append] at run
  obtain ⟨before, ran, last⟩ := Option.bind_eq_some_iff.mp run
  obtain ⟨after, stepped, done⟩ := Option.bind_eq_some_iff.mp last
  cases done
  exact ⟨before, ran, stepped⟩

/-- The value, and what each call holds, are made by the calls that a reading backwards meets. -/
theorem run_trace (run : (Cell.start v).run modify schedule = some cell) :
    cell.value = (trace none schedule.reverse).foldr modify v ∧
      ∀ call loaded, cell.held call = some loaded →
        loaded = (trace (some call) schedule.reverse).foldr modify v := by
  induction schedule using List.reverseRecOn generalizing cell with
  | nil =>
    cases run
    exact ⟨rfl, fun call loaded held => nomatch held⟩
  | append_singleton schedule access ih =>
    obtain ⟨before, ran, stepped⟩ := run_concat run
    obtain ⟨value, holds⟩ := ih ran
    rw [List.reverse_concat]
    cases access with
    | load call =>
      cases stepped
      refine ⟨value, fun other loaded held => ?_⟩
      dsimp only at held
      by_cases same : call = other
      · subst same
        rw [Function.update_self] at held
        cases held
        rwa [trace, if_pos rfl]
      · rw [Function.update_of_ne (Ne.symm same)] at held
        rw [trace, if_neg same]
        exact holds other loaded held
    | save call =>
      obtain ⟨loaded, held, rfl⟩ := Option.map_eq_some_iff.mp stepped
      refine ⟨?_, fun other loaded held => holds other loaded held⟩
      rw [trace, List.foldr_cons, ← holds call loaded held]

theorem run_value (run : (Cell.start v).run modify schedule = some cell) :
    cell.value = (survivors schedule).foldr modify v :=
  (run_trace run).1

/-- Calls one after the other. -/
def serial (calls : List ι) : List (Access ι) := calls.flatMap fun call => [.load call, .save call]

/-- Calls that do not overlap all survive. -/
theorem survivors_serial (calls : List ι) : survivors (serial calls) = calls.reverse := by
  induction calls using List.reverseRecOn with
  | nil => rfl
  | append_singleton calls call ih =>
    have split : (serial (calls ++ [call])).reverse =
        .save call :: .load call :: (serial calls).reverse := by
      simp [serial, List.flatMap_append]
    rw [survivors, split, trace, trace, if_pos rfl, List.reverse_concat]
    exact congrArg (call :: ·) ih

end ReadModifyWrite
