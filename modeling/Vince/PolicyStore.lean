import Vince.GoText
import Vince.ReadModifyWrite

/-!
# Adding policies through the key/value store (`access_control.go`, `oauth2_server.go`)

`AddPolicy` of an `accessControlAdapter` loads the model from the store, adds a rule to it and
saves it. Each of the two is a transaction of its own, so the steps of concurrent calls for one
file come in any order. casbin's model and its JSON are a parameter with their laws.
-/

namespace PolicyStore

open GoText Function ReadModifyWrite

/-- The arguments of `AddPolicy`. -/
structure Policy where
  sec : Text
  ptype : Text
  rule : List Text
  deriving DecidableEq

/-- `model.Model` and its JSON: a policy that is added is there with those from before, and what
is marshalled is unmarshalled again. -/
structure Casbin (M Bytes : Type) where
  has : M → Policy → Prop
  addPolicy : M → Policy → M
  marshal : M → Bytes
  unmarshal : Bytes → Option M
  has_addPolicy : ∀ m p q, has (addPolicy m p) q ↔ q = p ∨ has m q
  unmarshal_marshal : ∀ m, unmarshal (marshal m) = some m

/-- How far a call of `AddPolicy` is. `returned true` is a return of nil. -/
inductive Phase (M : Type) where
  | ready
  | loaded (m : M)
  | returned (ok : Bool)

/-- What is stored under the key of the file, and the calls. -/
structure World (ι M Bytes : Type) where
  stored : Option Bytes
  phase : ι → Phase M

/-- The transactions of the calls, and whether the store makes them fail. -/
inductive Action (ι : Type) where
  | get (call : ι) (fails : Bool)
  | set (call : ι) (fails : Bool)

variable {ι M Bytes : Type} [DecidableEq ι] (casbin : Casbin M Bytes) (policy : ι → Policy)

def World.start (stored : Option Bytes) : World ι M Bytes := ⟨stored, fun _ => .ready⟩

/-- `LoadPolicy` fails if the store does, the key is missing or its value is no model. -/
def loadPolicy (stored : Option Bytes) (fails : Bool) : Option M :=
  if fails then none else stored.bind casbin.unmarshal

/-- One transaction with what the call does up to the next one. -/
def World.step (w : World ι M Bytes) : Action ι → Option (World ι M Bytes)
  | .get call fails =>
    match w.phase call with
    | .ready =>
      let next := (loadPolicy casbin w.stored fails).elim (.returned false) .loaded
      some { w with phase := update w.phase call next }
    | _ => none
  | .set call fails =>
    match w.phase call with
    | .loaded m =>
      if fails then some { w with phase := update w.phase call (.returned false) }
      else some
        { stored := some (casbin.marshal (casbin.addPolicy m (policy call)))
          phase := update w.phase call (.returned true) }
    | _ => none

def World.run (w : World ι M Bytes) (schedule : List (Action ι)) : Option (World ι M Bytes) :=
  schedule.foldlM (World.step casbin policy) w

/-- The model in the store has the policy. -/
def Contains (stored : Option Bytes) (p : Policy) : Prop :=
  ∃ m, stored.bind casbin.unmarshal = some m ∧ casbin.has m p

/-! ## Calls that return nil -/

def access : Action ι → Access ι
  | .get call _ => .load call
  | .set call _ => .save call

variable {casbin policy} {w w' : World ι M Bytes} {schedule : List (Action ι)} {action : Action ι}

/-- Everything a transaction can do: fail, load, or save. -/
theorem step_cases (stepped : w.step casbin policy action = some w') :
    (∃ call, (∀ ok, w.phase call ≠ .returned ok) ∧
        w' = { w with phase := update w.phase call (.returned false) }) ∨
      (∃ call fails m, action = .get call fails ∧ w.phase call = .ready ∧
        w.stored.bind casbin.unmarshal = some m ∧
        w' = { w with phase := update w.phase call (.loaded m) }) ∨
      ∃ call fails m, action = .set call fails ∧ w.phase call = .loaded m ∧
        w' = { stored := some (casbin.marshal (casbin.addPolicy m (policy call)))
               phase := update w.phase call (.returned true) } := by
  cases action with
  | get call fails =>
    cases phase : w.phase call with
    | ready =>
      simp only [World.step, phase, Option.some.injEq] at stepped
      cases load : loadPolicy casbin w.stored fails with
      | none =>
        rw [load] at stepped
        exact .inl ⟨call, by simp [phase], stepped.symm⟩
      | some m =>
        rw [load] at stepped
        have read : w.stored.bind casbin.unmarshal = some m := by
          rw [loadPolicy] at load
          split at load
          · cases load
          · exact load
        exact .inr (.inl ⟨call, fails, m, rfl, phase, read, stepped.symm⟩)
    | loaded m => simp [World.step, phase] at stepped
    | returned ok => simp [World.step, phase] at stepped
  | set call fails =>
    cases phase : w.phase call with
    | ready => simp [World.step, phase] at stepped
    | loaded m =>
      cases fails with
      | true =>
        simp only [World.step, phase, if_true, Option.some.injEq] at stepped
        exact .inl ⟨call, by simp [phase], stepped.symm⟩
      | false =>
        simp only [World.step, phase, Bool.false_eq_true, if_false, Option.some.injEq] at stepped
        exact .inr (.inr ⟨call, false, m, rfl, phase, stepped.symm⟩)
    | returned ok => simp [World.step, phase] at stepped

/-- One call is advanced, and it has not returned. -/
theorem step_phase (stepped : w.step casbin policy action = some w') :
    ∃ call next, (∀ ok, w.phase call ≠ .returned ok) ∧ w'.phase = update w.phase call next := by
  obtain ⟨call, phase, rfl⟩ | ⟨call, -, m, -, phase, -, rfl⟩ | ⟨call, -, m, -, phase, rfl⟩ :=
    step_cases stepped
  · exact ⟨call, _, phase, rfl⟩
  · exact ⟨call, _, by simp [phase], rfl⟩
  · exact ⟨call, _, by simp [phase], rfl⟩

/-- A call that has returned takes no further step. -/
theorem step_returned (stepped : w.step casbin policy action = some w') {call : ι} {ok : Bool}
    (returned : w.phase call = .returned ok) : w'.phase call = .returned ok := by
  obtain ⟨other, next, running, phases⟩ := step_phase stepped
  have differs : call ≠ other := by
    rintro rfl
    exact running ok returned
  rw [phases, update_of_ne differs]
  exact returned

theorem run_returned (run : w.run casbin policy schedule = some w') {call : ι} {ok : Bool}
    (returned : w.phase call = .returned ok) : w'.phase call = .returned ok := by
  induction schedule generalizing w with
  | nil =>
    cases run
    exact returned
  | cons action rest ih =>
    obtain ⟨next, stepped, run⟩ := Option.bind_eq_some_iff.mp run
    exact ih run (step_returned stepped returned)

/-- What a call makes of the model it has loaded. -/
def modify (casbin : Casbin M Bytes) (policy : ι → Policy) (call : ι) (m : M) : M :=
  casbin.addPolicy m (policy call)

/-- The store holds the shared value, and the calls hold what they have loaded. -/
structure Simulates (casbin : Casbin M Bytes) (w : World ι M Bytes) (cell : Cell ι M) : Prop where
  stored : w.stored.bind casbin.unmarshal = some cell.value
  held : ∀ call m, w.phase call = .loaded m → cell.held call = some m

/-- A run in which every call returns nil is one of loads and saves. -/
theorem run_simulates {cell : Cell ι M} (simulates : Simulates casbin w cell)
    (run : w.run casbin policy schedule = some w')
    (returned : ∀ call, w'.phase call = .returned true) :
    ∃ cell', cell.run (modify casbin policy) (schedule.map access) = some cell' ∧
      Simulates casbin w' cell' := by
  induction schedule generalizing w cell with
  | nil =>
    cases run
    exact ⟨cell, rfl, simulates⟩
  | cons action rest ih =>
    obtain ⟨next, stepped, run⟩ := Option.bind_eq_some_iff.mp run
    have further : ∀ {cell₁}, cell.step (modify casbin policy) (access action) = some cell₁ →
        Simulates casbin next cell₁ → ∃ cell', cell.run (modify casbin policy)
          ((action :: rest).map access) = some cell' ∧ Simulates casbin w' cell' := by
      intro cell₁ first simulates₁
      obtain ⟨cell', ran, simulates'⟩ := ih simulates₁ run
      exact ⟨cell', Option.bind_eq_some_iff.mpr ⟨cell₁, first, ran⟩, simulates'⟩
    obtain ⟨call, phase, rfl⟩ | ⟨call, fails, m, rfl, phase, read, rfl⟩ |
      ⟨call, fails, m, rfl, phase, rfl⟩ := step_cases stepped
    · have stays := run_returned run (update_self call _ _)
      cases stays.symm.trans (returned call)
    · cases simulates.stored.symm.trans read
      refine further rfl ⟨simulates.stored, fun other m phase' => ?_⟩
      dsimp only at phase' ⊢
      by_cases same : other = call
      · subst same
        rw [update_self] at phase' ⊢
        cases phase'
        rfl
      · rw [update_of_ne same] at phase' ⊢
        exact simulates.held other m phase'
    · have first : cell.step (modify casbin policy) (.save call) =
          some { cell with value := modify casbin policy call m } := by
        rw [Cell.step, simulates.held call m phase]
        rfl
      refine further first ⟨casbin.unmarshal_marshal _, fun other m' phase' => ?_⟩
      dsimp only at phase'
      by_cases same : other = call
      · rw [same, update_self] at phase'
        cases phase'
      · rw [update_of_ne same] at phase'
        exact simulates.held other m' phase'

/-- Where no model can be read, no call gets beyond its first transaction. -/
theorem run_unreadable (unreadable : w.stored.bind casbin.unmarshal = none)
    (early : ∀ call, w.phase call = .ready ∨ w.phase call = .returned false)
    (run : w.run casbin policy schedule = some w') (call : ι) :
    w'.phase call ≠ .returned true := by
  induction schedule generalizing w with
  | nil =>
    cases run
    rcases early call with phase | phase <;> simp [phase]
  | cons action rest ih =>
    obtain ⟨next, stepped, run⟩ := Option.bind_eq_some_iff.mp run
    obtain ⟨other, phase, rfl⟩ | ⟨other, fails, m, rfl, phase, read, rfl⟩ |
      ⟨other, fails, m, rfl, phase, rfl⟩ := step_cases stepped
    · refine ih ?_ (fun call => ?_) run
      · exact unreadable
      dsimp only
      by_cases same : call = other
      · rw [same, update_self]
        exact .inr rfl
      · rw [update_of_ne same]
        exact early call
    · cases unreadable.symm.trans read
    · rcases early other with ready | failed
      · cases ready.symm.trans phase
      · cases failed.symm.trans phase

omit [DecidableEq ι] in
theorem has_foldr_modify (calls : List ι) (m : M) (p : Policy) :
    casbin.has (calls.foldr (modify casbin policy) m) p ↔
      casbin.has m p ∨ ∃ call ∈ calls, policy call = p := by
  induction calls with
  | nil => simp
  | cons call calls ih =>
    rw [List.foldr_cons, modify, casbin.has_addPolicy, ih]
    simp only [List.exists_mem_cons_iff, eq_comm, or_left_comm]

/-- The policies in the store when all calls have returned nil, of which there is one. -/
theorem contains_after {stored : Option Bytes}
    (run : (World.start stored).run casbin policy schedule = some w')
    (returned : ∀ call, w'.phase call = .returned true) (call : ι) (p : Policy) :
    Contains casbin w'.stored p ↔ Contains casbin stored p ∨
      ∃ other ∈ survivors (schedule.map access), policy other = p := by
  cases start : stored.bind casbin.unmarshal with
  | none =>
    have stuck := run_unreadable (w := World.start stored) start (fun _ => .inl rfl) run
    exact absurd (returned call) (stuck call)
  | some m =>
    have simulates : Simulates casbin (World.start stored) (Cell.start m : Cell ι M) :=
      ⟨start, fun call m phase => nomatch phase⟩
    obtain ⟨cell, ran, simulates'⟩ := run_simulates simulates run returned
    have before : Contains casbin stored p ↔ casbin.has m p := by
      simp only [Contains, start, Option.some.injEq, exists_eq_left']
    have after : Contains casbin w'.stored p ↔ casbin.has cell.value p := by
      simp only [Contains, simulates'.stored, Option.some.injEq, exists_eq_left']
    rw [before, after, run_value ran, has_foldr_modify]

/-- When all calls have returned nil, the store has all their policies exactly if each of them was
there before, or is that of a call that survives in the order of the transactions. -/
theorem no_policy_lost_iff (casbin : Casbin M Bytes) (policy : ι → Policy) (stored : Option Bytes)
    (schedule : List (Action ι)) (w' : World ι M Bytes)
    (run : (World.start stored).run casbin policy schedule = some w')
    (returned : ∀ call, w'.phase call = .returned true) :
    (∀ call, Contains casbin w'.stored (policy call)) ↔
      ∀ call, Contains casbin stored (policy call) ∨
        ∃ other ∈ survivors (schedule.map access), policy other = policy call :=
  forall_congr' fun call => contains_after run returned call (policy call)

private def listed : Casbin (List Policy) (List Policy) where
  has m p := p ∈ m
  addPolicy m p := if p ∈ m then m else m ++ [p]
  marshal := id
  unmarshal := some
  has_addPolicy m p q := by
    by_cases present : p ∈ m
    · simp only [if_pos present]
      exact ⟨.inr, fun either => either.elim (fun same => same ▸ present) id⟩
    · simp only [if_neg present, List.mem_append, List.mem_singleton, or_comm]
  unmarshal_marshal _ := rfl

private def reader (call : Bool) : Policy :=
  ⟨['p'], ['p'], [if call then "alice".toList else "bob".toList]⟩

/-- Two calls, one after the other. -/
theorem no_policy_lost_sample :
    ∃ w', (World.start (some [])).run listed reader
        [.get true false, .set true false, .get false false, .set false false] = some w' ∧
      ∀ call, Contains listed w'.stored (reader call) := by
  obtain ⟨w', run, returned⟩ : ∃ w', (World.start (some [])).run listed reader
      [.get true false, .set true false, .get false false, .set false false] = some w' ∧
        ∀ call, w'.phase call = .returned true := ⟨_, rfl, by rintro (_ | _) <;> rfl⟩
  refine ⟨w', run, (no_policy_lost_iff listed reader _ _ w' run returned).mpr fun call => ?_⟩
  exact .inr ⟨call, by cases call <;> decide, rfl⟩

/-- Two calls that both load before either saves: both return nil, and the first policy is lost. -/
theorem policy_lost :
    ∃ w', (World.start (some [])).run listed reader
        [.get true false, .get false false, .set true false, .set false false] = some w' ∧
      (∀ call, w'.phase call = .returned true) ∧
      ¬ ∀ call, Contains listed w'.stored (reader call) := by
  refine ⟨_, rfl, by rintro (_ | _) <;> rfl, fun contains => ?_⟩
  obtain ⟨m, stored, present⟩ := contains true
  cases stored
  have gone : reader true ∉ [reader false] := by decide
  exact gone present

/-- Calls that come one after the other lose nothing. -/
theorem serial_keeps_policies {stored : Option Bytes} {calls : List ι}
    (run : (World.start stored).run casbin policy schedule = some w')
    (returned : ∀ call, w'.phase call = .returned true) (all : ∀ call, call ∈ calls)
    (order : schedule.map access = serial calls) (call : ι) :
    Contains casbin w'.stored (policy call) := by
  refine (contains_after run returned call _).mpr (.inr ⟨call, ?_, rfl⟩)
  rw [order, survivors_serial, List.mem_reverse]
  exact all call

end PolicyStore
