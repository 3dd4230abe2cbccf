import Mathlib.Algebra.Group.Int.Defs
import Vince.GoText

/-!
# The rate manager (`ngx_http_rate_limit.go`)

A limiter counts a window of calls. The manager keeps one limiter for each key of each zone and
never replaces it, so that the limiter a call of `setup` returned is the one that is kept for its
key and zone. The first limiter of a zone is a zero `leaky`, the later ones are filled in, and none
has an `amount`.
-/

namespace RateLimit

open GoText

/-- Nanoseconds. The zero time is 0. -/
abbrev Time := Int

def second : Int := 10 ^ 9

structure Leaky where
  capacity : Int
  remaining : Int
  reset : Time
  rate : Int
  amount : Int
  deriving DecidableEq

namespace Leaky

/-- `&leaky{}` -/
def zero : Leaky := ⟨0, 0, 0, 0, 0⟩

def new (rate : Int) (now : Time) : Leaky :=
  { capacity := rate, remaining := rate, reset := now + second, rate := second, amount := 0 }

/-- A new window begins at the second reading of the clock. -/
def refill (l : Leaky) (now later : Time) : Leaky :=
  if now > l.reset then { l with reset := later + l.rate, remaining := l.capacity } else l

def take (l : Leaky) (now later : Time) : Bool × Leaky :=
  let l := l.refill now later
  if l.amount > l.remaining then (false, l)
  else (true, { l with remaining := l.remaining - l.amount })

end Leaky

structure Manager where
  zones : Text → Option (Text → Option Leaky)

def newRateManager : Manager := ⟨fun _ => none⟩

namespace Manager

def limiter (m : Manager) (key zone : Text) : Option Leaky := (m.zones zone).bind (· key)

def store (m : Manager) (key zone : Text) (l : Leaky) : Manager :=
  ⟨Function.update m.zones zone
    (some (Function.update ((m.zones zone).getD fun _ => none) key (some l)))⟩

def setup (m : Manager) (key zone : Text) (rate : Int) (now : Time) : Leaky × Manager :=
  match m.zones zone with
  | some z => match z key with
    | some l => (l, m)
    | none => (.new rate now, m.store key zone (.new rate now))
  | none => (.zero, m.store key zone .zero)

end Manager

inductive Event where
  | setup (key zone : Text) (rate : Int) (now : Time)
  /-- A call of the limiter that was set up, with the two readings of the clock. -/
  | take (key zone : Text) (now later : Time)
  deriving DecidableEq

namespace Event

def About (key zone : Text) : Event → Prop
  | setup k z _ _ => k = key ∧ z = zone
  | take k z _ _ => k = key ∧ z = zone

instance (key zone : Text) : DecidablePred (About key zone)
  | setup .. => inferInstanceAs (Decidable (_ ∧ _))
  | take .. => inferInstanceAs (Decidable (_ ∧ _))

def Positive : Event → Prop
  | setup _ _ rate _ => 1 ≤ rate
  | take .. => True

end Event

/-- What came of a call of `take`. -/
structure Taken where
  key : Text
  zone : Text
  /-- The call began a new window. -/
  reset : Bool
  ok : Bool
  deriving DecidableEq

/-- Before its `setup` there is no limiter that could be called. -/
def step (m : Manager) : Event → Manager × List Taken
  | .setup key zone rate now => ((m.setup key zone rate now).2, [])
  | .take key zone now later => match m.limiter key zone with
    | none => (m, [])
    | some l => (m.store key zone (l.take now later).2,
        [⟨key, zone, decide (now > l.reset), (l.take now later).1⟩])

def run (m : Manager) : List Event → List Taken
  | [] => []
  | e :: events => (step m e).2 ++ run (step m e).1 events

def takesOf (key zone : Text) (taken : List Taken) : List Taken :=
  taken.filter fun t => t.key = key ∧ t.zone = zone

/-- Calls in a row, none of which but the first began a new window. -/
def IsWindow (takes window : List Taken) : Prop :=
  window <:+: takes ∧ ∀ t ∈ window.tail, t.reset = false

/-! ## Limiters of the manager -/

/-- A limiter that costs nothing to call. -/
structure Free (l : Leaky) : Prop where
  amount : l.amount = 0
  capacity : 0 ≤ l.capacity
  remaining : 0 ≤ l.remaining

theorem free_refill {l : Leaky} (free : Free l) (now later : Time) :
    Free (l.refill now later) := by
  rw [Leaky.refill]
  split
  · exact ⟨free.amount, free.capacity, free.capacity⟩
  · exact free

theorem free_take {l : Leaky} (free : Free l) (now later : Time) :
    (l.take now later).1 = true ∧ Free (l.take now later).2 := by
  have filled := free_refill free now later
  have enough : ¬ (l.refill now later).amount > (l.refill now later).remaining := by
    rw [filled.amount, gt_iff_lt, not_lt]
    exact filled.remaining
  rw [Leaky.take, if_neg enough]
  refine ⟨rfl, filled.amount, filled.capacity, ?_⟩
  have nothing := filled.amount
  have rest := filled.remaining
  show 0 ≤ (l.refill now later).remaining - (l.refill now later).amount
  omega

theorem limiter_store (m : Manager) (key zone : Text) (l : Leaky) (k z : Text) :
    (m.store key zone l).limiter k z =
      if k = key ∧ z = zone then some l else m.limiter k z := by
  simp only [Manager.limiter, Manager.store]
  by_cases same : z = zone
  · subst same
    rw [Function.update_self, Option.bind_some, Function.update_apply]
    by_cases here : k = key
    · rw [if_pos here, if_pos ⟨here, rfl⟩]
    · rw [if_neg here, if_neg fun both => here both.1]
      cases m.zones z with
      | none => rfl
      | some keys => rfl
  · rw [Function.update_of_ne same, if_neg fun both => same both.2]

/-- A `setup` leaves the limiter that is there, or adds one. -/
theorem setup_cases (m : Manager) (key zone : Text) {rate : Int} (positive : 1 ≤ rate)
    (now : Time) :
    (∃ l, m.limiter key zone = some l ∧ (m.setup key zone rate now).2 = m) ∨
      ∃ l, Free l ∧ m.limiter key zone = none ∧
        (m.setup key zone rate now).2 = m.store key zone l := by
  rw [Manager.setup, Manager.limiter]
  cases m.zones zone with
  | none => exact Or.inr ⟨.zero, ⟨rfl, le_rfl, le_rfl⟩, rfl, rfl⟩
  | some keys =>
    rw [Option.bind_some]
    cases present : keys key with
    | some l => exact Or.inl ⟨l, rfl, by simp only [present]⟩
    | none =>
      have nonneg : 0 ≤ rate := by omega
      exact Or.inr ⟨.new rate now, ⟨rfl, nonneg, nonneg⟩, rfl, by simp only [present]⟩

def AllFree (m : Manager) : Prop := ∀ key zone l, m.limiter key zone = some l → Free l

theorem allFree_new : AllFree newRateManager := nofun

theorem allFree_store {m : Manager} (free : AllFree m) (key zone : Text) {l : Leaky}
    (new : Free l) : AllFree (m.store key zone l) := by
  intro k z l' held
  rw [limiter_store] at held
  split at held
  · cases held
    exact new
  · exact free k z l' held

/-- Whatever is called, the limiters stay free and the calls succeed. -/
theorem allFree_step {m : Manager} (free : AllFree m) {e : Event} (positive : e.Positive) :
    AllFree (step m e).1 ∧ ∀ t ∈ (step m e).2, t.ok = true := by
  cases e with
  | setup key zone rate now =>
    refine ⟨?_, List.forall_mem_nil _⟩
    rcases setup_cases m key zone positive now with ⟨l, -, same⟩ | ⟨l, new, -, stored⟩
    · rw [step, same]
      exact free
    · rw [step, stored]
      exact allFree_store free key zone new
  | take key zone now later =>
    rw [step]
    cases held : m.limiter key zone with
    | none => exact ⟨free, List.forall_mem_nil _⟩
    | some l =>
      obtain ⟨ok, kept⟩ := free_take (free key zone l held) now later
      exact ⟨allFree_store free key zone kept, List.forall_mem_singleton.mpr ok⟩

theorem run_ok {m : Manager} (free : AllFree m) {events : List Event}
    (positive : ∀ e ∈ events, e.Positive) : ∀ t ∈ run m events, t.ok = true := by
  induction events generalizing m with
  | nil => exact List.forall_mem_nil _
  | cons e events ih =>
    obtain ⟨first, rest⟩ := List.forall_mem_cons.mp positive
    obtain ⟨free', ok⟩ := allFree_step free first
    intro t member
    rcases List.mem_append.mp member with member | member
    · exact ok t member
    · exact ih free' rest t member

/-! ## Other pairs -/

section Pair

variable (key zone : Text)

/-- Whether there is a limiter for a pair depends on the calls for the pair only. -/
theorem step_other (m : Manager) {e : Event} (positive : e.Positive)
    (other : ¬ e.About key zone) :
    (step m e).1.limiter key zone = m.limiter key zone ∧
      takesOf key zone (step m e).2 = [] := by
  cases e with
  | setup k z rate now =>
    refine ⟨?_, rfl⟩
    rcases setup_cases m k z positive now with ⟨l, -, same⟩ | ⟨l, -, -, stored⟩
    · rw [step, same]
    · rw [step, stored, limiter_store, if_neg]
      rintro ⟨rfl, rfl⟩
      exact other ⟨rfl, rfl⟩
  | take k z now later =>
    rw [step]
    cases m.limiter k z with
    | none => exact ⟨rfl, rfl⟩
    | some l =>
      refine ⟨?_, ?_⟩
      · rw [limiter_store, if_neg]
        rintro ⟨rfl, rfl⟩
        exact other ⟨rfl, rfl⟩
      · exact List.filter_eq_nil_iff.mpr fun t member => by
          rw [List.mem_singleton.mp member, decide_eq_true_eq]
          exact other

theorem step_about {m n : Manager} {e : Event} (positive : e.Positive) (about : e.About key zone)
    (same : (m.limiter key zone).isSome = (n.limiter key zone).isSome) :
    ((step m e).1.limiter key zone).isSome = ((step n e).1.limiter key zone).isSome ∧
      (takesOf key zone (step m e).2).length = (takesOf key zone (step n e).2).length := by
  have setup_some : ∀ (m : Manager) (rate : Int) (now : Time), 1 ≤ rate →
      ((m.setup key zone rate now).2.limiter key zone).isSome = true := by
    intro m rate now positive
    rcases setup_cases m key zone positive now with ⟨l, held, same⟩ | ⟨l, -, -, stored⟩
    · rw [same, held, Option.isSome_some]
    · rw [stored, limiter_store, if_pos ⟨rfl, rfl⟩, Option.isSome_some]
  cases e with
  | setup k z rate now =>
    obtain ⟨rfl, rfl⟩ := about
    exact ⟨(setup_some m rate now positive).trans (setup_some n rate now positive).symm, rfl⟩
  | take k z now later =>
    obtain ⟨rfl, rfl⟩ := about
    simp only [step]
    cases in_m : m.limiter k z with
    | none =>
      rw [in_m, Option.isSome_none, eq_comm, Option.isSome_eq_false_iff,
        Option.isNone_iff_eq_none] at same
      simp [same, in_m]
    | some l =>
      rw [in_m, Option.isSome_some, eq_comm, Option.isSome_iff_exists] at same
      obtain ⟨l', in_n⟩ := same
      simp [in_n, limiter_store, takesOf]

theorem length_takesOf_run {m n : Manager} {events : List Event}
    (positive : ∀ e ∈ events, e.Positive)
    (same : (m.limiter key zone).isSome = (n.limiter key zone).isSome) :
    (takesOf key zone (run m events)).length =
      (takesOf key zone (run n (events.filter (Event.About key zone)))).length := by
  induction events generalizing m n with
  | nil => rfl
  | cons e events ih =>
    obtain ⟨first, rest⟩ := List.forall_mem_cons.mp positive
    rw [run, takesOf, List.filter_append, List.length_append]
    by_cases about : e.About key zone
    · obtain ⟨same', length⟩ := step_about key zone first about same
      rw [List.filter_cons_of_pos (by simpa using about), run, takesOf, List.filter_append,
        List.length_append]
      exact congrArg₂ _ length (ih rest same')
    · obtain ⟨kept, nothing⟩ := step_other key zone m first about
      rw [List.filter_cons_of_neg (by simpa using about)]
      have later := ih (n := n) rest ((congrArg Option.isSome kept).trans same)
      have here := congrArg List.length nothing
      rw [takesOf] at later here
      rw [here, later, List.length_nil, Nat.zero_add]

end Pair

theorem map_ok_eq_replicate {takes : List Taken} (ok : ∀ t ∈ takes, t.ok = true) :
    takes.map Taken.ok = List.replicate takes.length true :=
  List.map_eq_replicate_iff.mpr ok

/-- No call is refused. So at most `rate` calls of a window succeed iff there are no more, and the
results for a pair do not depend on what is called for others. -/
theorem rate_enforced_iff (events : List Event) (positive : ∀ e ∈ events, e.Positive)
    (key zone : Text) (rate : ℕ) :
    ((∀ window, IsWindow (takesOf key zone (run newRateManager events)) window →
        window.countP Taken.ok ≤ rate) ↔
      ∀ window, IsWindow (takesOf key zone (run newRateManager events)) window →
        window.length ≤ rate) ∧
    (takesOf key zone (run newRateManager events)).map Taken.ok =
      (takesOf key zone (run newRateManager (events.filter (Event.About key zone)))).map
        Taken.ok := by
  have ok_of : ∀ {events : List Event}, (∀ e ∈ events, e.Positive) →
      ∀ t ∈ takesOf key zone (run newRateManager events), t.ok = true :=
    fun positive t member => run_ok allFree_new positive t (List.mem_of_mem_filter member)
  constructor
  · apply forall_congr'
    intro window
    apply imp_congr_right
    intro isWindow
    have all : window.countP Taken.ok = window.length :=
      List.countP_eq_length.mpr fun t member => ok_of positive t (isWindow.1.subset member)
    rw [all]
  · have fewer : ∀ e ∈ events.filter (Event.About key zone), e.Positive :=
      fun e member => positive e (List.mem_of_mem_filter member)
    rw [map_ok_eq_replicate (ok_of positive), map_ok_eq_replicate (ok_of fewer),
      length_takesOf_run key zone positive rfl]

/-- Two keys of one zone, each for one call in a window, and two calls in the same window of the
second. -/
def twoInOneWindow : List Event :=
  [.setup ['a'] ['z'] 1 1, .setup ['b'] ['z'] 1 2, .take ['b'] ['z'] 3 3, .take ['b'] ['z'] 4 4]

theorem rate_enforced_iff_of_two :
    (∀ e ∈ twoInOneWindow, e.Positive) ∧
      (takesOf ['b'] ['z'] (run newRateManager
        (twoInOneWindow.filter (Event.About ['b'] ['z'])))).map Taken.ok = [true, true] := by
  have positive : ∀ e ∈ twoInOneWindow, e.Positive := by
    simp [twoInOneWindow, Event.Positive]
  exact ⟨positive, (rate_enforced_iff twoInOneWindow positive ['b'] ['z'] 1).2.symm⟩

theorem two_succeed_in_one_window :
    ¬ ∀ window, IsWindow (takesOf ['b'] ['z'] (run newRateManager twoInOneWindow)) window →
      window.countP Taken.ok ≤ 1 := by
  intro enforced
  have both := enforced [⟨['b'], ['z'], false, true⟩, ⟨['b'], ['z'], false, true⟩]
    ⟨List.infix_rfl, by simp⟩
  exact absurd both (by decide)

end RateLimit
