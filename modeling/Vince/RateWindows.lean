import Mathlib.Data.List.Basic
import Mathlib.Tactic.Linarith
import Vince.RateLimit

/-!
# Windows of a limiter (`leaky.take`)

A limiter that is called again and again. A call reads the clock once, and once more if it begins a
new window; each call is recorded with the limiter that it met. What was granted since the last
reset is paid for by what remained then, and the next reset comes more than `rate` after the last
one, so that an interval no longer than `rate` meets two windows at most.
-/

namespace RateLimit

/-- The readings of the clock in one call. A call that begins no window makes the first one only. -/
structure Reading where
  now : Time
  later : Time
  le : now ≤ later

/-- The clock does not go back from one call to the next. -/
def InOrder (readings : List Reading) : Prop :=
  readings.Pairwise fun first second => first.later ≤ second.now

structure Call where
  met : Leaky
  reading : Reading

namespace Call

def resets (c : Call) : Bool := c.reading.now > c.met.reset

/-- The limiter when the call decides. -/
def opened (c : Call) : Leaky := c.met.refill c.reading.now c.reading.later

def granted (c : Call) : Bool := (c.met.take c.reading.now c.reading.later).1

def left (c : Call) : Leaky := (c.met.take c.reading.now c.reading.later).2

/-- Some of the time from the first reading to the last is in the interval. -/
def meets (start stop : Time) (c : Call) : Bool :=
  start ≤ c.reading.later && c.reading.now ≤ stop

end Call

/-- One limiter, called at these readings. -/
def Leaky.calls (l : Leaky) : List Reading → List Call
  | [] => []
  | r :: readings => ⟨l, r⟩ :: Leaky.calls (Call.left ⟨l, r⟩) readings

structure Leaky.Valid (l : Leaky) : Prop where
  amount : 1 ≤ l.amount
  nonneg : 0 ≤ l.remaining
  bounded : l.remaining ≤ l.capacity

/-- What no call changes. -/
structure Leaky.Alike (l l' : Leaky) : Prop where
  capacity : l'.capacity = l.capacity
  amount : l'.amount = l.amount
  rate : l'.rate = l.rate

theorem Leaky.Alike.trans {l l' l'' : Leaky} (first : l.Alike l') (second : l'.Alike l'') :
    l.Alike l'' :=
  ⟨second.capacity.trans first.capacity, second.amount.trans first.amount,
    second.rate.trans first.rate⟩

/-! ## One call -/

variable {l : Leaky} {c : Call}

theorem Call.alike_opened (c : Call) : c.met.Alike c.opened := by
  rw [Call.opened, Leaky.refill]
  split
  · exact ⟨rfl, rfl, rfl⟩
  · exact ⟨rfl, rfl, rfl⟩

theorem Call.opened_of_resets (resets : c.resets = true) :
    c.opened.remaining = c.met.capacity ∧ c.opened.reset = c.reading.later + c.met.rate := by
  have after : c.reading.now > c.met.reset := by simpa [Call.resets] using resets
  rw [Call.opened, Leaky.refill, if_pos after]
  exact ⟨rfl, rfl⟩

theorem Call.opened_of_not_resets (same : c.resets = false) : c.opened = c.met := by
  have within : ¬ c.reading.now > c.met.reset := by simpa [Call.resets] using same
  rw [Call.opened, Leaky.refill, if_neg within]

theorem Call.valid_opened (valid : c.met.Valid) : c.opened.Valid := by
  cases resets : c.resets with
  | false =>
    rw [Call.opened_of_not_resets resets]
    exact valid
  | true =>
    have alike := c.alike_opened
    have full := (Call.opened_of_resets resets).1
    refine ⟨?_, ?_, ?_⟩
    · rw [alike.amount]
      exact valid.amount
    · have nonneg := valid.nonneg
      have bounded := valid.bounded
      omega
    · rw [alike.capacity, full]

theorem Call.granted_iff (c : Call) : c.granted = true ↔ c.opened.amount ≤ c.opened.remaining := by
  rw [Call.granted, Leaky.take]
  show (if c.opened.amount > c.opened.remaining then _ else _ : Bool × Leaky).1 = true ↔ _
  split
  · simpa using ‹c.opened.amount > c.opened.remaining›
  · simpa using ‹¬ c.opened.amount > c.opened.remaining›

/-- What a call pays for. -/
def Call.cost (c : Call) : Int := if c.granted then c.met.amount else 0

theorem Call.left_eq (c : Call) :
    c.left = { c.opened with remaining := c.opened.remaining - c.cost } := by
  have amount := c.alike_opened.amount
  have left : c.left = (if c.opened.amount > c.opened.remaining then (false, c.opened)
      else (true, { c.opened with remaining := c.opened.remaining - c.opened.amount })).2 := rfl
  rw [left, Call.cost]
  by_cases granted : c.granted = true
  · have enough := c.granted_iff.mp granted
    rw [if_pos granted, if_neg (by omega), amount]
  · have short : c.opened.amount > c.opened.remaining := by
      rw [c.granted_iff, Int.not_le] at granted
      exact granted
    rw [if_neg granted, if_pos short, Int.sub_zero]

theorem Call.alike_left (c : Call) : c.met.Alike c.left := by
  have alike := c.alike_opened
  rw [c.left_eq]
  exact ⟨alike.capacity, alike.amount, alike.rate⟩

theorem Call.remaining_left (c : Call) : c.left.remaining + c.cost = c.opened.remaining := by
  rw [c.left_eq]
  show c.opened.remaining - c.cost + c.cost = c.opened.remaining
  omega

theorem Call.valid_left (valid : c.met.Valid) : c.left.Valid := by
  have opened := Call.valid_opened valid
  have alike := c.alike_opened
  have amount := valid.amount
  have enough := c.granted_iff
  rw [c.left_eq, Call.cost]
  refine ⟨opened.amount, ?_, ?_⟩
  · show 0 ≤ c.opened.remaining - _
    have nonneg := opened.nonneg
    split
    · have := alike.amount
      have := enough.mp ‹c.granted = true›
      omega
    · omega
  · show c.opened.remaining - _ ≤ c.opened.capacity
    have bounded := opened.bounded
    split <;> omega

/-! ## Calls in a row -/

theorem mem_calls {readings : List Reading} (valid : l.Valid) (member : c ∈ l.calls readings) :
    l.Alike c.met ∧ c.met.Valid := by
  induction readings generalizing l with
  | nil => cases member
  | cons r readings ih =>
    rcases List.mem_cons.mp member with rfl | later
    · exact ⟨⟨rfl, rfl, rfl⟩, valid⟩
    · obtain ⟨alike, valid'⟩ := ih (Call.valid_left valid) later
      exact ⟨(Call.alike_left ⟨l, r⟩).trans alike, valid'⟩

/-- Calls in a row are those of the limiter that the first one met. -/
theorem suffix_calls {readings : List Reading} (valid : l.Valid) {calls : List Call}
    (suffix : calls <:+ l.calls readings) :
    ∃ l' readings', calls = Leaky.calls l' readings' ∧ l.Alike l' ∧ l'.Valid := by
  induction readings generalizing l with
  | nil => exact ⟨l, [], List.suffix_nil.mp suffix, ⟨rfl, rfl, rfl⟩, valid⟩
  | cons r readings ih =>
    rcases List.suffix_cons_iff.mp suffix with all | fewer
    · exact ⟨l, r :: readings, all, ⟨rfl, rfl, rfl⟩, valid⟩
    · obtain ⟨l', readings', same, alike, valid'⟩ := ih (Call.valid_left valid) fewer
      exact ⟨l', readings', same, (Call.alike_left ⟨l, r⟩).trans alike, valid'⟩

theorem prefix_calls {readings : List Reading} {calls : List Call}
    (begins : calls <+: l.calls readings) : ∃ readings', calls = l.calls readings' := by
  induction readings generalizing l calls with
  | nil => exact ⟨[], List.prefix_nil.mp begins⟩
  | cons r readings ih =>
    rcases List.prefix_cons_iff.mp begins with none | ⟨fewer, rfl, shorter⟩
    · exact ⟨[], none⟩
    · obtain ⟨readings', same⟩ := ih shorter
      exact ⟨r :: readings', by rw [same, Leaky.calls]⟩

theorem infix_calls {readings : List Reading} (valid : l.Valid) {calls : List Call}
    (inside : calls <:+: l.calls readings) :
    ∃ l' readings', calls = Leaky.calls l' readings' ∧ l.Alike l' ∧ l'.Valid := by
  obtain ⟨later, shorter, suffix⟩ := List.infix_iff_prefix_suffix.mp inside
  obtain ⟨l', readings', rfl, alike, valid'⟩ := suffix_calls valid suffix
  obtain ⟨readings'', same⟩ := prefix_calls shorter
  exact ⟨l', readings'', same, alike, valid'⟩

/-! ## Counting -/

/-- The granted calls among those that are looked at. -/
def grants (looked : Call → Bool) (calls : List Call) : Int :=
  calls.countP fun c => c.granted && looked c

theorem grants_cons (looked : Call → Bool) (c : Call) (calls : List Call) :
    grants looked (c :: calls) =
      (if c.granted && looked c then 1 else 0) + grants looked calls := by
  rw [grants, grants, List.countP_cons]
  split <;> omega

/-- A call that is counted has paid the amount. -/
theorem charge_le_cost (looked : Call → Bool) (valid : c.met.Valid) :
    (if c.granted && looked c then 1 else 0) * c.met.amount ≤ c.cost := by
  have amount := valid.amount
  rw [Call.cost]
  cases c.granted with
  | false => simp
  | true =>
    cases looked c with
    | false =>
      simp only [Bool.and_false, Bool.false_eq_true, if_false, if_true]
      omega
    | true => simp

/-- One call and the ones after it are paid for by what remained when the first one decided, if
those after it are by what it has left. -/
theorem grants_cons_mul_le {looked : Call → Bool} {calls : List Call} (valid : c.met.Valid)
    (rest : grants looked calls * c.met.amount ≤ c.left.remaining) :
    grants looked (c :: calls) * c.met.amount ≤ c.opened.remaining := by
  have first := charge_le_cost looked valid
  have paid := c.remaining_left
  rw [grants_cons, Int.add_mul]
  omega

/-- In a window, what is granted is paid for by what remains at its beginning. -/
theorem grants_mul_le_of_no_reset {readings : List Reading} (valid : l.Valid)
    (same : ∀ c ∈ l.calls readings, c.resets = false) (looked : Call → Bool) :
    grants looked (l.calls readings) * l.amount ≤ l.remaining := by
  induction readings generalizing l with
  | nil =>
    have nonneg := valid.nonneg
    simpa [Leaky.calls, grants] using nonneg
  | cons r readings ih =>
    obtain ⟨first, rest⟩ := List.forall_mem_cons.mp same
    have later := ih (Call.valid_left valid) rest
    rw [(Call.alike_left ⟨l, r⟩).amount] at later
    have total := grants_cons_mul_le (c := ⟨l, r⟩) valid later
    rw [Call.opened_of_not_resets first] at total
    exact total

theorem grants_of_window {readings : List Reading} (valid : l.Valid)
    (same : ∀ c ∈ (l.calls readings).tail, c.resets = false) (looked : Call → Bool) :
    grants looked (l.calls readings) * l.amount ≤ l.capacity := by
  cases readings with
  | nil =>
    have nonneg := valid.nonneg
    have bounded := valid.bounded
    simp only [Leaky.calls, grants, List.countP_nil]
    omega
  | cons r readings =>
    have later := grants_mul_le_of_no_reset (Call.valid_left valid) same looked
    rw [(Call.alike_left ⟨l, r⟩).amount] at later
    have total := grants_cons_mul_le (c := ⟨l, r⟩) valid later
    have bounded := (Call.valid_opened (c := ⟨l, r⟩) valid).bounded
    rw [(Call.alike_opened ⟨l, r⟩).capacity] at bounded
    exact total.trans bounded

/-! ## An interval -/

section Interval

variable (start stop : Time)

theorem not_meets_of_late {readings : List Reading} (late : ∀ r ∈ readings, stop < r.now)
    (l : Leaky) : grants (Call.meets start stop) (l.calls readings) = 0 := by
  induction readings generalizing l with
  | nil => rfl
  | cons r readings ih =>
    obtain ⟨first, rest⟩ := List.forall_mem_cons.mp late
    rw [Leaky.calls, grants_cons, ih rest]
    simp [Call.meets, first]

/-- No window begins in the interval any more. -/
theorem grants_mul_le_of_reset_after {readings : List Reading} (order : InOrder readings)
    (valid : l.Valid) (after : stop ≤ l.reset) :
    grants (Call.meets start stop) (l.calls readings) * l.amount ≤ l.remaining := by
  induction readings generalizing l with
  | nil =>
    have nonneg := valid.nonneg
    simpa [Leaky.calls, grants] using nonneg
  | cons r readings ih =>
    obtain ⟨first, rest⟩ := List.pairwise_cons.mp order
    by_cases late : stop < r.now
    · have all : ∀ r' ∈ r :: readings, stop < r'.now := by
        refine List.forall_mem_cons.mpr ⟨late, fun r' member => ?_⟩
        exact lt_of_lt_of_le late (r.le.trans (first r' member))
      rw [not_meets_of_late start stop all, Int.zero_mul]
      exact valid.nonneg
    · have same : Call.resets ⟨l, r⟩ = false := by
        simp only [Call.resets, gt_iff_lt, decide_eq_false_iff_not, not_lt]
        exact (not_lt.mp late).trans after
      have met := Call.opened_of_not_resets same
      have reset : (Call.left ⟨l, r⟩).reset = l.reset := by
        rw [Call.left_eq, met]
      have later := ih rest (Call.valid_left valid) (by rw [reset]; exact after)
      rw [(Call.alike_left ⟨l, r⟩).amount] at later
      have total := grants_cons_mul_le (c := ⟨l, r⟩) valid later
      rw [met] at total
      exact total

/-- Of the calls in the interval, the first are paid for by what remains and the others by the one
window that begins there. -/
theorem grants_split {readings : List Reading} (order : InOrder readings) (valid : l.Valid)
    (begun : ∀ r ∈ readings, start ≤ r.later) (short : stop - start ≤ l.rate) :
    ∃ old new, grants (Call.meets start stop) (l.calls readings) = old + new ∧
      old * l.amount ≤ l.remaining ∧ new * l.amount ≤ l.capacity := by
  induction readings generalizing l with
  | nil =>
    have nonneg := valid.nonneg
    have bounded := valid.bounded
    exact ⟨0, 0, rfl, by omega, by omega⟩
  | cons r readings ih =>
    obtain ⟨-, rest⟩ := List.pairwise_cons.mp order
    obtain ⟨here, begun'⟩ := List.forall_mem_cons.mp begun
    have alike := Call.alike_left ⟨l, r⟩
    cases resets : Call.resets ⟨l, r⟩ with
    | true =>
      -- the next reset comes after the interval
      obtain ⟨full, reset⟩ := Call.opened_of_resets resets
      have after : stop ≤ (Call.left ⟨l, r⟩).reset := by
        rw [Call.left_eq]
        show stop ≤ (Call.opened ⟨l, r⟩).reset
        rw [reset]
        show stop ≤ r.later + l.rate
        linarith
      have later := grants_mul_le_of_reset_after start stop rest (Call.valid_left valid) after
      rw [alike.amount] at later
      have total := grants_cons_mul_le (c := ⟨l, r⟩) valid later
      rw [full] at total
      have nonneg := valid.nonneg
      exact ⟨0, _, (Int.zero_add _).symm, by omega, total⟩
    | false =>
      have same := Call.opened_of_not_resets resets
      obtain ⟨old, new, count, paid, fresh⟩ :=
        ih rest (Call.valid_left valid) begun' (by rw [alike.rate]; exact short)
      rw [alike.amount] at paid fresh
      rw [alike.capacity] at fresh
      rw [Leaky.calls, grants_cons, count]
      refine ⟨_ + old, new, (Int.add_assoc _ _ _).symm, ?_, fresh⟩
      have first := charge_le_cost (c := ⟨l, r⟩) (Call.meets start stop) valid
      have left := Call.remaining_left ⟨l, r⟩
      rw [same] at left
      rw [Int.add_mul]
      linarith

theorem grants_in_interval {readings : List Reading} (order : InOrder readings) (valid : l.Valid)
    (short : stop - start ≤ l.rate) :
    grants (Call.meets start stop) (l.calls readings) ≤ 2 * (l.capacity / l.amount) := by
  induction readings generalizing l with
  | nil =>
    have capacity : 0 ≤ l.capacity := valid.nonneg.trans valid.bounded
    have amount : 0 ≤ l.amount := by
      have := valid.amount
      omega
    have quotient := Int.ediv_nonneg capacity amount
    simp only [Leaky.calls, grants, List.countP_nil]
    omega
  | cons r readings ih =>
    obtain ⟨first, rest⟩ := List.pairwise_cons.mp order
    have alike := Call.alike_left ⟨l, r⟩
    by_cases early : r.later < start
    · have later := ih rest (Call.valid_left valid) (by rw [alike.rate]; exact short)
      rw [alike.capacity, alike.amount] at later
      have outside : Call.meets start stop ⟨l, r⟩ = false := by
        simp [Call.meets, early]
      rw [Leaky.calls, grants_cons, outside, Bool.and_false]
      simpa using later
    · have begun : ∀ r' ∈ r :: readings, start ≤ r'.later := by
        have here : start ≤ r.later := not_lt.mp early
        refine List.forall_mem_cons.mpr ⟨here, fun r' member => ?_⟩
        exact here.trans ((first r' member).trans r'.le)
      obtain ⟨old, new, count, paid, fresh⟩ := grants_split start stop order valid begun short
      have amount : 0 < l.amount := valid.amount
      have first := (Int.le_ediv_iff_mul_le amount).mpr (paid.trans valid.bounded)
      have second := (Int.le_ediv_iff_mul_le amount).mpr fresh
      omega

end Interval

/-! ## The bounds -/

/-- Between two resets no more than the capacity is granted, and in an interval that is no longer
than `rate` no more than twice that. -/
theorem window_bounds (l : Leaky) (valid : l.Valid) (readings : List Reading)
    (order : InOrder readings) :
    (∀ c ∈ l.calls readings,
      (0 ≤ c.met.remaining ∧ c.met.remaining ≤ l.capacity) ∧
        0 ≤ c.left.remaining ∧ c.left.remaining ≤ l.capacity) ∧
    (∀ window, window <:+: l.calls readings → (∀ c ∈ window.tail, c.resets = false) →
      (window.countP Call.granted : Int) ≤ l.capacity / l.amount) ∧
    (∀ c ∈ l.calls readings, c.granted = false ↔ c.opened.remaining < l.amount) ∧
    ∀ start stop, stop - start ≤ l.rate →
      ((l.calls readings).countP fun c => c.granted && c.meets start stop : Int) ≤
        2 * (l.capacity / l.amount) := by
  refine ⟨fun c member => ?_, fun window inside same => ?_, fun c member => ?_,
    fun start stop short => grants_in_interval start stop order valid short⟩
  · obtain ⟨alike, met⟩ := mem_calls valid member
    have left := Call.valid_left met
    rw [← alike.capacity]
    refine ⟨⟨met.nonneg, met.bounded⟩, left.nonneg, ?_⟩
    rw [← (Call.alike_left c).capacity]
    exact left.bounded
  · obtain ⟨l', readings', rfl, alike, valid'⟩ := infix_calls valid inside
    have paid := grants_of_window valid' same fun _ => true
    simp only [grants, Bool.and_true] at paid
    rw [← alike.capacity, ← alike.amount]
    exact (Int.le_ediv_iff_mul_le valid'.amount).mpr paid
  · obtain ⟨alike, -⟩ := mem_calls valid member
    have amount := (Call.alike_opened c).amount
    have enough := c.granted_iff
    rw [amount, alike.amount] at enough
    rw [← Bool.not_eq_true, enough, Int.not_le]

/-- Two calls of a window of five and then the third, at the time of the reset, which is still in
the window; the fourth begins the next one. -/
theorem window_bounds_sample :
    let l : Leaky := ⟨5, 5, 0, 10, 2⟩
    let readings : List Reading := [⟨1, 1, Int.le_refl _⟩, ⟨2, 2, Int.le_refl _⟩,
      ⟨11, 11, Int.le_refl _⟩, ⟨12, 13, by decide⟩]
    (l.calls readings).map Call.granted = [true, true, false, true] ∧
      (((l.calls readings).countP fun c => c.granted && c.meets 2 12 : ℕ) : Int) ≤
        2 * (5 / 2) := by
  intro l readings
  have order : InOrder readings := by
    simp [InOrder, readings]
  exact ⟨by decide, (window_bounds l ⟨by decide, by decide, by decide⟩ readings order).2.2.2 2 12
    (by decide)⟩

end RateLimit
