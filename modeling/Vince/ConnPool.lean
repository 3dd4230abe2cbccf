import Vince.Transitions
import Mathlib.Algebra.BigOperators.Fin
import Mathlib.Algebra.Order.BigOperators.Group.Finset
import Mathlib.Order.Bounds.Basic

/-!
# The pool of connections (`conn_pool.go`)

Callers take connections out of a channel and put them back. A caller that finds the channel empty
may dial while fewer than `size` connections have been counted; the comparison and the counting are
two steps. The method `init` makes the channel but leaves `size` at zero.

The steps of any number of callers are interleaved. Callers put back only what they hold, and what
they have put back they do not use. A connection is the number of the dial that made it.
-/

namespace ConnPool

open Relation

/-- The fields of a pool that do not change, with the capacity of its channel. -/
structure Pool where
  size : ℕ
  capacity : ℕ

/-- The method `init`. -/
def init (size : ℕ) : Pool where
  size := 0
  capacity := size

/-- Where a caller is. -/
inductive Phase where
  | outside
  /-- in `take`, with nothing received -/
  | missed
  /-- `created` was below `size` -/
  | allowed
  | dialing
  /-- in the `select` of `wait` -/
  | waiting
  /-- in `put` -/
  | putting (conn : ℕ)
  deriving DecidableEq

structure Caller where
  phase : Phase := .outside
  held : List ℕ := []

/-- What the callers share, and the callers. The number of connections that have been dialled is no
field of the pool. -/
structure State (ι : Type) where
  conns : List ℕ := []
  /-- A `uint64`. -/
  created : ℕ := 0
  dialled : ℕ := 0
  callers : ι → Caller := fun _ => {}

variable {ι : Type} [DecidableEq ι]

def State.set (s : State ι) (t : ι) (c : Caller) : State ι :=
  { s with callers := Function.update s.callers t c }

@[simp] theorem State.set_conns (s : State ι) (t : ι) (c : Caller) :
    (s.set t c).conns = s.conns := rfl

@[simp] theorem State.set_created (s : State ι) (t : ι) (c : Caller) :
    (s.set t c).created = s.created := rfl

@[simp] theorem State.set_dialled (s : State ι) (t : ι) (c : Caller) :
    (s.set t c).dialled = s.dialled := rfl

@[simp] theorem State.set_self (s : State ι) (t : ι) (c : Caller) :
    (s.set t c).callers t = c := by
  simp [State.set]

theorem State.set_of_ne (s : State ι) {t t' : ι} (c : Caller) (other : t' ≠ t) :
    (s.set t c).callers t' = s.callers t' := by
  simp [State.set, other]

/-- One step of one caller; two of them in a channel without capacity. -/
inductive Step (p : Pool) : State ι → State ι → Prop
  | receive {s t held c rest} (here : s.callers t = ⟨.outside, held⟩) (some : s.conns = c :: rest) :
    Step p s ({ s with conns := rest }.set t ⟨.outside, c :: held⟩)
  | miss {s t held} (here : s.callers t = ⟨.outside, held⟩) (none : s.conns = []) :
    Step p s (s.set t ⟨.missed, held⟩)
  | allow {s t held} (here : s.callers t = ⟨.missed, held⟩) (below : s.created < p.size) :
    Step p s (s.set t ⟨.allowed, held⟩)
  | refuse {s t held} (here : s.callers t = ⟨.missed, held⟩) (reached : ¬ s.created < p.size) :
    Step p s (s.set t ⟨.waiting, held⟩)
  | count {s t held} (here : s.callers t = ⟨.allowed, held⟩) :
    Step p s ({ s with created := (s.created + 1) % 2 ^ 64 }.set t ⟨.dialing, held⟩)
  | dial {s t held} (here : s.callers t = ⟨.dialing, held⟩) :
    Step p s ({ s with dialled := s.dialled + 1 }.set t ⟨.outside, s.dialled :: held⟩)
  | dialFails {s t held} (here : s.callers t = ⟨.dialing, held⟩) :
    Step p s (s.set t ⟨.outside, held⟩)
  | receiveLate {s t held c rest} (here : s.callers t = ⟨.waiting, held⟩)
      (some : s.conns = c :: rest) :
    Step p s ({ s with conns := rest }.set t ⟨.outside, c :: held⟩)
  | timeout {s t held} (here : s.callers t = ⟨.waiting, held⟩) :
    Step p s (s.set t ⟨.outside, held⟩)
  -- nothing in `put` looks at what is put back
  | put {s t held c} (here : s.callers t = ⟨.outside, held⟩) (own : c ∈ held) :
    Step p s (s.set t ⟨.putting c, held.erase c⟩)
  | drop {s t held c} (here : s.callers t = ⟨.outside, held⟩) (own : c ∈ held) :
    Step p s (s.set t ⟨.outside, held.erase c⟩)
  | send {s t held c} (here : s.callers t = ⟨.putting c, held⟩)
      (room : s.conns.length < p.capacity) :
    Step p s ({ s with conns := s.conns ++ [c] }.set t ⟨.outside, held⟩)
  | handOver {s t held c t' phase held'} (here : s.callers t = ⟨.putting c, held⟩)
      (there : s.callers t' = ⟨phase, held'⟩) (ready : phase = .outside ∨ phase = .waiting)
      (unbuffered : p.capacity = 0) :
    Step p s ((s.set t ⟨.outside, held⟩).set t' ⟨.outside, c :: held'⟩)

/-- What callers that have nothing at first can bring about. -/
def Reachable (p : Pool) (s : State ι) : Prop := ReflTransGen (Step p) {} s

/-! ## Callers that all dial -/

variable {p : Pool}

/-- A caller that comes to an empty channel and is allowed to dial. -/
theorem Reachable.toAllowed {s : State ι} {t : ι} {held : List ℕ} (reached : Reachable p s)
    (here : s.callers t = ⟨.outside, held⟩) (none : s.conns = []) (below : s.created < p.size) :
    Reachable p (s.set t ⟨.allowed, held⟩) := by
  have missed := ReflTransGen.tail reached (Step.miss here none)
  have allowed := ReflTransGen.tail missed
    (Step.allow (State.set_self s t ⟨.missed, held⟩) below)
  have same : (s.set t ⟨.missed, held⟩).set t ⟨.allowed, held⟩ = s.set t ⟨.allowed, held⟩ := by
    simp [State.set]
  rwa [same] at allowed

/-- A caller that is allowed to dial, and does. -/
theorem Reachable.toDialled {s : State ι} {t : ι} {held : List ℕ} (reached : Reachable p s)
    (here : s.callers t = ⟨.allowed, held⟩) :
    Reachable p ({ s with created := (s.created + 1) % 2 ^ 64, dialled := s.dialled + 1 }.set t
      ⟨.outside, s.dialled :: held⟩) := by
  have counted := ReflTransGen.tail reached (Step.count here)
  have dialled := ReflTransGen.tail counted
    (Step.dial (State.set_self { s with created := (s.created + 1) % 2 ^ 64 } t ⟨.dialing, held⟩))
  have same : ({ ({ s with created := (s.created + 1) % 2 ^ 64 }.set t ⟨.dialing, held⟩) with
        dialled := s.dialled + 1 } : State ι).set t ⟨.outside, s.dialled :: held⟩ =
      { s with created := (s.created + 1) % 2 ^ 64, dialled := s.dialled + 1 }.set t
        ⟨.outside, s.dialled :: held⟩ := by
    simp [State.set]
  rwa [← same]

/-- One caller alone takes connections while there are fewer than `size`. -/
theorem alone (t : ι) {k : ℕ} (few : k ≤ p.size) (fits : p.size < 2 ^ 64) :
    ∃ s : State ι, Reachable p s ∧ s.conns = [] ∧ s.created = k ∧ s.dialled = k ∧
      ∀ t', (s.callers t').phase = .outside := by
  induction k with
  | zero => exact ⟨{}, .refl, rfl, rfl, rfl, fun _ => rfl⟩
  | succ k ih =>
    obtain ⟨s, reached, none, created, dialled, outside⟩ := ih (by omega)
    have here : s.callers t = ⟨.outside, (s.callers t).held⟩ := by
      rw [← outside t]
    have allowed := reached.toAllowed here none (by omega)
    have taken := allowed.toDialled (State.set_self s t _)
    refine ⟨_, taken, none, ?_, ?_, fun t' => ?_⟩
    · rw [State.set_created]
      show (s.created + 1) % 2 ^ 64 = k + 1
      omega
    · simp [dialled]
    · by_cases same : t' = t
      · subst same
        rw [State.set_self]
      · rw [State.set_of_ne _ _ same]
        show ((s.set t _).callers t').phase = _
        rw [State.set_of_ne _ _ same, outside]

/-- All callers of a set pass the comparison before any of them is counted. -/
theorem all_allowed {s : State ι} (reached : Reachable p s) (none : s.conns = [])
    (below : s.created < p.size) (outside : ∀ t, (s.callers t).phase = .outside) (S : Finset ι) :
    ∃ s' : State ι, Reachable p s' ∧ s'.conns = [] ∧ s'.created = s.created ∧
      s'.dialled = s.dialled ∧
      ∀ t, (s'.callers t).phase = if t ∈ S then .allowed else .outside := by
  induction S using Finset.induction_on with
  | empty => exact ⟨s, reached, none, rfl, rfl, by simpa using outside⟩
  | insert t S new ih =>
    obtain ⟨s', reached', none', created, dialled, phases⟩ := ih
    have here : s'.callers t = ⟨.outside, (s'.callers t).held⟩ := by
      have phase := phases t
      rw [if_neg new] at phase
      rw [← phase]
    refine ⟨_, reached'.toAllowed here none' (by omega), none', created, dialled, fun t' => ?_⟩
    by_cases same : t' = t
    · subst same
      simp
    · rw [State.set_of_ne _ _ same, phases]
      simp [same]

theorem all_dialled {s : State ι} (reached : Reachable p s)
    (allowed : ∀ t, (s.callers t).phase = .allowed) (S : Finset ι) :
    ∃ s' : State ι, Reachable p s' ∧ s'.dialled = s.dialled + S.card ∧
      ∀ t, t ∉ S → (s'.callers t).phase = .allowed := by
  induction S using Finset.induction_on with
  | empty => exact ⟨s, reached, rfl, fun t _ => allowed t⟩
  | insert t S new ih =>
    obtain ⟨s', reached', dialled, phases⟩ := ih
    have here : s'.callers t = ⟨.allowed, (s'.callers t).held⟩ := by
      rw [← phases t new]
    refine ⟨_, reached'.toDialled here, ?_, fun t' outside => ?_⟩
    · rw [State.set_dialled, Finset.card_insert_of_notMem new]
      show s'.dialled + 1 = _
      omega
    · rw [Finset.mem_insert, not_or] at outside
      rw [State.set_of_ne _ _ outside.1]
      exact phases t' outside.2

/-! ## Sums over the callers -/

variable [Fintype ι]

def total (f : Caller → ℕ) (s : State ι) : ℕ := ∑ t, f (s.callers t)

theorem total_set (f : Caller → ℕ) (s : State ι) (t : ι) (c : Caller) :
    total f (s.set t c) + f (s.callers t) = total f s + f c := by
  have others : ∑ t' ∈ Finset.univ.erase t, f ((s.set t c).callers t') =
      ∑ t' ∈ Finset.univ.erase t, f (s.callers t') := by
    refine Finset.sum_congr rfl fun t' other => ?_
    rw [s.set_of_ne c (Finset.ne_of_mem_erase other)]
  have after := Finset.sum_erase_add Finset.univ (fun t' => f ((s.set t c).callers t'))
    (Finset.mem_univ t)
  have before := Finset.sum_erase_add Finset.univ (fun t' => f (s.callers t')) (Finset.mem_univ t)
  simp only [State.set_self] at after
  simp only [total]
  omega

omit [DecidableEq ι] in
theorem le_total (f : Caller → ℕ) (s : State ι) {t : ι} {c : Caller} (here : s.callers t = c) :
    f c ≤ total f s := by
  rw [← here]
  exact Finset.single_le_sum (f := fun t => f (s.callers t)) (fun t _ => Nat.zero_le _)
    (Finset.mem_univ t)

/-- At how many places a connection is with a caller. -/
def Caller.owns (conn : ℕ) (c : Caller) : ℕ :=
  c.held.count conn + if c.phase = .putting conn then 1 else 0

def Caller.at (phase : Phase) (c : Caller) : ℕ := if c.phase = phase then 1 else 0

/-- At how many places a connection is. -/
def places (conn : ℕ) (s : State ι) : ℕ := s.conns.count conn + total (Caller.owns conn) s

/-- One for a connection that has been dialled. -/
def born (dialled conn : ℕ) : ℕ := if conn < dialled then 1 else 0

/-- The most connections that are ever dialled. -/
def bound (p : Pool) (callers : ℕ) : ℕ := if p.size = 0 then 0 else p.size - 1 + callers

/-- The counter does not wrap around. -/
def Fits (ι : Type) [Fintype ι] (p : Pool) : Prop := bound p (Fintype.card ι) < 2 ^ 64

structure Inv (p : Pool) (s : State ι) : Prop where
  single : ∀ conn, places conn s ≤ born s.dialled conn
  dialled : Fits ι p → s.dialled + total (Caller.at .dialing) s ≤ s.created
  created : Fits ι p → s.created + total (Caller.at .allowed) s ≤ bound p (Fintype.card ι)

omit [DecidableEq ι] in
theorem total_at_le (phase : Phase) (s : State ι) :
    total (Caller.at phase) s ≤ Fintype.card ι := by
  have each : ∀ t ∈ (Finset.univ : Finset ι), (s.callers t).at phase ≤ 1 := by
    intro t _
    unfold Caller.at
    split <;> omega
  have sum := Finset.sum_le_card_nsmul Finset.univ _ 1 each
  simpa [total] using sum

/-! ## What every step keeps -/

/-- One caller moves on, and what is shared may change with it. -/
theorem Inv.move {s s' : State ι} {t : ι} {old new : Caller} (inv : Inv p s)
    (here : s.callers t = old) (after : s'.callers = (s.set t new).callers)
    (single : ∀ conn, s'.conns.count conn + new.owns conn + born s.dialled conn ≤
      s.conns.count conn + old.owns conn + born s'.dialled conn)
    (dialled : Fits ι p → s'.dialled + new.at .dialing + s.created ≤
      s.dialled + old.at .dialing + s'.created)
    (created : Fits ι p →
      s'.created + new.at .allowed ≤ s.created + old.at .allowed ∨ s'.created < p.size) :
    Inv p s' := by
  have moved (f : Caller → ℕ) : total f s' + f old = total f s + f new := by
    have sum := total_set f s t new
    rw [here] at sum
    rw [← sum, total, total, after]
  refine ⟨fun conn => ?_, fun fits => ?_, fun fits => ?_⟩
  · have before := inv.single conn
    have now := single conn
    have sum := moved (Caller.owns conn)
    unfold places at before ⊢
    omega
  · have before := inv.dialled fits
    have now := dialled fits
    have sum := moved (Caller.at .dialing)
    omega
  · rcases created fits with less | below
    · have before := inv.created fits
      have sum := moved (Caller.at .allowed)
      omega
    · have all := total_at_le .allowed s'
      rw [bound, if_neg (by omega)]
      omega

/-- One caller moves on, is neither counted nor dials then, and the counters stay. -/
theorem Inv.rest {s s' : State ι} {t : ι} {old new : Caller} (inv : Inv p s)
    (here : s.callers t = old) (after : s'.callers = (s.set t new).callers)
    (counters : s'.dialled = s.dialled ∧ s'.created = s.created)
    (quiet : new.phase ≠ .dialing ∧ new.phase ≠ .allowed)
    (single : ∀ conn, s'.conns.count conn + new.owns conn ≤ s.conns.count conn + old.owns conn) :
    Inv p s' := by
  have undialled : new.at .dialing = 0 := if_neg quiet.1
  have uncounted : new.at .allowed = 0 := if_neg quiet.2
  refine inv.move here after (fun conn => ?_) (fun _ => by omega) fun _ => .inl (by omega)
  have now := single conn
  rw [counters.1]
  omega

omit [DecidableEq ι] in
theorem Inv.start (p : Pool) : Inv p ({} : State ι) := by
  refine ⟨fun conn => ?_, fun _ => ?_, fun _ => ?_⟩
  · simp [places, total, Caller.owns]
  · simp [total, Caller.at]
  · simp [total, Caller.at]

theorem born_succ (dialled conn : ℕ) :
    born (dialled + 1) conn = born dialled conn + if dialled = conn then 1 else 0 := by
  unfold born
  split <;> split <;> split <;> omega

theorem count_erase_add {held : List ℕ} {c : ℕ} (own : c ∈ held) (conn : ℕ) :
    (held.erase c).count conn + (if c = conn then 1 else 0) = held.count conn := by
  rw [(List.perm_cons_erase own).count_eq conn, List.count_cons]
  simp only [beq_iff_eq]

theorem Inv.step {s s' : State ι} (inv : Inv p s) (step : Step p s s') : Inv p s' := by
  cases step with
  | receive here some =>
    refine inv.rest here rfl ⟨rfl, rfl⟩ (by simp) fun conn => ?_
    rw [some]
    simp only [State.set_conns, Caller.owns, List.count_cons]
    omega
  | miss here none =>
    exact inv.rest here rfl ⟨rfl, rfl⟩ (by simp) fun conn => by simp [Caller.owns]
  | allow here below =>
    exact inv.move here rfl (fun conn => by simp [Caller.owns]) (fun _ => by simp [Caller.at])
      fun _ => .inr below
  | refuse here reached =>
    exact inv.rest here rfl ⟨rfl, rfl⟩ (by simp) fun conn => by simp [Caller.owns]
  | count here =>
    have counted (fits : Fits ι p) : (s.created + 1) % 2 ^ 64 = s.created + 1 := by
      have before := inv.created fits
      have one := le_total (Caller.at .allowed) s here
      simp only [Fits, Caller.at, if_true] at fits one
      omega
    refine inv.move here rfl (fun conn => by simp [Caller.owns]) (fun fits => ?_)
      fun _ => .inl ?_
    · have same := counted fits
      simp [Caller.at]
      omega
    · simp [Caller.at]
      omega
  | dial here =>
    refine inv.move here rfl (fun conn => ?_) (fun _ => by simp [Caller.at])
      fun _ => .inl (by simp [Caller.at])
    simp only [State.set_conns, State.set_dialled, Caller.owns, List.count_cons, born_succ,
      beq_iff_eq, reduceCtorEq, if_false]
    omega
  | dialFails here =>
    exact inv.rest here rfl ⟨rfl, rfl⟩ (by simp) fun conn => by simp [Caller.owns]
  | receiveLate here some =>
    refine inv.rest here rfl ⟨rfl, rfl⟩ (by simp) fun conn => ?_
    rw [some]
    simp only [State.set_conns, Caller.owns, List.count_cons, reduceCtorEq, if_false]
    omega
  | timeout here =>
    exact inv.rest here rfl ⟨rfl, rfl⟩ (by simp) fun conn => by simp [Caller.owns]
  | put here own =>
    refine inv.rest here rfl ⟨rfl, rfl⟩ (by simp) fun conn => ?_
    have erased := count_erase_add own conn
    simp only [State.set_conns, Caller.owns, Phase.putting.injEq, reduceCtorEq, if_false]
    omega
  | drop here own =>
    refine inv.rest here rfl ⟨rfl, rfl⟩ (by simp) fun conn => ?_
    have erased := count_erase_add own conn
    simp only [State.set_conns, Caller.owns, reduceCtorEq, if_false]
    omega
  | send here room =>
    refine inv.rest here rfl ⟨rfl, rfl⟩ (by simp) fun conn => ?_
    simp only [State.set_conns, Caller.owns, List.count_append, List.count_singleton,
      Phase.putting.injEq, reduceCtorEq, if_false, beq_iff_eq]
    omega
  | @handOver t held c t' phase held' here there ready unbuffered =>
    -- as if the connection were in the channel for a moment
    have sent : Inv p ({ s with conns := c :: s.conns }.set t ⟨.outside, held⟩) := by
      refine inv.rest here rfl ⟨rfl, rfl⟩ (by simp) fun conn => ?_
      simp only [State.set_conns, Caller.owns, List.count_cons, Phase.putting.injEq, reduceCtorEq,
        if_false, beq_iff_eq]
      omega
    have other : t' ≠ t := by
      rintro rfl
      rw [here, Caller.mk.injEq] at there
      rcases ready with rfl | rfl <;> simp at there
    rw [← State.set_of_ne { s with conns := c :: s.conns } ⟨.outside, held⟩ other] at there
    refine sent.rest there rfl ⟨rfl, rfl⟩ (by simp) fun conn => ?_
    simp only [State.set_conns, Caller.owns, List.count_cons, reduceCtorEq, if_false]
    omega

theorem Reachable.inv {s : State ι} (reached : Reachable p s) : Inv p s :=
  Transitions.kept_by_run (fun _ _ => Inv.step) (Inv.start p) reached

/-! ## How many connections are dialled -/

/-- Over all interleavings, the most connections that are dialled are one less than the size and one
for each caller: all of them can pass the comparison before any of them is counted. With the size 0
there are none. -/
theorem pool_dials_at_most [Nonempty ι] (p : Pool)
    (fits : bound p (Fintype.card ι) < 2 ^ 64) :
    IsGreatest {n | ∃ s : State ι, Reachable p s ∧ s.dialled = n} (bound p (Fintype.card ι)) := by
  refine ⟨?_, ?_⟩
  · by_cases zero : p.size = 0
    · exact ⟨{}, .refl, by rw [bound, if_pos zero]⟩
    · obtain ⟨t⟩ := ‹Nonempty ι›
      obtain ⟨s, reached, none, created, dialled, outside⟩ :=
        alone (p := p) t (show p.size - 1 ≤ p.size by omega) (by
          have some := Fintype.card_pos_iff.mpr ⟨t⟩
          rw [bound, if_neg zero] at fits
          omega)
      obtain ⟨s', reached', -, -, dialled', phases⟩ :=
        all_allowed reached none (by omega) outside Finset.univ
      obtain ⟨s'', reached'', dialled'', -⟩ :=
        all_dialled reached' (fun t => by simpa using phases t) Finset.univ
      refine ⟨s'', reached'', ?_⟩
      rw [dialled'', dialled', dialled, bound, if_neg zero, Finset.card_univ]
  · rintro n ⟨s, reached, rfl⟩
    have inv := reached.inv
    have dialled := inv.dialled fits
    have created := inv.created fits
    omega

theorem pool_dials_at_most_three_callers :
    IsGreatest {n | ∃ s : State (Fin 3), Reachable ⟨2, 2⟩ s ∧ s.dialled = n} 4 :=
  pool_dials_at_most ⟨2, 2⟩ (by decide)

/-- A connection is never at two places: in the channel, with two callers, or twice with one. -/
theorem pool_single_place (p : Pool) (s : State ι) (reached : Reachable p s) (conn : ℕ) :
    places conn s ≤ 1 := by
  refine (reached.inv.single conn).trans ?_
  unfold born
  split <;> omega

theorem pool_single_place_of_two :
    ∃ s : State (Fin 2), Reachable ⟨2, 0⟩ s ∧ s.dialled = 2 ∧ places 0 s ≤ 1 := by
  obtain ⟨s, reached, -, -, dialled, -⟩ := alone (p := ⟨2, 0⟩) (0 : Fin 2) (Nat.le_refl 2)
    (by decide)
  exact ⟨s, reached, dialled, pool_single_place ⟨2, 0⟩ s reached 0⟩

/-- Whatever size it is given, nobody ever gets a connection from a pool as `init` leaves it:
nothing is dialled, and every call that waits runs into its timeout. -/
theorem pool_init_never_dials (size : ℕ) (s : State ι) (reached : Reachable (init size) s) :
    s.conns = [] ∧ s.created = 0 ∧ ∀ t, (s.callers t).held = [] := by
  have inv := reached.inv
  have fits : Fits ι (init size) := by
    rw [Fits, bound, if_pos (show (init size).size = 0 from rfl)]
    decide
  have dialled := inv.dialled fits
  have created := inv.created fits
  rw [bound, if_pos (show (init size).size = 0 from rfl)] at created
  have nowhere (conn : ℕ) : places conn s = 0 := by
    have single := inv.single conn
    rw [show s.dialled = 0 by omega] at single
    simpa [born] using single
  refine ⟨?_, by omega, fun t => ?_⟩
  · refine List.eq_nil_iff_forall_not_mem.mpr fun conn inside => ?_
    have some := List.count_pos_iff.mpr inside
    have none := nowhere conn
    unfold places at none
    omega
  · refine List.eq_nil_iff_forall_not_mem.mpr fun conn inside => ?_
    have some := List.count_pos_iff.mpr inside
    have none := nowhere conn
    have mine : (s.callers t).owns conn ≤ total (Caller.owns conn) s := le_total _ s rfl
    have held : (s.callers t).held.count conn ≤ (s.callers t).owns conn := Nat.le_add_right _ _
    unfold places at none
    omega

theorem pool_init_never_dials_waiting :
    ∃ s : State (Fin 2), Reachable (init 5) s ∧ (s.callers 0).phase = .waiting ∧
      s.created = 0 := by
  have missed : Reachable (init 5) (State.set ({} : State (Fin 2)) 0 ⟨.missed, []⟩) :=
    ReflTransGen.single (Step.miss rfl rfl)
  have waiting := ReflTransGen.tail missed
    (Step.refuse (State.set_self {} 0 ⟨.missed, []⟩) (Nat.not_lt_zero _))
  exact ⟨_, waiting, rfl, (pool_init_never_dials 5 _ waiting).2.1⟩

end ConnPool
