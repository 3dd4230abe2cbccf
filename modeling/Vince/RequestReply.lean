import Mathlib.Logic.Function.Basic
import Mathlib.Logic.Relation

/-!
# Requests and replies over two shared channels

Any number of calls hand their event to one loop over an unbuffered channel and then take a reply
from another. Nothing on the channels says whose reply it is. As long as the loop replies to every
event it takes before it takes the next one, each call gets its own reply.
-/

namespace RequestReply

universe u v w x
variable {C : Type u} {E : Type v} {R : Type w} {X : Type x}

inductive Phase (E : Type v) (R : Type w) (X : Type x) where
  | idle
  | sending (e : E)
  | waiting (e : E)
  | answered (e : E) (r : R)
  /-- The call was refused before it sent anything. -/
  | failed (err : X)
  deriving DecidableEq

inductive Loop (R : Type w) where
  | running
  | replying (r : R)
  | stopped
  deriving DecidableEq

/-- The last two fields record, for each call, the replies the loop has computed for its event and
the replies the call has taken. -/
structure Board (C : Type u) (E : Type v) (R : Type w) (X : Type x) where
  loop : Loop R
  calls : C → Phase E R X
  computed : C → List (E × R)
  delivered : C → List R

namespace Board

def init : Board C E R X := ⟨.running, fun _ => .idle, fun _ => [], fun _ => []⟩

def quit (b : Board C E R X) : Board C E R X := { b with loop := .stopped }

end Board

/-! ## Accounts -/

/-- What has been computed for a call and taken by it, by its phase. -/
def Accounted (loop : Loop R) (computed : List (E × R)) (delivered : List R) :
    Phase E R X → Prop
  | .idle | .sending _ | .failed _ => computed = [] ∧ delivered = []
  | .waiting e => delivered = [] ∧
      ((∃ r, loop = .replying r ∧ computed = [(e, r)]) ∨ loop = .stopped ∧ computed = [])
  | .answered e r => computed = [(e, r)] ∧ delivered = [r]

/-- While the loop goes on, at most one call waits. -/
structure Paired (b : Board C E R X) : Prop where
  accounted : ∀ c, Accounted b.loop (b.computed c) (b.delivered c) (b.calls c)
  one_waits : b.loop ≠ .stopped → ∀ c d e f,
    b.calls c = .waiting e → b.calls d = .waiting f → c = d

section Accounts

variable {b : Board C E R X}

theorem paired_init : Paired (Board.init : Board C E R X) where
  accounted _ := ⟨rfl, rfl⟩
  one_waits _ _ _ _ _ := nofun

theorem Paired.none_waits (paired : Paired b) (running : b.loop = .running) (c : C) (e : E) :
    b.calls c ≠ .waiting e := by
  intro waits
  have account := paired.accounted c
  rw [waits, running] at account
  rcases account.2 with ⟨r, replying, -⟩ | ⟨stopped, -⟩
  · cases replying
  · cases stopped

/-- A call that does not wait is accounted for whatever the loop does. -/
theorem Accounted.of_not_waiting {loop loop' : Loop R} {computed : List (E × R)}
    {delivered : List R} {p : Phase E R X} (account : Accounted loop computed delivered p)
    (not_waiting : ∀ e, p ≠ .waiting e) : Accounted loop' computed delivered p := by
  cases p with
  | waiting e => exact absurd rfl (not_waiting e)
  | _ => exact account

theorem Paired.quit (paired : Paired b) (running : b.loop = .running) : Paired b.quit where
  accounted c := (paired.accounted c).of_not_waiting (paired.none_waits running c)
  one_waits goes_on := absurd rfl goes_on

/-- A call that returns has the one reply that was computed for its own event, and no call is
answered twice. -/
theorem Paired.own_reply (paired : Paired b) (c : C) :
    (∀ e r, b.calls c = .answered e r → b.computed c = [(e, r)]) ∧
      (b.computed c).length ≤ 1 ∧ (b.delivered c).length ≤ 1 := by
  have account := paired.accounted c
  cases phase : b.calls c with
  | answered e r =>
    rw [phase] at account
    refine ⟨fun e' r' same => ?_, by simp [account.1], by simp [account.2]⟩
    cases same
    exact account.1
  | waiting e =>
    rw [phase] at account
    refine ⟨nofun, ?_, by simp [account.1]⟩
    rcases account.2 with ⟨r, -, computed⟩ | ⟨-, computed⟩
    · simp [computed]
    · simp [computed]
  | _ =>
    rw [phase] at account
    exact ⟨nofun, by simp [account.1], by simp [account.2]⟩

end Accounts

/-! ## Moves -/

variable [DecidableEq C]

namespace Board

def setCall (b : Board C E R X) (c : C) (p : Phase E R X) : Board C E R X :=
  { b with calls := Function.update b.calls c p }

def reply (b : Board C E R X) (c : C) (e : E) (r : R) : Board C E R X :=
  { b with
    loop := .replying r
    calls := Function.update b.calls c (.waiting e)
    computed := Function.update b.computed c ((e, r) :: b.computed c) }

def close (b : Board C E R X) (c : C) (e : E) : Board C E R X :=
  { b with loop := .stopped, calls := Function.update b.calls c (.waiting e) }

def deliver (b : Board C E R X) (c : C) (e : E) (r : R) : Board C E R X :=
  { b with
    loop := .running
    calls := Function.update b.calls c (.answered e r)
    delivered := Function.update b.delivered c (r :: b.delivered c) }

theorem setCall_calls_self (b : Board C E R X) (c : C) (p : Phase E R X) :
    (b.setCall c p).calls c = p :=
  Function.update_self _ _ _

theorem setCall_calls_of_ne (b : Board C E R X) {c d : C} (other : d ≠ c) (p : Phase E R X) :
    (b.setCall c p).calls d = b.calls d :=
  Function.update_of_ne other _ _

end Board

/-- The moves of a loop that never takes an event without a reply and goes on. -/
inductive Move : Board C E R X → Board C E R X → Prop
  | call {b c} (e : E) : b.calls c = .idle → Move b (b.setCall c (.sending e))
  | refuse {b c} (err : X) : b.calls c = .idle → Move b (b.setCall c (.failed err))
  | reply {b c e} (r : R) : b.loop = .running → b.calls c = .sending e → Move b (b.reply c e r)
  | close {b c e} : b.loop = .running → b.calls c = .sending e → Move b (b.close c e)
  | deliver {b c e r} : b.loop = .replying r → b.calls c = .waiting e → Move b (b.deliver c e r)
  | quit {b} : b.loop = .running → Move b b.quit

section Moves

variable {b b' : Board C E R X}

/-- Before a call waits, its phase is its own affair. -/
theorem Paired.setCall (paired : Paired b) {c : C} {p : Phase E R X}
    (before : b.calls c = .idle) (after : (∃ e, p = .sending e) ∨ ∃ err, p = .failed err) :
    Paired (b.setCall c p) := by
  have account := paired.accounted c
  rw [before] at account
  have not_waiting : ∀ e, p ≠ .waiting e := by
    rcases after with ⟨f, rfl⟩ | ⟨err, rfl⟩ <;> exact nofun
  constructor
  · intro d
    by_cases same : d = c
    · subst same
      rw [b.setCall_calls_self]
      rcases after with ⟨f, rfl⟩ | ⟨err, rfl⟩
      · exact account
      · exact account
    · rw [b.setCall_calls_of_ne same]
      exact paired.accounted d
  · intro goes_on d d' e f waits waits'
    have old : ∀ {d e}, (b.setCall c p).calls d = .waiting e → b.calls d = .waiting e := by
      intro d e waits
      by_cases same : d = c
      · subst same
        rw [b.setCall_calls_self] at waits
        exact absurd waits (not_waiting e)
      · rwa [b.setCall_calls_of_ne same] at waits
    exact paired.one_waits goes_on d d' e f (old waits) (old waits')

/-- A loop that runs takes the event of a call, and then that call alone waits. -/
theorem Paired.take (paired : Paired b) (running : b.loop = .running) {c : C} {e : E}
    (calls : b'.calls = Function.update b.calls c (.waiting e))
    (taken : Accounted b'.loop (b'.computed c) (b'.delivered c) (.waiting e : Phase E R X))
    (others : ∀ d, d ≠ c → b'.computed d = b.computed d ∧ b'.delivered d = b.delivered d) :
    Paired b' := by
  constructor
  · intro d
    rw [calls]
    by_cases same : d = c
    · subst same
      rw [Function.update_self]
      exact taken
    · rw [Function.update_of_ne same, (others d same).1, (others d same).2]
      exact (paired.accounted d).of_not_waiting (paired.none_waits running d)
  · have only : ∀ {d f}, b'.calls d = .waiting f → d = c := by
      intro d f waits
      by_contra other
      rw [calls, Function.update_of_ne other] at waits
      exact paired.none_waits running d f waits
    intro _ d d' f f' waits waits'
    exact (only waits).trans (only waits').symm

theorem Paired.deliver (paired : Paired b) {c : C} {e : E} {r : R} (replying : b.loop = .replying r)
    (waits : b.calls c = .waiting e) : Paired (b.deliver c e r) := by
  have account := paired.accounted c
  rw [waits, replying] at account
  have others : ∀ d, d ≠ c → ∀ f, b.calls d ≠ .waiting f := by
    intro d other f waits'
    have goes_on : b.loop ≠ .stopped := by
      rw [replying]
      exact nofun
    exact other (paired.one_waits goes_on d c f e waits' waits)
  constructor
  · intro d
    simp only [Board.deliver]
    by_cases same : d = c
    · subst same
      rw [Function.update_self, Function.update_self]
      rcases account with ⟨none_taken, ⟨r', same_reply, computed⟩ | ⟨stopped, -⟩⟩
      · cases same_reply
        exact ⟨computed, by rw [none_taken]⟩
      · cases stopped
    · rw [Function.update_of_ne same, Function.update_of_ne same]
      exact (paired.accounted d).of_not_waiting (others d same)
  · intro _ d d' f f' waits' _
    simp only [Board.deliver] at waits'
    by_cases same : d = c
    · subst same
      rw [Function.update_self] at waits'
      cases waits'
    · rw [Function.update_of_ne same] at waits'
      exact absurd waits' (others d same f)

theorem Paired.move (paired : Paired b) (move : Move b b') : Paired b' := by
  cases move with
  | call e idle => exact paired.setCall idle (Or.inl ⟨e, rfl⟩)
  | refuse err idle => exact paired.setCall idle (Or.inr ⟨err, rfl⟩)
  | @reply c e r running sends =>
    have account := paired.accounted c
    rw [sends] at account
    refine paired.take running rfl ?_ fun d other => ⟨?_, rfl⟩
    · refine ⟨account.2, Or.inl ⟨r, rfl, ?_⟩⟩
      simp only [Board.reply, Function.update_self, account.1]
    · exact Function.update_of_ne other _ _
  | @close c e running sends =>
    have account := paired.accounted c
    rw [sends] at account
    exact paired.take running rfl ⟨account.2, Or.inr ⟨rfl, account.1⟩⟩
      fun _ _ => ⟨rfl, rfl⟩
  | deliver replying waits => exact paired.deliver replying waits
  | quit running => exact paired.quit running

end Moves

end RequestReply
