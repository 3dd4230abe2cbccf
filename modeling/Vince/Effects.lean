import Mathlib.Order.Defs.Unbundled

/-!
# Computations that fail or panic and keep their state

`EStateM` is a state monad whose errors do not undo what was done before them. An error is either
a value the caller can look at, as functions with an error result have it, or a panic that runs
through every caller.
-/

namespace Effects

variable {σ ε δ α β : Type}

inductive Failure (ε : Type) where
  | error (e : ε)
  | panic
  deriving DecidableEq

abbrev Comp (σ ε α : Type) := EStateM (Failure ε) σ α

/-- The error of a computation as a value. -/
def attempt (m : Comp σ ε α) : Comp σ ε (Except ε α) := fun s =>
  match m s with
  | .ok a t => .ok (.ok a) t
  | .error (.error e) t => .ok (.error e) t
  | .error .panic t => .error .panic t

def fail (e : ε) : Comp σ ε α := fun s => .error (.error e) s

def panic : Comp σ ε α := fun s => .error .panic s

/-- The result without the state. -/
def outcome (m : EStateM δ σ α) (s : σ) : Except δ α :=
  match m s with
  | .ok a _ => .ok a
  | .error e _ => .error e

/-- A sequence of results that is no error, taken apart. -/
theorem bind_eq_ok {value : Except δ α} {next : α → Except δ β} {result : β}
    (run : value >>= next = .ok result) :
    ∃ produced, value = .ok produced ∧ next produced = .ok result := by
  cases value with
  | error fault => cases run
  | ok produced => exact ⟨produced, rfl, run⟩

theorem map_eq_ok_iff {value : Except δ α} {f : α → β} {result : β} :
    value.map f = .ok result ↔ ∃ produced, value = .ok produced ∧ f produced = result := by
  cases value with
  | error fault => simp [Except.map]
  | ok produced => simp [Except.map]

/-! ## Postconditions -/

/-- What holds when a computation returns, and what holds when it fails. -/
def Ends (m : EStateM δ σ α) (s : σ) (Q : α → σ → Prop) (E : δ → σ → Prop) : Prop :=
  match m s with
  | .ok a t => Q a t
  | .error e t => E e t

section Rules

variable {m : EStateM δ σ α} {f : α → EStateM δ σ β} {s t : σ}
  {Q Q' : α → σ → Prop} {E E' : δ → σ → Prop}

theorem Ends.of_ok (ends : Ends m s Q E) {a : α} (ran : m s = .ok a t) : Q a t := by
  rwa [Ends, ran] at ends

theorem Ends.of_error (ends : Ends m s Q E) {e : δ} (ran : m s = .error e t) : E e t := by
  rwa [Ends, ran] at ends

theorem Ends.intro (ok : ∀ a t, m s = .ok a t → Q a t)
    (error : ∀ e t, m s = .error e t → E e t) : Ends m s Q E := by
  rw [Ends]
  split
  · rename_i a t ran
    exact ok a t ran
  · rename_i e t ran
    exact error e t ran

theorem Ends.mono (ends : Ends m s Q E) (ok : ∀ a t, Q a t → Q' a t)
    (error : ∀ e t, E e t → E' e t) : Ends m s Q' E' :=
  .intro (fun a t ran => ok a t (ends.of_ok ran)) fun e t ran => error e t (ends.of_error ran)

/-- A computation that cannot fail returns. -/
theorem Ends.exists_ok (ends : Ends m s Q fun _ _ => False) : ∃ a t, m s = .ok a t ∧ Q a t := by
  cases ran : m s with
  | ok a t => exact ⟨a, t, rfl, ends.of_ok ran⟩
  | error e t => exact (ends.of_error ran).elim

theorem Ends.pure {a : α} (holds : Q a s) : Ends (Pure.pure a : EStateM δ σ α) s Q E := holds

theorem bind_apply (m : EStateM δ σ α) (f : α → EStateM δ σ β) (s : σ) :
    (m >>= f) s = match m s with
      | .ok a t => f a t
      | .error e t => .error e t := by
  refine (EStateM.run_bind m f).trans ?_
  show _ = match m.run s with
    | .ok a t => f a t
    | .error e t => .error e t
  cases m.run s with
  | ok a t => rfl
  | error e t => rfl

theorem bind_ok {a : α} (ran : m s = .ok a t) (f : α → EStateM δ σ β) :
    (m >>= f) s = f a t := by
  rw [bind_apply, ran]

theorem Ends.bind {Q : β → σ → Prop} (ends : Ends m s (fun a t => Ends (f a) t Q E) E) :
    Ends (m >>= f) s Q E := by
  rw [Ends, bind_apply]
  cases ran : m s with
  | ok a t => exact ends.of_ok ran
  | error e t => exact ends.of_error ran

theorem Ends.map {g : α → β} {Q : β → σ → Prop} (ends : Ends m s (fun a t => Q (g a) t) E) :
    Ends (g <$> m) s Q E := by
  rw [map_eq_pure_bind]
  exact .bind (ends.mono (fun _ _ holds => .pure holds) fun _ _ holds => holds)

end Rules

theorem Ends.attempt {m : Comp σ ε α} {s : σ} {Q : Except ε α → σ → Prop}
    {E : Failure ε → σ → Prop}
    (ends : Ends m s (fun a t => Q (.ok a) t) fun failure t => match failure with
      | .error e => Q (.error e) t
      | .panic => E .panic t) : Ends (attempt m) s Q E := by
  rw [Ends, Effects.attempt]
  rcases ran : m s with ⟨a, t⟩ | ⟨e | _, t⟩
  · exact ends.of_ok ran
  · exact ends.of_error ran
  · exact ends.of_error ran

theorem attempt_ok {m : Comp σ ε α} {s t : σ} {a : α} (ran : m s = .ok a t) :
    attempt m s = .ok (.ok a) t := by
  rw [attempt, ran]

/-- The usual way to go on after an error value. -/
theorem Ends.attempt_bind {m : Comp σ ε α} {f : Except ε α → Comp σ ε β} {s : σ}
    {Q : β → σ → Prop} {E : Failure ε → σ → Prop}
    (ok : ∀ a t, m s = .ok a t → Ends (f (.ok a)) t Q E)
    (error : ∀ e t, m s = .error (.error e) t → Ends (f (.error e)) t Q E)
    (panic : ∀ t, m s = .error .panic t → E .panic t) : Ends (Effects.attempt m >>= f) s Q E := by
  refine .bind (.attempt (.intro ok fun failure t ran => ?_))
  cases failure with
  | error e => exact error e t ran
  | panic => exact panic t ran

/-! ## What a computation keeps -/

/-- However the computation ends, the relation holds between the states before and after. -/
def Keeps (R : σ → σ → Prop) (m : EStateM δ σ α) : Prop :=
  ∀ s, Ends m s (fun _ t => R s t) fun _ t => R s t

section Keeping

variable {R : σ → σ → Prop}

theorem Keeps.bind [IsTrans σ R] {m : EStateM δ σ α} {f : α → EStateM δ σ β} (first : Keeps R m)
    (rest : ∀ a, Keeps R (f a)) : Keeps R (m >>= f) := by
  intro s
  refine Ends.bind ((first s).mono (fun a t step => ?_) fun _ _ step => step)
  exact (rest a t).mono (fun _ _ => IsTrans.trans _ _ _ step) fun _ _ => IsTrans.trans _ _ _ step

theorem Keeps.attempt {m : Comp σ ε α} (keeps : Keeps R m) : Keeps R (attempt m) := by
  refine fun s => .attempt ((keeps s).mono (fun _ _ step => step) fun failure t step => ?_)
  cases failure with
  | error e => exact step
  | panic => exact step

/-- The state after a computation, however it ends. -/
def after (m : EStateM δ σ α) (s : σ) : σ :=
  match m s with
  | .ok _ t => t
  | .error _ t => t

theorem Keeps.after {m : EStateM δ σ α} (keeps : Keeps R m) (s : σ) : R s (after m s) := by
  rw [Effects.after]
  cases ran : m s with
  | ok a t => exact (keeps s).of_ok ran
  | error e t => exact (keeps s).of_error ran

theorem after_of_attempt {m : Comp σ ε α} {s t : σ} {result : Except ε α}
    (ran : attempt m s = .ok result t) : after m s = t := by
  rw [attempt] at ran
  rw [after]
  rcases ended : m s with ⟨a, t'⟩ | ⟨e | _, t'⟩
  · rw [ended] at ran
    cases ran
    rfl
  · rw [ended] at ran
    cases ran
    rfl
  · rw [ended] at ran
    cases ran

/-- Computations one after the other, each from where the one before has left off. -/
def run {ι : Type} (f : ι → EStateM δ σ α) : σ → List ι → σ
  | s, [] => s
  | s, i :: rest => run f (Effects.after (f i) s) rest

theorem run_append {ι : Type} (f : ι → EStateM δ σ α) (s : σ) (l l' : List ι) :
    run f s (l ++ l') = run f (run f s l) l' := by
  induction l generalizing s with
  | nil => rfl
  | cons i l ih => exact ih _

theorem Keeps.run {ι : Type} [Std.Refl R] [IsTrans σ R] {f : ι → EStateM δ σ α}
    (keeps : ∀ i, Keeps R (f i)) (s : σ) (l : List ι) : R s (run f s l) := by
  induction l generalizing s with
  | nil => exact Std.Refl.refl s
  | cons i rest ih => exact IsTrans.trans _ _ _ ((keeps i).after s) (ih _)

end Keeping

/-! ## Computations that do not panic -/

def Calm (m : Comp σ ε α) : Prop :=
  ∀ s, Ends m s (fun _ _ => True) fun failure _ => failure ≠ .panic

theorem calm_pure (a : α) : Calm (Pure.pure a : Comp σ ε α) := fun _ => trivial

theorem error_ne_panic (e : ε) : Failure.error e ≠ .panic := by
  intro same
  cases same

theorem calm_fail (e : ε) : Calm (fail e : Comp σ ε α) := fun _ => error_ne_panic e

theorem Calm.bind {m : Comp σ ε α} {f : α → Comp σ ε β} (first : Calm m) (rest : ∀ a, Calm (f a)) :
    Calm (m >>= f) :=
  fun s => .bind ((first s).mono (fun a t _ => rest a t) fun _ _ calm => calm)

/-- Without a panic there is a result to look at. -/
theorem Calm.attempt_ok {m : Comp σ ε α} (calm : Calm m) (s : σ) :
    ∃ result t, attempt m s = .ok result t := by
  rw [attempt]
  rcases ran : m s with ⟨a, t⟩ | ⟨e | _, t⟩
  · exact ⟨_, _, rfl⟩
  · exact ⟨_, _, rfl⟩
  · exact absurd rfl ((calm s).of_error ran)

end Effects
