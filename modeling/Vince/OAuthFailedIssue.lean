import Vince.OAuthWrites

/-!
# What a failed `finalize` leaves behind

`finalize` writes one record after the other and undoes nothing. From the moment the first token is
saved, under the key of a client, there is a record under that key: nothing that follows removes
such a key. So a failure leaves the store as it was only if it comes before that.
-/

namespace OAuth

open GoText Effects

variable {V : Type} (env : Env V)

/-- A record that was written since is in the store. -/
def Leaves (w w' : World V) : Prop :=
  ∃ new, w'.log = new ++ w.log ∧ ∃ entry ∈ new, w'.store entry.1 = some (env.encode entry.2)

/-- The store is as before, and nothing in it was written since. -/
structure NothingLeft (w w' : World V) : Prop where
  store : w'.store = w.store
  records : ¬ Leaves env w w'

/-- What is under a key was there before or was written since. -/
def SinceAt (key : Text) (w w' : World V) : Prop :=
  ∃ new, w'.log = new ++ w.log ∧
    (w'.store key = w.store key ∨ ∃ r, (key, r) ∈ new ∧ w'.store key = some (env.encode r))

section Since

variable {env} {key : Text} {w w' w'' : World V}

theorem sinceAt_of_same (log : w'.log = w.log) (store : w'.store key = w.store key) :
    SinceAt env key w w' := ⟨[], log, .inl store⟩

theorem SinceAt.trans (first : SinceAt env key w w') (second : SinceAt env key w' w'') :
    SinceAt env key w w'' := by
  obtain ⟨new, log, there⟩ := first
  obtain ⟨new', log', there'⟩ := second
  refine ⟨new' ++ new, by rw [log', log, List.append_assoc], ?_⟩
  rcases there' with same | ⟨r, listed, stored⟩
  · rcases there with before | ⟨r, listed, stored⟩
    · exact .inl (same.trans before)
    · exact .inr ⟨r, List.mem_append_right _ listed, same.trans stored⟩
  · exact .inr ⟨r, List.mem_append_left _ listed, stored⟩

instance : IsTrans (World V) (SinceAt env key) := ⟨fun _ _ _ first second => first.trans second⟩

theorem sinceAt_respects (env : Env V) (o : Server) (auth : Grant) (code : Text) :
    Respects env (FinalizeWrites o auth) FinalizeRemoves (SinceAt env (clientPrefix ++ code)) where
  reads read := sinceAt_of_same read.log (by rw [read.store])
  set {key r} _ w := by
    rw [Ends, set]
    cases env.fault w.tick with
    | some e => exact sinceAt_of_same rfl rfl
    | none =>
      refine ⟨[(key, r)], rfl, ?_⟩
      by_cases same : clientPrefix ++ code = key
      · subst same
        exact .inr ⟨r, List.mem_cons_self, Function.update_self _ _ _⟩
      · exact .inl (Function.update_of_ne same _ _)
  remove {key} removed w := by
    rw [Ends, remove]
    cases env.fault w.tick with
    | some e => exact sinceAt_of_same rfl rfl
    | none =>
      have other : clientPrefix ++ code ≠ key := by
        rintro rfl
        rcases removed with begins | begins
        · exact not_both_begin (by decide) begins ⟨code, rfl⟩
        · exact not_both_begin (by decide) begins ⟨code, rfl⟩
      exact sinceAt_of_same rfl (Function.update_of_ne other _ _)

end Since

variable {env}

theorem nothingLeft_of_same {w w' : World V} (store : w'.store = w.store) (log : w'.log = w.log) :
    NothingLeft env w w' := by
  refine ⟨store, ?_⟩
  rintro ⟨new, grown, entry, listed, -⟩
  rw [log, List.self_eq_append_left] at grown
  rw [grown] at listed
  cases listed

/-- A `finalize` that fails leaves nothing behind iff it fails to make or to save its first
token. -/
theorem failed_finalize_iff (env : Env V) (o : Server) (auth : Grant) {w w' : World V}
    {e : Failure Err} (failed : finalize env o auth w = .error e w') :
    NothingLeft env w w' ↔ env.random w.tick = none ∨ env.fault (w.tick + 2) ≠ none := by
  rw [finalize_eq, bind_apply] at failed
  rcases newToken_apply env auth w with ⟨early, e', w₁, ran, store, log⟩ |
    ⟨late, t, w₁, ran, stored, log, -⟩
  · rw [ran] at failed
    cases failed
    exact iff_of_true (nothingLeft_of_same store log) early
  · rw [ran] at failed
    refine iff_of_false (fun nothing => nothing.records ?_) ?_
    · have keeps := (sinceAt_respects env o auth t.code).finalizeFrom
        (fun w ctx => sinceAt_of_same rfl rfl) t
      obtain ⟨new, log', there⟩ := (keeps w₁).of_error failed
      refine ⟨new ++ [(clientPrefix ++ t.code, .token t)], by rw [log', log]; simp, ?_⟩
      rcases there with same | ⟨r, listed, stored'⟩
      · exact ⟨_, List.mem_append_right _ List.mem_cons_self, same.trans stored⟩
      · exact ⟨_, List.mem_append_left _ listed, stored'⟩
    · rintro (none | fault)
      · exact late.1 none
      · exact fault late.2

/-! ## A grant that was never stored -/

/-- The grant of the token branch of `authorize`, which has a code and is not saved. -/
private def implicitGrant : Grant :=
  { Grant.zero with code := ['k'], type := implicitType, clientID := ['c'] }

/-- Surroundings in which no random bytes are to be had. -/
private def dryEnv : Env Record :=
  { plainEnv with random := fun _ => none, random_ne := by simp }

theorem failed_finalize_without_random :
    finalize dryEnv sampleServer implicitGrant emptyWorld =
        .error (.error .random) emptyWorld.tock ∧
      NothingLeft dryEnv emptyWorld emptyWorld.tock :=
  ⟨rfl, (failed_finalize_iff dryEnv sampleServer implicitGrant rfl).mpr (.inl rfl)⟩

/-- No operation of the store fails, but there is no such grant to be removed, and what was written
for it stays. -/
theorem failed_finalize_leaves_tokens :
    (∀ n, plainEnv.fault n = none) ∧
    ∃ w', finalize plainEnv sampleServer implicitGrant emptyWorld =
        .error (.error .keyNotFound) w' ∧
      emptyWorld.store (grantAccessPrefix ++ ['t']) = none ∧
      w'.store (grantAccessPrefix ++ ['t']) ≠ none ∧
      ¬ NothingLeft plainEnv emptyWorld w' := by
  refine ⟨fun _ => rfl, _, rfl, rfl, ?_, fun nothing => ?_⟩
  · exact nofun
  · have same := congrFun nothing.store (grantAccessPrefix ++ ['t'])
    cases same

end OAuth
