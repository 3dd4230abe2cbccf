import Vince.OAuthAccess
import Vince.OAuthRecords

/-!
# What the parts of the server write

All that is done to the world is to read from it, to write some records and to remove some keys. So
a relation between the states before and after that each of these keeps is kept by everything that
writes and removes no more than that. `FinalizeWrites` lists what `finalize` writes.
-/

namespace OAuth

open GoText Effects

variable {V : Type}

/-- A relation that is kept by reading, by writing what `W` allows and by removing what `D`
allows. -/
structure Respects (env : Env V) (W : Text → Record → Prop) (D : Text → Prop)
    (R : World V → World V → Prop) : Prop where
  reads : ∀ {w w'}, Reads w w' → R w w'
  set : ∀ {key r}, W key r → Keeps R (OAuth.set env key r)
  remove : ∀ {key}, D key → Keeps R (OAuth.remove env key)

theorem Respects.mono {env : Env V} {W W' : Text → Record → Prop} {D D' : Text → Prop}
    {R : World V → World V → Prop} (respects : Respects env W D R)
    (writes : ∀ {key r}, W' key r → W key r) (removes : ∀ {key}, D' key → D key) :
    Respects env W' D' R :=
  ⟨respects.reads, fun written => respects.set (writes written),
    fun removed => respects.remove (removes removed)⟩

namespace Respects

variable {env : Env V} {W : Text → Record → Prop} {D : Text → Prop} {R : World V → World V → Prop}
  [IsTrans (World V) R] (respects : Respects env W D R)
include respects

omit [IsTrans (World V) R] in
theorem pure {α : Type} (a : α) : Keeps R (Pure.pure a : M V α) :=
  fun w => respects.reads (Std.Refl.refl w)

omit [IsTrans (World V) R] in
theorem find {α : Type} (decode : V → Option α) (deletedAt : α → Time) (key : Text) :
    Keeps R (OAuth.find env decode deletedAt key) := by
  intro w
  exact (find_ends env decode deletedAt key w).mono (fun _ _ found => respects.reads found.1)
    fun _ _ read => respects.reads read

/-- The time that is read is not zero. -/
theorem now_bind {α : Type} {f : Time → M V α} (rest : ∀ t, t ≠ 0 → Keeps R (f t)) :
    Keeps R (now env >>= f) := by
  intro w
  have first : R w w.tock := respects.reads (reads_tock w)
  refine .bind ((rest _ (env.clock_ne w.tick) w.tock).mono (fun _ _ second => ?_)
    fun _ _ second => ?_)
  · exact IsTrans.trans _ _ _ first second
  · exact IsTrans.trans _ _ _ first second

omit [IsTrans (World V) R] in
theorem generate : Keeps R (OAuth.generate env) := by
  intro w
  rw [Ends, OAuth.generate]
  cases env.random w.tick with
  | none => exact respects.reads (reads_tock w)
  | some t => exact respects.reads (reads_tock w)

omit [IsTrans (World V) R] in
theorem ensureID (c : Client) : Keeps R (OAuth.ensureID env c) := by
  rw [OAuth.ensureID]
  split
  · intro w
    rw [Ends, createClientID]
    cases env.random w.tick with
    | none => exact respects.reads (reads_tock w)
    | some t => exact respects.reads (reads_tock w)
  · exact respects.pure _

/-! ## Saving -/

theorem saveUser {u : User}
    (writes : ∀ t, W (userPrefix ++ u.email) (.user { u with updatedAt := t })) :
    Keeps R (OAuth.saveUser env u) :=
  respects.now_bind fun t _ => (respects.set (writes t)).bind fun _ => respects.pure _

theorem saveClient {c : Client}
    (writes : ∀ id t, W (clientPrefix ++ id) (.client { c with id, updatedAt := t })) :
    Keeps R (OAuth.saveClient env c) :=
  (respects.ensureID c).bind fun id => respects.now_bind fun t _ =>
    (respects.set (writes id t)).bind fun _ => respects.pure _

theorem saveToken {t : Token}
    (writes : ∀ time, W (clientPrefix ++ t.code) (.token { t with updatedAt := time })) :
    Keeps R (OAuth.saveToken env t) :=
  respects.now_bind fun time _ => (respects.set (writes time)).bind fun _ => respects.pure _

omit [IsTrans (World V) R] in
theorem saveIndex {start key : Text} {g : Grant}
    (writes : key ≠ [] → W (start ++ key) (.grant g)) :
    Keeps R (OAuth.saveIndex env start key g) := by
  rw [OAuth.saveIndex]
  split
  · rename_i given
    exact respects.set (writes given)
  · exact respects.pure ()

theorem saveGrant {g : Grant} (writes : ∀ t, ∀ key ∈ (Record.grant g).keys,
      W key (.grant { g with updatedAt := t })) : Keeps R (OAuth.saveGrant env g) := by
  refine respects.now_bind fun t _ => ?_
  refine (respects.saveIndex fun given => writes t _ ?_).bind fun _ => ?_
  · exact mem_keys_grant.mpr (.inl ⟨given, rfl⟩)
  refine (respects.saveIndex fun given => writes t _ ?_).bind fun _ => ?_
  · exact mem_keys_grant.mpr (.inr (.inl ⟨given, rfl⟩))
  refine (respects.set (writes t _ ?_)).bind fun _ => respects.pure _
  exact mem_keys_grant.mpr (.inr (.inr rfl))

/-! ## Removing -/

theorem removeToken {id : Text} (writes : ∀ (tok : Token) (t : Time), t ≠ 0 →
      W (tokenPrefix ++ id) (.token { tok with deletedAt := t })) :
    Keeps R (OAuth.removeToken env id) :=
  (respects.find _ _ _).bind fun tok => respects.now_bind fun t nonzero =>
    respects.set (writes tok t nonzero)

theorem removeIndex {start key : Text} (removes : D (start ++ key))
    (writes : ∀ (tok : Token) (t : Time), t ≠ 0 →
      W (tokenPrefix ++ key) (.token { tok with deletedAt := t })) :
    Keeps R (OAuth.removeIndex env start key) := by
  rw [OAuth.removeIndex]
  split
  · exact (respects.remove removes).bind fun _ => respects.removeToken writes
  · exact respects.pure ()

theorem removeGrant {id : Text} (removes : ∀ key, D (grantAccessPrefix ++ key) ∧
      D (grantRefreshPrefix ++ key))
    (tokens : ∀ key (tok : Token) (t : Time), t ≠ 0 →
      W (tokenPrefix ++ key) (.token { tok with deletedAt := t }))
    (grants : ∀ (g : Grant) (t : Time), t ≠ 0 →
      W (grantPrefix ++ id) (.grant { g with deletedAt := t })) :
    Keeps R (OAuth.removeGrant env id) :=
  (respects.find _ _ _).bind fun g => respects.now_bind fun t nonzero =>
    (respects.removeIndex (removes _).1 (tokens _)).bind fun _ =>
    (respects.removeIndex (removes _).2 (tokens _)).bind fun _ =>
    respects.set (grants g t nonzero)

end Respects

/-! ## Issuing -/

/-- The records that `finalize` writes: new tokens, the new grant, and old ones that are marked as
deleted. -/
inductive FinalizeWrites (o : Server) (auth : Grant) : Text → Record → Prop
  | token (code : Text) (t : Time) : FinalizeWrites o auth (clientPrefix ++ code)
      (.token ⟨code, auth.clientID, auth.userID, 0, 0, t, 0⟩)
  | grant (accessToken refreshToken : Text) (t : Time) {key : Text}
      (listed : key ∈ (Record.grant (accessGrant o auth accessToken refreshToken)).keys) :
      FinalizeWrites o auth key
        (.grant { accessGrant o auth accessToken refreshToken with updatedAt := t })
  | deletedToken (id : Text) (tok : Token) {t : Time} (nonzero : t ≠ 0) :
      FinalizeWrites o auth (tokenPrefix ++ id) (.token { tok with deletedAt := t })
  | deletedGrant (g : Grant) {t : Time} (nonzero : t ≠ 0) :
      FinalizeWrites o auth (grantPrefix ++ auth.code) (.grant { g with deletedAt := t })

/-- The keys that `finalize` removes. -/
def FinalizeRemoves (key : Text) : Prop :=
  grantAccessPrefix <+: key ∨ grantRefreshPrefix <+: key

/-- `finalize` from when the new grant is saved. -/
def finish (env : Env V) (o : Server) (auth access : Grant) : M V Unit := do
  onContext fun ctx => { ctx with data := tokenData o access ctx.data }
  if auth.code ≠ [] then removeGrant env auth.code else pure ()

/-- `finalize` from its second token on. -/
def finalizeFrom (env : Env V) (o : Server) (auth : Grant) (genAccessToken : Token) : M V Unit := do
  let genRefreshToken ← newToken env auth
  let access ← saveGrant env (accessGrant o auth genAccessToken.code genRefreshToken.code)
  finish env o auth access

theorem finalize_eq (env : Env V) (o : Server) (auth : Grant) :
    finalize env o auth = newToken env auth >>= finalizeFrom env o auth := rfl

/-- A new token is saved, or nothing is done to the store. -/
theorem newToken_apply (env : Env V) (auth : Grant) (w : World V) :
    ((env.random w.tick = none ∨ env.fault (w.tick + 2) ≠ none) ∧
      ∃ e w', newToken env auth w = .error e w' ∧ w'.store = w.store ∧ w'.log = w.log) ∨
    (env.random w.tick ≠ none ∧ env.fault (w.tick + 2) = none) ∧
      ∃ t w', newToken env auth w = .ok t w' ∧
        w'.store (clientPrefix ++ t.code) = some (env.encode (.token t)) ∧
        w'.log = (clientPrefix ++ t.code, .token t) :: w.log ∧
        w'.tick = w.tick + 3 ∧ t.code ≠ [] := by
  rw [newToken, bind_apply, generate]
  cases made : env.random w.tick with
  | none => exact .inl ⟨.inl rfl, _, _, rfl, rfl, rfl⟩
  | some code =>
    have saved : saveToken env ⟨code, auth.clientID, auth.userID, 0, 0, 0, 0⟩ w.tock =
        (set env (clientPrefix ++ code)
          (.token ⟨code, auth.clientID, auth.userID, 0, 0, env.clock w.tock.tick, 0⟩) >>= fun _ =>
        pure ⟨code, auth.clientID, auth.userID, 0, 0, env.clock w.tock.tick, 0⟩) w.tock.tock := rfl
    simp only [saved, bind_apply, set]
    have third : w.tock.tock.tick = w.tick + 2 := rfl
    rw [third]
    cases fault : env.fault (w.tick + 2) with
    | some e => exact .inl ⟨.inr (Option.some_ne_none e), _, _, rfl, rfl, rfl⟩
    | none =>
      exact .inr ⟨⟨Option.some_ne_none code, rfl⟩, _, _, rfl, Function.update_self _ _ _, rfl, rfl,
        env.random_ne _ _ made⟩

section Finalize

variable {env : Env V} {o : Server} {auth : Grant} {R : World V → World V → Prop}
  [IsTrans (World V) R] (respects : Respects env (FinalizeWrites o auth) FinalizeRemoves R)
include respects

theorem Respects.newToken : Keeps R (OAuth.newToken env auth) :=
  respects.generate.bind fun code => respects.saveToken fun t => .token code t

theorem Respects.finish (context : ∀ w ctx, R w { w with ctx }) (access : Grant) :
    Keeps R (OAuth.finish env o auth access) := by
  have filled : Keeps R (onContext (V := V) fun ctx =>
      { ctx with data := tokenData o access ctx.data }) := fun w => context w _
  refine filled.bind fun _ => ?_
  show Keeps R (if auth.code ≠ [] then _ else _)
  split
  · refine respects.removeGrant (fun key => ⟨.inl ⟨key, rfl⟩, .inr ⟨key, rfl⟩⟩) ?_ ?_
    · exact fun key tok _ nonzero => .deletedToken key tok nonzero
    · exact fun g _ nonzero => .deletedGrant g nonzero
  · exact respects.pure ()

theorem Respects.finalizeFrom (context : ∀ w ctx, R w { w with ctx }) (genAccessToken : Token) :
    Keeps R (OAuth.finalizeFrom env o auth genAccessToken) :=
  respects.newToken.bind fun _ =>
    (respects.saveGrant fun t _ listed => .grant _ _ t listed).bind fun access =>
      respects.finish context access

theorem Respects.finalize (context : ∀ w ctx, R w { w with ctx }) :
    Keeps R (OAuth.finalize env o auth) :=
  respects.newToken.bind fun access => respects.finalizeFrom context access

end Finalize

end OAuth
