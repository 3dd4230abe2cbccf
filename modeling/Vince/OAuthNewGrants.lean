import Mathlib.Data.Int.Order.Basic
import Vince.OAuthIssue
import Vince.OAuthWrites

/-!
# The grants that are stored

The log says which grants the endpoints store and with what. A grant has neither a time of creation
nor, from the authorize endpoint, a time to live; and the grant that a refresh stores has the scope
of the old one, whatever scope was asked for.
-/

namespace OAuth

open GoText Effects

variable {V : Type}

/-- What was written since satisfies a predicate. -/
def Logs (P : Text → Record → Prop) (w w' : World V) : Prop :=
  ∃ new, w'.log = new ++ w.log ∧ ∀ key r, (key, r) ∈ new → P key r

section Logs

variable {env : Env V} {P : Text → Record → Prop} {w w' w'' : World V}

theorem logs_of_same (log : w'.log = w.log) : Logs P w w' :=
  ⟨[], log, fun _ _ listed => absurd listed List.not_mem_nil⟩

theorem Logs.trans (first : Logs P w w') (second : Logs P w' w'') : Logs P w w'' := by
  obtain ⟨new, log, holds⟩ := first
  obtain ⟨new', log', holds'⟩ := second
  refine ⟨new' ++ new, by rw [log', log, List.append_assoc], fun key r listed => ?_⟩
  rcases List.mem_append.mp listed with later | earlier
  · exact holds' key r later
  · exact holds key r earlier

instance : IsTrans (World V) (Logs P) := ⟨fun _ _ _ first second => first.trans second⟩

theorem logs_respects : Respects env P (fun _ => True) (Logs P) where
  reads read := logs_of_same read.log
  set {key r} holds w := by
    rw [Ends, set]
    cases env.fault w.tick with
    | some e => exact logs_of_same rfl
    | none =>
      refine ⟨[(key, r)], rfl, fun key' r' listed => ?_⟩
      cases List.mem_singleton.mp listed
      exact holds
  remove {key} _ w := by
    rw [Ends, remove]
    cases env.fault w.tick with
    | some e => exact logs_of_same rfl
    | none => exact logs_of_same rfl

/-- What comes later in a computation adds to the log. -/
theorem logs_after_bind {α β : Type} {m : M V α} {f : α → M V β} (rest : ∀ a, Keeps (Logs P) (f a))
    (w : World V) : Logs P (after m w) (after (m >>= f) w) := by
  rw [after, after, bind_apply]
  cases m w with
  | ok a t => exact (rest a).after t
  | error e t => exact logs_of_same rfl

theorem Logs.mem (logs : Logs P w w') {new : List (Text × Record)} (grown : w'.log = new ++ w.log)
    {key : Text} {r : Record} (listed : (key, r) ∈ new) : P key r := by
  obtain ⟨new', log, holds⟩ := logs
  obtain rfl : new' = new := List.append_cancel_right (log.symm.trans grown)
  exact holds key r listed

end Logs

/-- A predicate on the grants among the records. -/
def OnGrants (Q : Grant → Prop) (_ : Text) : Record → Prop
  | .grant g => Q g
  | _ => True

section Storing

variable {env : Env V} {Q : Grant → Prop} {P : Text → Record → Prop}

/-- Of the grants that `finalize` writes, those that are not marked as deleted. -/
theorem finalize_logs (env : Env V) (o : Server) (auth : Grant)
    (holds : ∀ accessToken refreshToken t,
      Q { accessGrant o auth accessToken refreshToken with updatedAt := t }) :
    Keeps (Logs (OnGrants fun g => g.deletedAt = 0 → Q g)) (finalize env o auth) := by
  refine (logs_respects.mono (fun {key r} written => ?_) fun _ => trivial).finalize
    fun w ctx => logs_of_same rfl
  cases written with
  | token code t => trivial
  | grant accessToken refreshToken t listed => exact fun _ => holds accessToken refreshToken t
  | deletedToken id tok nonzero => trivial
  | deletedGrant g nonzero => exact fun live => absurd live nonzero

theorem refuse_logs (id : ErrKey) (state : Text) : Keeps (Logs P) (refuse env id state) :=
  fun _ => logs_of_same rfl

theorem orServerError_logs {α : Type} (r : Request) {m : M V α} {next : α → M V Response}
    (first : Keeps (Logs P) m) (rest : ∀ a, Keeps (Logs P) (next a)) :
    Keeps (Logs P) (orServerError env r m next) := by
  refine first.attempt.bind fun result => ?_
  cases result with
  | error e => exact refuse_logs _ _
  | ok a => exact rest a

theorem authorizeCode_logs (env : Env V) (r : Request) (c : Client) (usr : User)
    (holds : ∀ code t, Q
      { Grant.zero with
        code, scope := r.form .scope, state := r.form .state
        clientID := c.id, userID := usr.email, updatedAt := t }) :
    Keeps (Logs (OnGrants Q)) (authorizeCode env r c usr) := by
  refine orServerError_logs r logs_respects.generate fun code => ?_
  refine orServerError_logs r (logs_respects.saveGrant fun t _ _ => holds code t) fun g => ?_
  refine orServerError_logs r (logs_respects.saveUser fun _ => trivial) fun _ => ?_
  refine orServerError_logs r (logs_respects.saveClient fun _ _ => trivial) fun _ => ?_
  exact fun _ => logs_of_same rfl

end Storing

/-! ## How long a grant lives -/

/-- What `expired` answers at a given time. -/
def ExpiredAt (g : Grant) (t : Time) : Prop := g.createdAt + seconds g.expiresIn < t

instance (g : Grant) (t : Time) : Decidable (ExpiredAt g t) := inferInstanceAs (Decidable (_ < _))

/-- Stored at `t`, the grant lives for a number of seconds. -/
def LivesFor (g : Grant) (t : Time) (expire : Int) : Prop :=
  ∀ t', ExpiredAt g t' ↔ t + expire * 10 ^ 9 < t'

theorem same_bound_iff (a b : Int) : (∀ t, a < t ↔ b < t) ↔ b = a := by
  constructor
  · intro same
    have atFirst := same a
    have atSecond := same b
    omega
  · rintro rfl t
    exact Iff.rfl

theorem livesFor_iff (g : Grant) (t : Time) (expire : Int) :
    LivesFor g t expire ↔ t + expire * 10 ^ 9 = g.createdAt + seconds g.expiresIn :=
  same_bound_iff _ _

/-- A grant is stored with the time of its update. The one of the authorize endpoint lives as long
as it should iff it should end at the zero time, and the one of `finalize` iff its time to live from
the zero time on ends when it should. -/
theorem grant_lives_iff (env : Env V) (o : Server) :
    (∀ (r : Request) (c : Client) (usr : User) (w : World V) (new : List (Text × Record))
        (key : Text) (g : Grant),
      (after (authorizeCode env r c usr) w).log = new ++ w.log → (key, .grant g) ∈ new →
        (LivesFor g g.updatedAt o.opts.authorizationExpire ↔
          g.updatedAt + o.opts.authorizationExpire * 10 ^ 9 = 0)) ∧
    ∀ (auth : Grant) (w : World V) (new : List (Text × Record)) (key : Text) (g : Grant),
      (after (finalize env o auth) w).log = new ++ w.log → (key, .grant g) ∈ new →
        g.deletedAt = 0 →
          (LivesFor g g.updatedAt o.opts.accessExpire ↔
            g.updatedAt + o.opts.accessExpire * 10 ^ 9 = seconds o.opts.accessExpire) := by
  constructor
  · intro r c usr w new key g grown listed
    have logs := (authorizeCode_logs env (Q := fun g => g.createdAt = 0 ∧ g.expiresIn = 0) r c usr
      fun _ _ => ⟨rfl, rfl⟩).after w
    obtain ⟨created, expires⟩ := logs.mem grown listed
    rw [livesFor_iff, created, expires]
    rfl
  · intro auth w new key g grown listed live
    have logs := (finalize_logs env
      (Q := fun g => g.createdAt = 0 ∧ g.expiresIn = o.opts.accessExpire) o auth
      fun _ _ _ => ⟨rfl, rfl⟩).after w
    obtain ⟨created, expires⟩ := logs.mem grown listed live
    rw [livesFor_iff, created, expires, Int.zero_add]

private def sampleUser : User := ⟨['u'], [], [], [], [], 0, 0, 0⟩

/-- What a sample request for a code leaves in the log. -/
private def codeLog : List (Text × Record) :=
  (after (authorizeCode plainEnv (sampleRequest .authorizationCode fun _ => []) sampleClient
    sampleUser) emptyWorld).log

private def codeGrant : Grant :=
  { Grant.zero with code := ['t'], clientID := ['c'], userID := ['u'], updatedAt := 2 }

private theorem codeGrant_stored : (grantPrefix ++ ['t'], .grant codeGrant) ∈ codeLog := by
  decide +kernel

private def tokenGrant : Grant :=
  { accessGrant sampleServer .zero ['t'] (List.replicate 4 't') with updatedAt := 7 }

private theorem tokenGrant_stored : (grantPrefix, .grant tokenGrant) ∈
    (after (finalize plainEnv sampleServer .zero) emptyWorld).log := by
  decide +kernel

theorem sample_grants_do_not_live :
    ((grantPrefix ++ ['t'], .grant codeGrant) ∈ codeLog ∧
      ¬ LivesFor codeGrant codeGrant.updatedAt sampleServer.opts.authorizationExpire) ∧
    (grantPrefix, .grant tokenGrant) ∈
        (after (finalize plainEnv sampleServer .zero) emptyWorld).log ∧
      ¬ LivesFor tokenGrant tokenGrant.updatedAt sampleServer.opts.accessExpire := by
  have lives := grant_lives_iff plainEnv sampleServer
  have code := lives.1 _ _ _ emptyWorld _ _ _ (List.append_nil _).symm codeGrant_stored
  have token := lives.2 _ emptyWorld _ _ _ (List.append_nil _).symm tokenGrant_stored rfl
  exact ⟨⟨codeGrant_stored, code.not.mpr (by decide)⟩, tokenGrant_stored,
    token.not.mpr (by decide)⟩

/-- Stored at the time 2 for 200 seconds, and expired at the time 3. -/
theorem new_grant_expired :
    (grantPrefix ++ ['t'], .grant codeGrant) ∈ codeLog ∧ codeGrant.updatedAt = 2 ∧
      sampleServer.opts.authorizationExpire = 200 ∧ ExpiredAt codeGrant 3 ∧
      ¬ LivesFor codeGrant 2 200 := by
  refine ⟨codeGrant_stored, rfl, rfl, by decide, fun lives => ?_⟩
  exact absurd ((lives 3).mp (by decide)) (by decide)

/-! ## The scope of a refreshed grant -/

def scopes (scope : Text) : List Text := scope.splitOn ','

/-- A scope is asked for that was not granted. -/
def Widens (granted requested : Text) : Prop :=
  ∃ s ∈ scopes requested, s ≠ [] ∧ s ∉ scopes granted

/-- A scope is asked for that was granted. -/
def Shares (granted requested : Text) : Prop :=
  ∃ s ∈ scopes requested, s ≠ [] ∧ s ∈ scopes granted

instance (granted requested : Text) : Decidable (Widens granted requested) :=
  inferInstanceAs (Decidable (∃ s ∈ scopes requested, _))

instance (granted requested : Text) : Decidable (Shares granted requested) :=
  inferInstanceAs (Decidable (∃ s ∈ scopes requested, _))

theorem extraScopes_iff (granted requested : Text) :
    extraScopes granted requested = true ↔ Shares granted requested := by
  simp only [extraScopes, Shares, scopes, List.any_eq_true, Bool.and_eq_true, decide_eq_true_eq]
  constructor
  · rintro ⟨s, asked, s', given, ⟨nonempty, -⟩, rfl⟩
    exact ⟨s', asked, nonempty, given⟩
  · rintro ⟨s, asked, nonempty, given⟩
    exact ⟨s, asked, s, given, ⟨nonempty, nonempty⟩, rfl⟩

/-- No scope is asked for. -/
def AsksNothing (requested : Text) : Prop := ∀ s ∈ scopes requested, s = []

theorem asksNothing_iff (granted requested : Text) :
    AsksNothing requested ↔ ¬ Shares granted requested ∧ ¬ Widens granted requested := by
  constructor
  · intro nothing
    constructor
    · rintro ⟨s, asked, nonempty, -⟩
      exact nonempty (nothing s asked)
    · rintro ⟨s, asked, nonempty, -⟩
      exact nonempty (nothing s asked)
  · rintro ⟨unshared, narrow⟩ s asked
    by_contra nonempty
    by_cases given : s ∈ scopes granted
    · exact unshared ⟨s, asked, nonempty, given⟩
    · exact narrow ⟨s, asked, nonempty, given⟩

/-- A grant was stored since that is not marked as deleted. -/
def StoresGrant (w w' : World V) : Prop :=
  ∃ new, w'.log = new ++ w.log ∧ ∃ key g, (key, Record.grant g) ∈ new ∧ g.deletedAt = 0

/-- A grant was stored since, and with this scope. -/
def StoresScope (scope : Text) (w w' : World V) : Prop :=
  StoresGrant w w' ∧ Logs (OnGrants fun g => g.deletedAt = 0 → g.scope = scope) w w'

/-- The stored grants have one scope. -/
theorem storesScope_iff {scope scope' : Text} {w w' : World V}
    (logs : Logs (OnGrants fun g => g.deletedAt = 0 → g.scope = scope') w w') :
    StoresScope scope w w' ↔ scope = scope' ∧ StoresGrant w w' := by
  constructor
  · rintro ⟨stores, logs'⟩
    obtain ⟨new, grown, key, g, listed, live⟩ := stores
    have first : g.scope = scope := logs'.mem grown listed live
    have second : g.scope = scope' := logs.mem grown listed live
    exact ⟨first.symm.trans second, new, grown, key, g, listed, live⟩
  · rintro ⟨rfl, stores⟩
    exact ⟨stores, logs⟩

/-- Two tokens can be made and saved, and the grant for them can be written under the first of its
keys, when `finalize` begins at a tick. -/
structure Unfailing (env : Env V) (tick : ℕ) : Prop where
  access : env.random tick ≠ none ∧ env.fault (tick + 2) = none
  refresh : env.random (tick + 3) ≠ none ∧ env.fault (tick + 5) = none
  grant : env.fault (tick + 7) = none

theorem unfailing_iff (env : Env V) (tick : ℕ) : Unfailing env tick ↔
    (env.random tick ≠ none ∧ env.fault (tick + 2) = none) ∧
      (env.random (tick + 3) ≠ none ∧ env.fault (tick + 3 + 2) = none) ∧
      env.fault (tick + 3 + 3 + 1) = none := by
  constructor
  · rintro ⟨access, refresh, grant⟩
    exact ⟨access, refresh, grant⟩
  · rintro ⟨access, refresh, grant⟩
    exact ⟨access, refresh, grant⟩

section Stores

variable {env : Env V} {P : Text → Record → Prop} {w w' w'' : World V}

theorem StoresGrant.later (stores : StoresGrant w w')
    (logs : Logs P w' w'') : StoresGrant w w'' := by
  obtain ⟨new, log, key, g, listed, live⟩ := stores
  obtain ⟨new', log', -⟩ := logs
  refine ⟨new' ++ new, ?_, key, g, List.mem_append_right _ listed, live⟩
  rw [log', log, List.append_assoc]

theorem not_storesGrant (log : w'.log = w.log) : ¬ StoresGrant w w' := by
  rintro ⟨new, grown, key, g, listed, -⟩
  obtain rfl : new = [] := List.self_eq_append_left.mp (log.symm.trans grown)
  exact List.not_mem_nil listed

/-- A token in the log is no grant. -/
theorem storesGrant_after_token {key : Text} {token : Token}
    (log : w'.log = (key, .token token) :: w.log) (logs : Logs P w' w'') :
    StoresGrant w w'' ↔ StoresGrant w' w'' := by
  obtain ⟨new, grown, -⟩ := logs
  have whole : w''.log = (new ++ [(key, .token token)]) ++ w.log := by
    rw [grown, log, List.append_assoc, List.singleton_append]
  constructor
  · rintro ⟨new', grown', key', g, listed, live⟩
    obtain rfl := List.append_cancel_right (grown'.symm.trans whole)
    rcases List.mem_append.mp listed with later | first
    · exact ⟨new, grown, key', g, later, live⟩
    · cases List.mem_singleton.mp first
  · rintro ⟨new', grown', key', g, listed, live⟩
    obtain rfl := List.append_cancel_right (grown'.symm.trans grown)
    exact ⟨_, whole, key', g, List.mem_append_left _ listed, live⟩

/-- A computation that begins with a new token stores a grant iff the token is made and saved and
what follows stores one. -/
theorem newToken_bind_stores_iff {β : Type} {rest : Token → M V β} {later : Prop} (env : Env V)
    (auth : Grant) (w : World V) (keeps : ∀ token, Keeps (Logs P) (rest token))
    (follows : ∀ token w', token.code ≠ [] → w'.tick = w.tick + 3 →
      (StoresGrant w' (after (rest token) w') ↔ later)) :
    StoresGrant w (after (newToken env auth >>= rest) w) ↔
      (env.random w.tick ≠ none ∧ env.fault (w.tick + 2) = none) ∧ later := by
  rw [after, bind_apply]
  rcases newToken_apply env auth w with ⟨early, e, w', ran, -, log⟩ |
    ⟨made, token, w', ran, -, log, tick, named⟩
  · rw [ran]
    refine iff_of_false (not_storesGrant log) ?_
    rintro ⟨⟨random, saved⟩, -⟩
    exact early.elim random fun fault => fault saved
  · rw [ran, and_iff_right made, ← follows token w' named tick]
    exact storesGrant_after_token log ((keeps token).after w')

/-- A grant with an access token is first written under the key of that token. -/
theorem saveGrant_stores (env : Env V) {g : Grant} (named : g.accessToken ≠ [])
    (live : g.deletedAt = 0) (w : World V) :
    (env.fault (w.tick + 1) ≠ none ∧ ∃ e w', saveGrant env g w = .error e w' ∧ w'.log = w.log) ∨
    env.fault (w.tick + 1) = none ∧ StoresGrant w (after (saveGrant env g) w) := by
  let g' : Grant := { g with updatedAt := env.clock w.tick }
  have began : saveGrant env g w =
      (set env (grantAccessPrefix ++ g.accessToken) (.grant g') >>= fun _ =>
        saveIndex env grantRefreshPrefix g.refreshToken g' >>= fun _ =>
        set env (grantPrefix ++ g.code) (.grant g') >>= fun _ => pure g') w.tock := by
    have index : saveIndex env grantAccessPrefix g.accessToken g' =
        set env (grantAccessPrefix ++ g.accessToken) (.grant g') := if_pos named
    rw [← index]
    rfl
  have second : w.tock.tick = w.tick + 1 := rfl
  cases fault : env.fault (w.tick + 1) with
  | some e =>
    refine .inl ⟨Option.some_ne_none e, .error e, w.tock.tock, ?_, rfl⟩
    rw [began, bind_apply, set, second, fault]
  | none =>
    refine .inr ⟨rfl, ?_⟩
    have respects : Respects env (fun _ _ => True) (fun _ => True) (Logs fun _ _ => True) :=
      logs_respects
    have first : StoresGrant w
        (after (set env (grantAccessPrefix ++ g.accessToken) (.grant g')) w.tock) := by
      rw [after, set, second, fault]
      exact ⟨[(_, .grant g')], rfl, _, g', List.mem_cons_self, live⟩
    rw [after, began, ← after]
    exact first.later (logs_after_bind (fun _ => (respects.saveIndex fun _ => trivial).bind fun _ =>
      (respects.set trivial).bind fun _ => respects.pure g') w.tock)

/-- `finalize` stores a grant iff nothing fails until then. -/
theorem finalize_stores_iff (env : Env V) (o : Server) (auth : Grant) (w : World V) :
    StoresGrant w (after (finalize env o auth) w) ↔ Unfailing env w.tick := by
  have respects : Respects env (FinalizeWrites o auth) FinalizeRemoves (Logs fun _ _ => True) :=
    logs_respects.mono (fun _ => trivial) fun _ => trivial
  have context (w : World V) (ctx : Context) : Logs (fun _ _ => True) w { w with ctx } :=
    logs_of_same rfl
  rw [unfailing_iff, finalize_eq]
  refine newToken_bind_stores_iff env auth w (respects.finalizeFrom context)
    fun access w₁ named tick => ?_
  rw [finalizeFrom, ← tick]
  have saves (refresh : Token) :=
    (respects.saveGrant fun t _ listed => .grant access.code refresh.code t listed).bind
      (respects.finish context)
  refine newToken_bind_stores_iff env auth w₁ saves fun refresh w₂ _ tick' => ?_
  rw [← tick']
  rcases saveGrant_stores env (g := accessGrant o auth access.code refresh.code) named rfl w₂ with
    ⟨fault, e, w₃, ran, log⟩ | ⟨fault, stores⟩
  · rw [after, bind_apply, ran]
    exact iff_of_false (not_storesGrant log) fault
  · exact iff_of_true (stores.later (logs_after_bind (respects.finish context) w₂)) fault

end Stores

def Denied (resp : Response) : Prop := resp.data .error = some (.err .accessDenied)

/-- What a refresh should come to: it is denied iff it widens the scope, and otherwise the new grant
has the scope that was asked for. -/
structure Narrows (r : Request) (g : Grant) (w : World V) (resp : Response) (w' : World V) :
    Prop where
  denied : Denied resp ↔ Widens g.scope (refreshScope r g)
  stored : ¬ Widens g.scope (refreshScope r g) → StoresScope (refreshScope r g) w w'

/-- The refresh comes to the scopes: the client has shown its secret and the refresh token has led
to a grant of the client. -/
structure ComesToScopes (env : Env V) (r : Request) (basic : BasicAuth) (w : World V) (g : Grant)
    (w₂ : World V) : Prop where
  begun : w.ctx = .init
  given : r.form .refreshToken ≠ []
  found : ∃ c w₁, clientWithSecret env basic w = .ok c w₁ ∧
    grant env (r.form .refreshToken) w₁ = .ok g w₂ ∧ g.clientID = c.id

section Refresh

variable {env : Env V} {r : Request} {basic : BasicAuth} {w w₂ : World V} {g : Grant}

theorem ComesToScopes.reads (comes : ComesToScopes env r basic w g w₂) : Reads w w₂ := by
  obtain ⟨c, w₁, shown, found, -⟩ := comes.found
  have first := ((clientWithSecret_ends env basic w).of_ok shown).1
  have second := ((find_ends env _ _ _ w₁).of_ok found).1
  exact IsTrans.trans _ _ _ first second

theorem ComesToScopes.apply (comes : ComesToScopes env r basic w g w₂) (o : Server) :
    accessByRefresh env o r basic w =
      (if extraScopes g.scope (refreshScope r g) then refuse env .accessDenied []
        else issue env o g []) w₂ := by
  obtain ⟨c, w₁, shown, found, own⟩ := comes.found
  rw [accessByRefresh, if_neg comes.given, withClient, bind_ok (attempt_ok shown)]
  show (attempt (grant env (r.form .refreshToken)) >>= _) _ = _
  rw [bind_ok (attempt_ok found)]
  show (if g.clientID ≠ c.id then _ else _ : M V Response) _ = _
  rw [if_neg (not_not.mpr own)]

end Refresh

/-! ## Issuing does not panic -/

section NoPanic

variable (env : Env V)

theorem calm_set (key : Text) (r : Record) : Calm (set env key r) := by
  intro w
  rw [Ends, set]
  cases env.fault w.tick with
  | some e => exact error_ne_panic _
  | none => trivial

theorem calm_remove (key : Text) : Calm (remove env key) := by
  intro w
  rw [Ends, remove]
  cases env.fault w.tick with
  | some e => exact error_ne_panic _
  | none => trivial

theorem calm_now : Calm (now env) := fun _ => trivial

theorem calm_get (key : Text) : Calm (get env key) := by
  intro w
  rw [Ends, get]
  cases env.fault w.tick with
  | some e => exact error_ne_panic _
  | none =>
    cases w.store key with
    | none => exact error_ne_panic _
    | some v => trivial

theorem calm_find {α : Type} (decode : V → Option α) (deletedAt : α → Time) (key : Text) :
    Calm (find env decode deletedAt key) := by
  refine (calm_get env key).bind fun v => ?_
  cases decode v with
  | none => exact calm_fail _
  | some a =>
    show Calm (if deletedAt a ≠ 0 then _ else _)
    split
    · exact calm_fail _
    · exact calm_pure a

theorem calm_newToken (auth : Grant) : Calm (newToken env auth) := by
  have generated : Calm (generate env) := by
    intro w
    rw [Ends, generate]
    cases env.random w.tick with
    | none => exact error_ne_panic _
    | some t => trivial
  refine generated.bind fun code => (calm_now env).bind fun t => ?_
  exact (calm_set env _ _).bind fun _ => calm_pure _

theorem calm_saveIndex (start key : Text) (g : Grant) : Calm (saveIndex env start key g) := by
  rw [saveIndex]
  split
  · exact calm_set env _ _
  · exact calm_pure ()

theorem calm_saveGrant (g : Grant) : Calm (saveGrant env g) :=
  (calm_now env).bind fun _ => (calm_saveIndex env _ _ _).bind fun _ =>
    (calm_saveIndex env _ _ _).bind fun _ => (calm_set env _ _).bind fun _ => calm_pure _

theorem calm_removeIndex (start key : Text) : Calm (removeIndex env start key) := by
  rw [removeIndex]
  split
  · refine (calm_remove env _).bind fun _ => (calm_find env _ _ _).bind fun tok => ?_
    exact (calm_now env).bind fun _ => calm_set env _ _
  · exact calm_pure ()

theorem calm_removeGrant (id : Text) : Calm (removeGrant env id) :=
  (calm_find env _ _ _).bind fun _ => (calm_now env).bind fun _ =>
    (calm_removeIndex env _ _).bind fun _ => (calm_removeIndex env _ _).bind fun _ =>
      calm_set env _ _

theorem calm_finalize (o : Server) (auth : Grant) : Calm (finalize env o auth) := by
  refine (calm_newToken env auth).bind fun access => (calm_newToken env auth).bind fun refresh => ?_
  refine (calm_saveGrant env _).bind fun g => ?_
  have filled : Calm (onContext (V := V) fun ctx =>
      { ctx with data := tokenData o g ctx.data }) := fun _ => trivial
  refine filled.bind fun _ => ?_
  show Calm (if auth.code ≠ [] then _ else _)
  split
  · exact calm_removeGrant env _
  · exact calm_pure ()

end NoPanic

section Refreshed

variable {env : Env V} {r : Request} {basic : BasicAuth} {w w₂ : World V} {g : Grant}

theorem commit_data {parse : Text → Option URL} {ctx : Context} (kind : ctx.kind = .data) :
    (ctx.commit parse).data = ctx.data := by
  rw [Context.commit, kind]
  rfl

theorem refuse_apply (env : Env V) (id : ErrKey) (kind : w.ctx.kind = .data) :
    ∃ resp w', refuse env id [] w = .ok resp w' ∧ resp.data .error = some (.err id) ∧
      w'.log = w.log := by
  refine ⟨_, _, rfl, ?_, rfl⟩
  have kept : (w.ctx.setErrState id [] []).kind = .data := kind
  rw [commit_data kept]
  rfl

/-- An issue comes to a response that is not a denial. The grants it stores have the scope of the
one it is given, and one is stored iff nothing fails until then. -/
theorem issue_returns (env : Env V) (o : Server) (auth : Grant) (begun : w.ctx = .init) :
    ∃ resp w', issue env o auth [] w = .ok resp w' ∧ ¬ Denied resp ∧
      Logs (OnGrants fun g => g.deletedAt = 0 → g.scope = auth.scope) w w' ∧
      (StoresGrant w w' ↔ Unfailing env w.tick) := by
  have logs := finalize_logs env (Q := fun g => g.scope = auth.scope) o auth
    fun _ _ _ => rfl
  have keeps : Keeps (Issued env auth) (finalize env o auth) := fun w =>
    (finalize_ends o w).mono (fun _ _ ended => ended.1) fun _ _ issued => issued
  obtain ⟨result, w₁, ran⟩ := (calm_finalize env o auth).attempt_ok w
  have logged := (logs.attempt w).of_ok ran
  have issued := (keeps.attempt w).of_ok ran
  have kind : w₁.ctx.kind = .data := by rw [issued.kind, begun]; rfl
  have ended : after (finalize env o auth) w = w₁ := after_of_attempt ran
  have stores := finalize_stores_iff env o auth w
  rw [ended] at stores
  rw [issue, bind_ok ran]
  cases result with
  | error e =>
    obtain ⟨resp, w', refused, error, log⟩ := refuse_apply env .serverError kind
    refine ⟨resp, w', refused, ?_, logged.trans (logs_of_same log), ?_⟩
    · rw [Denied, error]
      decide
    · rwa [StoresGrant, log, ← StoresGrant]
  | ok u =>
    refine ⟨_, _, rfl, ?_, logged, stores⟩
    rw [Denied, commit_data kind, issued.error, begun]
    decide

/-- The check for scopes denies what shares a scope with the grant, and what it lets through has the
scope of the grant. So a refresh is handled as it should be iff it asks for a scope of the grant and
for another one, or if it asks for none, in the words of the grant, and nothing fails until the
grant is stored. -/
theorem refresh_narrows_iff (comes : ComesToScopes env r basic w g w₂) (o : Server) :
    ∃ resp w', accessByRefresh env o r basic w = .ok resp w' ∧
      (Narrows r g w resp w' ↔
        (Shares g.scope (refreshScope r g) ∧ Widens g.scope (refreshScope r g)) ∨
        (AsksNothing (refreshScope r g) ∧ refreshScope r g = g.scope ∧
          Unfailing env w₂.tick)) := by
  have begun : w₂.ctx = .init := comes.reads.ctx.trans comes.begun
  rw [comes.apply, asksNothing_iff g.scope]
  by_cases shares : Shares g.scope (refreshScope r g)
  · rw [if_pos ((extraScopes_iff _ _).mpr shares)]
    have kind : w₂.ctx.kind = .data := by rw [begun]; rfl
    obtain ⟨resp, w', ran, denied, -⟩ := refuse_apply env .accessDenied kind
    refine ⟨resp, w', ran, fun narrows => .inl ⟨shares, narrows.denied.mp denied⟩, ?_⟩
    rintro (⟨-, widens⟩ | ⟨⟨unshared, -⟩, -⟩)
    · exact ⟨iff_of_true denied widens, fun narrow => absurd widens narrow⟩
    · exact absurd shares unshared
  · rw [if_neg (mt (extraScopes_iff _ _).mp shares)]
    obtain ⟨resp, w', ran, passed, logged, stores⟩ := issue_returns env o g begun
    have logs := (logs_of_same comes.reads.log).trans logged
    rw [← stores, StoresGrant, comes.reads.log, ← StoresGrant]
    refine ⟨resp, w', ran, fun narrows => ?_, ?_⟩
    · have narrow := mt narrows.denied.mpr passed
      exact .inr ⟨⟨shares, narrow⟩, (storesScope_iff logs).mp (narrows.stored narrow)⟩
    · rintro (⟨shared, -⟩ | ⟨⟨-, narrow⟩, stores⟩)
      · exact absurd shared shares
      · exact ⟨iff_of_false passed narrow, fun _ => (storesScope_iff logs).mpr stores⟩

end Refreshed

private def scopedGrant : Grant :=
  { Grant.zero with code := ['k'], clientID := ['c'], scope := ['a'] }

private def scopedWorld : World Record := sampleWorld [(grantPrefix ++ ['k'], scopedGrant)]

private def refreshRequest (scope : Text) : Request :=
  sampleRequest .refreshToken fun
    | .refreshToken => ['k']
    | .scope => scope
    | _ => []

private theorem scoped_comes (scope : Text) :
    ComesToScopes plainEnv (refreshRequest scope) ⟨['c'], ['s']⟩ scopedWorld scopedGrant
      scopedWorld.tock.tock where
  begun := rfl
  given := List.cons_ne_nil _ _
  found := ⟨sampleClient, scopedWorld.tock, rfl, rfl, rfl⟩

theorem refresh_of_more_narrows :
    ∃ resp w', accessByRefresh plainEnv sampleServer (refreshRequest ['a', ',', 'b'])
        ⟨['c'], ['s']⟩ scopedWorld = .ok resp w' ∧
      Narrows (refreshRequest ['a', ',', 'b']) scopedGrant scopedWorld resp w' := by
  obtain ⟨resp, w', ran, narrows⟩ :=
    refresh_narrows_iff (scoped_comes ['a', ',', 'b']) sampleServer
  exact ⟨resp, w', ran, narrows.mpr (.inl (by decide))⟩

/-- With the scope of the grant a refresh is denied, and with another scope it is not. -/
theorem refresh_denies_granted_scope :
    (∃ resp w', accessByRefresh plainEnv sampleServer (refreshRequest ['a']) ⟨['c'], ['s']⟩
        scopedWorld = .ok resp w' ∧ Denied resp ∧ ¬ Widens scopedGrant.scope ['a']) ∧
    ∃ resp w', accessByRefresh plainEnv sampleServer (refreshRequest ['b']) ⟨['c'], ['s']⟩
        scopedWorld = .ok resp w' ∧ ¬ Denied resp ∧ Widens scopedGrant.scope ['b'] := by
  constructor
  · exact ⟨_, _, rfl, rfl, by decide⟩
  · refine ⟨_, _, rfl, ?_, by decide⟩
    rw [Denied]
    decide

end OAuth
