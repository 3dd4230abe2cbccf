import Vince.OAuthCalls
import Vince.OAuthWrites

/-!
# What a server gives away in the long run

Tokens are saved where clients are looked up, and the grants of tokens are saved without a code. So
what the other endpoints look for is not there after any calls, and it stays so. Codes are not
handed out either, since no user can log in.
-/

namespace OAuth

open GoText Effects

variable {V : Type} {env : Env V} {forms : Forms} {o : Server} {w w' : World V}

/-- No token is where tokens are looked for, and no grant has a code. -/
structure Unissued (store : Text → Option V) : Prop where
  token : ∀ id, store (tokenPrefix ++ id) = none
  grant : ∀ id, id ≠ [] → store (grantPrefix ++ id) = none

def StaysUnissued (w w' : World V) : Prop := Unissued w.store → Unissued w'.store

instance : Std.Refl (StaysUnissued (V := V)) := ⟨fun _ => id⟩

instance : IsTrans (World V) StaysUnissued := ⟨fun _ _ _ first second => second ∘ first⟩

/-- The keys under which no token and no grant with a code is stored. -/
def Outside (key : Text) : Prop := ¬ tokenPrefix <+: key ∧ (grantPrefix <+: key → key = grantPrefix)

theorem Unissued.update {store : Text → Option V} (unissued : Unissued store) {key : Text}
    (outside : Outside key) (v : V) : Unissued (Function.update store key (some v)) := by
  refine ⟨fun id => ?_, fun id given => ?_⟩
  · have other : tokenPrefix ++ id ≠ key := by
      rintro rfl
      exact outside.1 ⟨id, rfl⟩
    rw [Function.update_of_ne other, unissued.token]
  · have other : grantPrefix ++ id ≠ key := by
      rintro rfl
      have whole := outside.2 ⟨id, rfl⟩
      exact given (List.append_right_eq_self.mp whole)
    rw [Function.update_of_ne other, unissued.grant id given]

theorem Unissued.erase {store : Text → Option V} (unissued : Unissued store) (key : Text) :
    Unissued (Function.update store key none) := by
  refine ⟨fun id => ?_, fun id given => ?_⟩
  · rw [Function.update_apply, unissued.token, ite_self]
  · rw [Function.update_apply, unissued.grant id given, ite_self]

theorem staysUnissued_respects :
    Respects env (fun key _ => Outside key) (fun _ => True) StaysUnissued where
  reads read unissued := by rwa [read.store]
  set {key r} outside w := by
    rw [Ends, set]
    cases env.fault w.tick with
    | some e => exact id
    | none => exact fun unissued => unissued.update outside _
  remove {key} _ w := by
    rw [Ends, remove]
    cases env.fault w.tick with
    | some e => exact id
    | none => exact fun unissued => unissued.erase key

theorem Untouched.staysUnissued (untouched : Untouched w w') : StaysUnissued w w' := by
  intro unissued
  rwa [untouched.store]

/-! ## The keys of the endpoints -/

theorem outside_of_apart {start : Text}
    (apart : (¬ tokenPrefix <+: start ∧ ¬ start <+: tokenPrefix) ∧
      ¬ grantPrefix <+: start ∧ ¬ start <+: grantPrefix) (key : Text) : Outside (start ++ key) :=
  ⟨fun begins => not_both_begin apart.1 begins ⟨key, rfl⟩,
    fun begins => (not_both_begin apart.2 begins ⟨key, rfl⟩).elim⟩

theorem outside_grant {g : Grant} (noCode : g.code = []) {key : Text}
    (listed : key ∈ (Record.grant g).keys) : Outside key := by
  rcases mem_keys_grant.mp listed with ⟨-, rfl⟩ | ⟨-, rfl⟩ | rfl
  · exact outside_of_apart (by decide) _
  · exact outside_of_apart (by decide) _
  · rw [noCode, List.append_nil]
    exact ⟨by decide, fun _ => rfl⟩

theorem newToken_staysUnissued (auth : Grant) : Keeps StaysUnissued (newToken env auth) :=
  staysUnissued_respects.generate.bind fun _ =>
    staysUnissued_respects.saveToken fun _ => outside_of_apart (by decide) _

/-- Without a code nothing is removed, and every key written is outside. -/
theorem finalize_staysUnissued {auth : Grant} (noCode : auth.code = []) :
    Keeps StaysUnissued (finalize env o auth) := by
  refine (newToken_staysUnissued auth).bind fun access => ?_
  refine (newToken_staysUnissued auth).bind fun refresh => ?_
  refine (staysUnissued_respects.saveGrant fun _ _ listed =>
    outside_grant (by rfl) listed).bind fun g => ?_
  have filled : Keeps StaysUnissued (onContext (V := V) fun ctx =>
      { ctx with data := tokenData o g ctx.data }) := fun _ => id
  refine filled.bind fun _ => ?_
  show Keeps StaysUnissued (if auth.code ≠ [] then _ else _)
  rw [if_neg (not_not.mpr noCode)]
  exact fun _ => id

theorem issue_staysUnissued {auth : Grant} (noCode : auth.code = []) (state : Text) :
    Keeps StaysUnissued (issue env o auth state) := by
  refine (finalize_staysUnissued noCode).attempt.bind fun result => ?_
  cases result with
  | error e => exact fun _ => id
  | ok _ => exact fun _ => id

/-! ## The endpoints one by one -/

theorem ends_onContext {α : Type} {f : Context → Context} {k : Unit → M V α}
    {Q : α → World V → Prop} {E : Failure Err → World V → Prop}
    (ends : Ends (k ()) { w with ctx := f w.ctx } Q E) : Ends (onContext f >>= k) w Q E :=
  .bind ends

/-- A call that writes nothing and hands nothing out. -/
def Passive (m : M V Response) (w : World V) : Prop :=
  Ends m w (fun resp w' => Untouched w w' ∧ Bare resp.data) fun _ w' => Untouched w w'

theorem refuse_passive (untouched : Untouched w w') (id : ErrKey) (state : Text) :
    Ends (refuse env id state) w' (fun resp w'' => Untouched w w'' ∧ Bare resp.data)
      fun _ w'' => Untouched w w'' := by
  refine (refuse_ends env id state w' fun _ _ => False).mono (fun resp w'' refused => ?_) nofun
  exact ⟨⟨refused.1.store.trans untouched.store, refused.1.log.trans untouched.log⟩, refused.2⟩

theorem login_none (r : Request) (w : World V) :
    Ends (login env r) w (fun usr w' => usr = none ∧ Reads w w') fun _ w' => Reads w w' := by
  rw [login]
  split
  · have valid := valid_ends env (r.form .loginUsername) (r.form .loginPassword) w
    refine .attempt_bind (fun _ _ ran => ?_) (fun _ w' ran => ?_) fun w' ran => ?_
    · exact (valid.of_ok ran).elim
    · exact .pure ⟨rfl, valid.of_error ran⟩
    · exact valid.of_error ran
  · exact .pure ⟨rfl, Std.Refl.refl w⟩

/-- Nobody can log in, so nothing is authorized. -/
theorem authorize_passive (env : Env V) (o : Server) (r : Request) (w : World V) :
    Passive (authorize env o r) w := by
  have begun : Untouched w { w with ctx := .init } := ⟨rfl, rfl⟩
  refine ends_onContext ?_
  dsimp only
  split
  · exact refuse_passive begun _ _
  · rename_i requested _
    have found := find_ends env env.toClient Client.deletedAt (clientPrefix ++ r.form .clientID)
      { w with ctx := .init }
    refine .attempt_bind (fun c w₁ ran => ?_) (fun e w₁ ran => ?_) fun w₁ ran => ?_
    · obtain ⟨read, -⟩ := found.of_ok ran
      have untouched : Untouched w w₁ := ⟨read.store, read.log⟩
      show Ends (authorizeClient env o r c requested) w₁ _ _
      rw [authorizeClient]
      split
      · exact refuse_passive untouched _ _
      · split
        · exact refuse_passive untouched _ _
        · refine .bind (.bind ((login_none r _).mono (fun usr w₂ logged => ?_)
            fun _ w₂ reads => ?_))
          · obtain ⟨rfl, reads⟩ := logged
            exact .pure ⟨⟨reads.store.trans untouched.store, reads.log.trans untouched.log⟩,
              rfl, rfl, rfl⟩
          · exact ⟨reads.store.trans untouched.store, reads.log.trans untouched.log⟩
    · have read := found.of_error ran
      have untouched : Untouched w w₁ := ⟨read.store, read.log⟩
      exact refuse_passive untouched _ _
    · have read := found.of_error ran
      exact ⟨read.store, read.log⟩

/-- The grant types with which a client asks for tokens of its own. -/
def ForItself (r : Request) : Prop :=
  GrantType.ofText (r.form .grantType) = some .clientCredentials ∨
    GrantType.ofText (r.form .grantType) = some .assertion

/-- A client that has shown its secret asks for tokens of its own. -/
structure AsksForItself (env : Env V) (store : Text → Option V) (r : Request) : Prop where
  type : ForItself r
  verified : ∃ basic c, r.basic = some basic ∧ Verified env basic store c

theorem access_emptyCode {r : Request} (noCode : r.form .code = [])
    (type : GrantType.ofText (r.form .grantType) = some .authorizationCode) (w : World V) :
    Passive (access env o r) w := by
  have begun : Untouched w { w with ctx := .init } := ⟨rfl, rfl⟩
  refine .bind ?_
  show Ends (if r.method = .get ∧ o.opts.allowGetAccess = false then _ else _) _ _ _
  split
  · exact refuse_passive begun _ _
  · split
    · exact refuse_passive begun _ _
    · cases r.basic with
      | none => exact refuse_passive begun _ _
      | some basic =>
        show Ends (accessBy env o r basic) _ _ _
        rw [accessBy, type]
        split
        · show Ends (accessByCode env o r basic) _ _ _
          rw [accessByCode, if_pos noCode]
          exact refuse_passive begun _ _
        · exact refuse_passive begun _ _

/-- The grants for which tokens are issued have no code. -/
theorem Granted.forItself {r : Request} {c : Client} {g : Grant} {w₁ : World V}
    (granted : Granted env o r w c g w₁) (unissued : Unissued w.store)
    (code : GrantType.ofText (r.form .grantType) = some .authorizationCode → r.form .code ≠ []) :
    ForItself r ∧ g.code = [] := by
  have grant := granted.grant
  rw [GrantFor] at grant
  split at grant
  next type =>
    have absent := unissued.grant _ (code type)
    rw [Found, absent] at grant
    simp at grant
  next =>
    have absent := unissued.grant _ grant.1
    rw [Found, absent] at grant
    simp at grant
  next => exact grant.elim
  next type =>
    rw [grant]
    exact ⟨.inl type, rfl⟩
  next type =>
    rw [grant]
    exact ⟨.inr type, rfl⟩
  next => exact grant.elim

theorem access_forItself (unissued : Unissued w.store) (r : Request) :
    Ends (access env o r) w
      (fun resp w' => Unissued w'.store ∧ (Bare resp.data ∨ AsksForItself env w.store r))
      fun _ w' => Unissued w'.store := by
  by_cases empty : GrantType.ofText (r.form .grantType) = some .authorizationCode ∧
      r.form .code = []
  · refine (access_emptyCode empty.2 empty.1 w).mono (fun resp w' passive => ?_) fun _ w' same => ?_
    · exact ⟨passive.1.staysUnissued unissued, .inl passive.2⟩
    · exact same.staysUnissued unissued
  · have code (type : GrantType.ofText (r.form .grantType) = some .authorizationCode) :
        r.form .code ≠ [] := fun none => empty ⟨type, none⟩
    refine (access_ends env o r w).mono (fun resp w' answered => ?_) fun failure w' broken => ?_
    · rcases answered with ⟨untouched, bare⟩ | ⟨c, g, w₁, granted, issued⟩
      · exact ⟨untouched.staysUnissued unissued, .inl bare⟩
      · obtain ⟨itself, noCode⟩ := granted.forItself unissued code
        have stays := (issue_staysUnissued noCode [] w₁).of_ok issued
        obtain ⟨basic, presented, verified⟩ := granted.verified
        exact ⟨stays (granted.untouched.staysUnissued unissued),
          .inr ⟨itself, basic, c, presented, verified⟩⟩
    · rcases broken with untouched | ⟨c, g, w₁, granted, issued⟩
      · exact untouched.staysUnissued unissued
      · obtain ⟨itself, noCode⟩ := granted.forItself unissued code
        have stays := (issue_staysUnissued noCode [] w₁).of_error issued
        exact stays (granted.untouched.staysUnissued unissued)

/-- What the info endpoint answers to requests with a code, whatever it is. -/
theorem infoOf_unissued (unissued : Unissued w.store) (code : Text) :
    Ends (infoOf env code) w
      (fun reply w' =>
        reply = .oauth ((w.ctx.setErrState .unauthorizedClient [] []).commit env.parse) ∧
        Untouched w w') fun _ _ => False := by
  have absent : Ends (clientWithCode env code) w (fun _ _ => False)
      fun failure w' => (∃ e, failure = .error e) ∧ Reads w w' := by
    refine .bind ?_
    have nothing := unissued.token code
    rw [token, find, Ends, bind_apply, get, nothing]
    cases env.fault w.tick with
    | some e => exact ⟨⟨_, rfl⟩, reads_tock w⟩
    | none => exact ⟨⟨_, rfl⟩, reads_tock w⟩
  refine .attempt_bind (fun _ _ ran => (absent.of_ok ran).elim) (fun e w₁ ran => ?_)
    fun w₁ ran => ?_
  · obtain ⟨-, read⟩ := absent.of_error ran
    refine ⟨?_, read.store, read.log⟩
    show Reply.oauth ((w₁.ctx.setErrState .unauthorizedClient [] []).commit env.parse) = _
    rw [read.ctx]
  · obtain ⟨⟨e, none⟩, -⟩ := absent.of_error ran
    cases none

/-- The error with which a request is answered; nothing if the call panics. -/
def infoError (r : InfoRequest) : Option ErrKey :=
  match r.code with
  | none => some .invalidRequest
  | some code =>
    match bearerCode r.authorization code with
    | .error () => none
    | .ok none => some .invalidRequest
    | .ok (some []) => some .invalidRequest
    | .ok (some _) => some .unauthorizedClient

/-- The response with an error and nothing else. -/
def errorReply (env : Env V) (id : ErrKey) : Reply :=
  .oauth ((Context.init.setErrState id [] []).commit env.parse)

theorem info_unissued (env : Env V) (unissued : Unissued w.store) (r : InfoRequest) :
    Ends (info env r) w
      (fun reply w' => some reply = (infoError r).map (errorReply env) ∧ Untouched w w')
      fun failure w' => failure = .panic ∧ infoError r = none ∧ Untouched w w' := by
  obtain ⟨authorization, code⟩ := r
  refine ends_onContext ?_
  cases code with
  | none => exact ⟨rfl, rfl, rfl⟩
  | some form =>
    simp only [infoError]
    cases bearerCode authorization form with
    | error _ => exact ⟨rfl, rfl, rfl, rfl⟩
    | ok given =>
      cases given with
      | none => exact ⟨rfl, rfl, rfl⟩
      | some code =>
        cases code with
        | nil => exact ⟨rfl, rfl, rfl⟩
        | cons c rest =>
          have begun : Unissued ({ w with ctx := .init } : World V).store := unissued
          refine (infoOf_unissued begun (c :: rest)).mono (fun reply w' answered => ?_)
            fun _ _ => False.elim
          exact ⟨congrArg some answered.1, answered.2.store, answered.2.log⟩

/-! ## Registration -/

/-- The accounts that a registration makes or replaces. -/
structure Registers (forms : Forms) (r : Registration) (u : User) : Prop where
  complete : r.complete = true
  email : u.email = r.email
  password : ∃ n, forms.hash n r.password = some u.password

/-- All that a registration writes is the account it is for. The page comes after that only. -/
def WritesAccount (env : Env V) (forms : Forms) (r : Option Registration) (w : World V)
    (reply : Reply) (w' : World V) : Prop :=
  w'.store = w.store ∧ reply ≠ .page ∨
    ∃ form u, r = some form ∧ Registers forms form u ∧
      w'.store = Function.update w.store (userPrefix ++ form.email) (some (env.encode (.user u)))

theorem saveUser_ends (env : Env V) (u : User) (w : World V) :
    Ends (saveUser env u) w
      (fun _ w' => ∃ t, w'.store = Function.update w.store (userPrefix ++ u.email)
        (some (env.encode (.user { u with updatedAt := t }))))
      fun failure w' => failure ≠ .panic ∧ w'.store = w.store := by
  refine now_bind env fun t w₁ reads _ => .bind ?_
  rw [Ends, set]
  cases env.fault w₁.tick with
  | some e => exact ⟨by simp, reads.store⟩
  | none =>
    refine ⟨t, ?_⟩
    show Function.update w₁.store _ _ = _
    rw [reads.store]

theorem hashString_ends (forms : Forms) (secret : Text) (w : World V) :
    Ends (hashString forms secret) w
      (fun hash w' => (∃ n, forms.hash n secret = some hash) ∧ Reads w w')
      fun failure w' => failure ≠ .panic ∧ Reads w w' := by
  rw [Ends, hashString]
  cases made : forms.hash w.tick secret with
  | none => exact ⟨by simp, reads_tock w⟩
  | some hash => exact ⟨⟨_, made⟩, reads_tock w⟩

theorem register_writesAccount (env : Env V) (forms : Forms) (r : Option Registration)
    (w : World V) :
    Ends (register env forms r) w (fun reply w' => reply.data = (fun _ => none) ∧
      WritesAccount env forms r w reply w') fun _ _ => False := by
  cases r with
  | none => exact ⟨rfl, .inl ⟨rfl, by simp⟩⟩
  | some form =>
    show Ends (if form.complete then _ else _) _ _ _
    split
    · rename_i complete
      have hashing := hashString_ends forms form.password w
      refine .attempt_bind (fun hash w₁ ran => ?_) (fun e w₁ ran => ?_) fun w₁ ran => ?_
      · obtain ⟨hashed, reads⟩ := hashing.of_ok ran
        refine now_bind env fun createdAt w₂ reads' _ => ?_
        have same : w₂.store = w.store := reads'.store.trans reads.store
        have saving := saveUser_ends env (newUser form.email hash createdAt) w₂
        refine .attempt_bind (fun u w₃ ran => ?_) (fun e w₃ ran => ?_) fun w₃ ran => ?_
        · obtain ⟨t, written⟩ := saving.of_ok ran
          refine ⟨?_, .inr ⟨form, { newUser form.email hash createdAt with updatedAt := t }, rfl,
            ⟨complete, rfl, hashed⟩, ?_⟩⟩
          · show Reply.data (if forms.page w₃.tick then .page else .internalError) = _
            split
            · rfl
            · rfl
          · show w₃.store = _
            rw [written, same]
            rfl
        · exact ⟨rfl, .inl ⟨(saving.of_error ran).2.trans same, by simp⟩⟩
        · exact (saving.of_error ran).1 rfl
      · exact ⟨rfl, .inl ⟨(hashing.of_error ran).2.store, by simp⟩⟩
      · exact (hashing.of_error ran).1 rfl
    · exact ⟨rfl, .inl ⟨rfl, by simp⟩⟩

/-! ## Whole runs -/

theorem WritesAccount.staysUnissued {r : Option Registration} {reply : Reply}
    (writes : WritesAccount env forms r w reply w') : StaysUnissued w w' := by
  intro unissued
  rcases writes with ⟨same, -⟩ | ⟨form, u, -, -, written⟩
  · rwa [same]
  · rw [written]
    exact unissued.update (outside_of_apart (by decide) _) _

/-- What a call comes down to while nothing has been issued. -/
theorem serve_unissued (env : Env V) (forms : Forms) (o : Server) (unissued : Unissued w.store)
    (call : Call) :
    Ends (serve env forms o call) w
      (fun reply w' => Unissued w'.store ∧
        (Bare reply.data ∨ ∃ r, call = .access r ∧ AsksForItself env w.store r))
      fun _ w' => Unissued w'.store := by
  cases call with
  | authorize r =>
    refine .bind ((authorize_passive env o r w).mono (fun resp w' passive => ?_)
      fun _ w' same => ?_)
    · exact .pure ⟨passive.1.staysUnissued unissued, .inl passive.2⟩
    · exact same.staysUnissued unissued
  | access r =>
    refine .bind ((access_forItself unissued r).mono (fun resp w' answered => ?_) fun _ _ => id)
    refine .pure ⟨answered.1, answered.2.imp id fun itself => ⟨r, rfl, itself⟩⟩
  | info r =>
    refine (info_unissued env unissued r).mono (fun reply w' answered => ?_) fun _ w' failed => ?_
    · refine ⟨answered.2.staysUnissued unissued, .inl ?_⟩
      cases error : infoError r with
      | none =>
        rw [error] at answered
        simp at answered
      | some id =>
        rw [error, Option.map_some, Option.some_inj] at answered
        have bare : Bare ((Context.init.setErrState id [] []).commit env.parse).data :=
          bare_commit (bare_setErrState Context.init id [] [])
        rw [answered.1]
        exact bare
    · exact failed.2.2.staysUnissued unissued
  | register r =>
    refine (register_writesAccount env forms r w).mono (fun reply w' answered => ?_)
      fun _ _ => False.elim
    refine ⟨answered.2.staysUnissued unissued, .inl ?_⟩
    rw [answered.1]
    exact ⟨rfl, rfl, rfl⟩

theorem run_unissued (env : Env V) (forms : Forms) (o : Server)
    (unissued : Unissued w.store) (calls : List Call) :
    Unissued (run (serve env forms o) w calls).store := by
  have keeps (call : Call) : Keeps StaysUnissued (serve env forms o call) := by
    intro w
    refine .intro (fun reply w' ran unissued => ?_) fun failure w' ran unissued => ?_
    · exact ((serve_unissued env forms o unissued call).of_ok ran).1
    · exact (serve_unissued env forms o unissued call).of_error ran
  exact Keeps.run keeps w calls unissued

def sampleForms : Forms := ⟨fun _ secret => some secret, fun _ => true⟩

def sampleCalls : List Call :=
  [.register (some ⟨['e'], ['p'], ['p']⟩),
    .access (sampleRequest .clientCredentials fun _ => []),
    .info ⟨"Bearer tt".toList, some []⟩]

theorem unissued_sampleWorld : Unissued (sampleWorld []).store := by
  refine ⟨fun id => ?_, fun id _ => ?_⟩
  · have apart : tokenPrefix ++ id ≠ clientPrefix ++ ['c'] := fun same =>
      not_both_begin (p := tokenPrefix) (q := clientPrefix) (by decide) ⟨id, rfl⟩
        ⟨['c'], same.symm⟩
    simp [sampleWorld, apart]
  · have apart : grantPrefix ++ id ≠ clientPrefix ++ ['c'] := fun same =>
      not_both_begin (p := grantPrefix) (q := clientPrefix) (by decide) ⟨id, rfl⟩
        ⟨['c'], same.symm⟩
    simp [sampleWorld, apart]

/-- After any calls, a code or a token is only handed out to a client that asks for itself. -/
theorem tokens_only_for_itself (env : Env V) (forms : Forms) (o : Server) (w : World V)
    (start : Unissued w.store) (calls : List Call) (call : Call) (reply : Reply) (w' : World V)
    (answered : serve env forms o call (run (serve env forms o) w calls) = .ok reply w')
    (given : ¬ Bare reply.data) :
    ∃ r, call = .access r ∧ AsksForItself env (run (serve env forms o) w calls).store r := by
  have ends := serve_unissued env forms o (run_unissued env forms o start calls) call
  obtain ⟨-, bare | asked⟩ := ends.of_ok answered
  · exact absurd bare given
  · exact asked

theorem tokens_only_for_itself_sample :
    ∃ reply w', serve plainEnv sampleForms sampleServer
        (.access (sampleRequest .clientCredentials fun _ => []))
        (run (serve plainEnv sampleForms sampleServer) (sampleWorld []) sampleCalls) =
          .ok reply w' ∧ ¬ Bare reply.data ∧
      ∃ r, Call.access (sampleRequest .clientCredentials fun _ => []) = .access r ∧
        AsksForItself plainEnv
          (run (serve plainEnv sampleForms sampleServer) (sampleWorld []) sampleCalls).store r := by
  refine ⟨_, _, rfl, fun bare => Option.some_ne_none _ bare.accessToken, ?_⟩
  exact tokens_only_for_itself plainEnv sampleForms sampleServer (sampleWorld [])
    unissued_sampleWorld sampleCalls _ _ _ rfl
    fun bare => Option.some_ne_none _ bare.accessToken

/-- After any calls, the info endpoint tells every client that it is not authorized. -/
theorem info_always_refuses (env : Env V) (forms : Forms) (o : Server) (w : World V)
    (start : Unissued w.store) (calls : List Call) (r : InfoRequest) :
    outcome (info env r) (run (serve env forms o) w calls) =
      match infoError r with
      | none => .error .panic
      | some id => .ok (errorReply env id) := by
  have ends := info_unissued env (run_unissued env forms o start calls) r
  rw [outcome]
  cases ran : info env r (run (serve env forms o) w calls) with
  | ok reply w' =>
    have answered := (ends.of_ok ran).1
    cases error : infoError r with
    | none =>
      rw [error] at answered
      cases answered
    | some id =>
      rw [error, Option.map_some, Option.some_inj] at answered
      rw [answered]
  | error failure w' =>
    obtain ⟨panicked, error, -⟩ := ends.of_error ran
    rw [error, panicked]

theorem info_always_refuses_sample :
    outcome (info plainEnv ⟨"Bearer tt".toList, some []⟩)
        (run (serve plainEnv sampleForms sampleServer) (sampleWorld []) sampleCalls) =
      .ok (errorReply plainEnv .unauthorizedClient) :=
  info_always_refuses plainEnv sampleForms sampleServer (sampleWorld []) unissued_sampleWorld
    sampleCalls ⟨"Bearer tt".toList, some []⟩

/-! ## Accounts -/

/-- The accounts are as before. -/
def SameAccounts (w w' : World V) : Prop :=
  ∀ email, w'.store (userPrefix ++ email) = w.store (userPrefix ++ email)

instance : Std.Refl (SameAccounts (V := V)) := ⟨fun _ _ => rfl⟩

instance : IsTrans (World V) SameAccounts :=
  ⟨fun _ _ _ first second email => (second email).trans (first email)⟩

theorem Untouched.sameAccounts (untouched : Untouched w w') : SameAccounts w w' := by
  intro email
  rw [untouched.store]

theorem update_account {store : Text → Option V} {key : Text} (apart : ¬ userPrefix <+: key)
    (v : Option V) (email : Text) :
    Function.update store key v (userPrefix ++ email) = store (userPrefix ++ email) := by
  have other : userPrefix ++ email ≠ key := by
    rintro rfl
    exact apart ⟨email, rfl⟩
  rw [Function.update_of_ne other]

theorem sameAccounts_respects :
    Respects env (fun key _ => ¬ userPrefix <+: key) (fun key => ¬ userPrefix <+: key)
      SameAccounts where
  reads read := read.untouched.sameAccounts
  set {key r} apart w := by
    rw [Ends, set]
    cases env.fault w.tick with
    | some e => exact fun _ => rfl
    | none => exact update_account apart _
  remove {key} apart w := by
    rw [Ends, remove]
    cases env.fault w.tick with
    | some e => exact fun _ => rfl
    | none => exact update_account apart _

theorem not_user (start : Text) (apart : ¬ userPrefix <+: start ∧ ¬ start <+: userPrefix)
    {key : Text} (begins : start <+: key) : ¬ userPrefix <+: key :=
  fun user => not_both_begin apart user begins

theorem finalize_sameAccounts (auth : Grant) : Keeps SameAccounts (finalize env o auth) := by
  refine Respects.finalize (sameAccounts_respects.mono (fun written => ?_) fun removed => ?_)
    fun _ _ _ => rfl
  · cases written with
    | token code t => exact not_user clientPrefix (by decide) ⟨code, rfl⟩
    | grant accessToken refreshToken t listed =>
      rcases mem_keys_grant.mp listed with ⟨-, rfl⟩ | ⟨-, rfl⟩ | rfl
      · exact not_user grantAccessPrefix (by decide) ⟨_, rfl⟩
      · exact not_user grantRefreshPrefix (by decide) ⟨_, rfl⟩
      · exact not_user grantPrefix (by decide) ⟨_, rfl⟩
    | deletedToken id tok nonzero => exact not_user tokenPrefix (by decide) ⟨_, rfl⟩
    | deletedGrant g nonzero => exact not_user grantPrefix (by decide) ⟨_, rfl⟩
  · rcases removed with begins | begins
    · exact not_user grantAccessPrefix (by decide) begins
    · exact not_user grantRefreshPrefix (by decide) begins

theorem issue_sameAccounts (auth : Grant) (state : Text) :
    Keeps SameAccounts (issue env o auth state) := by
  refine (finalize_sameAccounts auth).attempt.bind fun result => ?_
  cases result with
  | error e => exact fun _ _ => rfl
  | ok _ => exact fun _ _ => rfl

theorem access_sameAccounts (r : Request) : Keeps SameAccounts (access env o r) := by
  intro w
  refine (access_ends env o r w).mono (fun resp w' answered => ?_) fun failure w' broken => ?_
  · rcases answered with ⟨untouched, -⟩ | ⟨c, g, w₁, granted, issued⟩
    · exact untouched.sameAccounts
    · exact IsTrans.trans _ _ _ granted.untouched.sameAccounts
        ((issue_sameAccounts g [] w₁).of_ok issued)
  · rcases broken with untouched | ⟨c, g, w₁, granted, issued⟩
    · exact untouched.sameAccounts
    · exact IsTrans.trans _ _ _ granted.untouched.sameAccounts
        ((issue_sameAccounts g [] w₁).of_error issued)

theorem find_sameAccounts {α : Type} (decode : V → Option α) (deletedAt : α → Time) (key : Text) :
    Keeps SameAccounts (find env decode deletedAt key) :=
  sameAccounts_respects.find decode deletedAt key

theorem refused_sameAccounts (id : ErrKey) : Keeps SameAccounts (refused env id) := fun _ _ => rfl

theorem infoOf_sameAccounts (code : Text) : Keeps SameAccounts (infoOf env code) := by
  have byCode : Keeps SameAccounts (clientWithCode env code) :=
    (find_sameAccounts _ _ _).bind fun _ => find_sameAccounts _ _ _
  refine byCode.attempt.bind fun result => ?_
  cases result with
  | error e => exact refused_sameAccounts _
  | ok c =>
    refine (find_sameAccounts _ _ _).attempt.bind fun result => ?_
    cases result with
    | error e => exact refused_sameAccounts _
    | ok g =>
      show Keeps SameAccounts (if ¬ c.grants.contains g.code then _ else _)
      split
      · exact refused_sameAccounts _
      · have checked : Keeps SameAccounts (expired env g) := fun _ _ => rfl
        refine checked.bind fun late => ?_
        split
        · exact refused_sameAccounts _
        · have owner : Keeps SameAccounts (user env g.userID) :=
            (find_sameAccounts _ _ _).bind fun _ _ _ => rfl
          refine owner.attempt.bind fun result => ?_
          cases result with
          | error e => exact refused_sameAccounts _
          | ok usr =>
            show Keeps SameAccounts (if g.scope = "email".toList then _ else _)
            split
            · cases usr with
              | none => exact fun _ _ => rfl
              | some u => exact fun _ _ => rfl
            · exact refused_sameAccounts _

theorem info_sameAccounts (r : InfoRequest) : Keeps SameAccounts (info env r) := by
  obtain ⟨authorization, code⟩ := r
  have begun : Keeps SameAccounts (onContext (V := V) fun _ => .init) := fun _ _ => rfl
  refine begun.bind fun _ => ?_
  cases code with
  | none => exact refused_sameAccounts _
  | some form =>
    dsimp only
    cases bearerCode authorization form with
    | error _ => exact fun _ _ => rfl
    | ok given =>
      cases given with
      | none => exact refused_sameAccounts _
      | some code =>
        show Keeps SameAccounts (if code = [] then _ else _)
        split
        · exact refused_sameAccounts _
        · exact infoOf_sameAccounts code

/-- Nothing but a registration for it touches an account. -/
theorem serve_account (env : Env V) (forms : Forms) (o : Server) {call : Call} {email : Text}
    (other : ∀ r, call = .register (some r) → r.email ≠ email) (w : World V) :
    (after (serve env forms o call) w).store (userPrefix ++ email) =
      w.store (userPrefix ++ email) := by
  cases call with
  | authorize r =>
    have keeps : Keeps SameAccounts (authorize env o r) := fun w =>
      (authorize_passive env o r w).mono (fun _ _ passive => passive.1.sameAccounts)
        fun _ _ same => same.sameAccounts
    have answers : Keeps SameAccounts (serve env forms o (.authorize r)) :=
      keeps.bind fun _ _ _ => rfl
    exact answers.after w email
  | access r =>
    have answers : Keeps SameAccounts (serve env forms o (.access r)) :=
      (access_sameAccounts r).bind fun _ _ _ => rfl
    exact answers.after w email
  | info r => exact (info_sameAccounts r).after w email
  | register r =>
    have ends := register_writesAccount env forms r w
    rw [after, serve]
    cases ran : register env forms r w with
    | error failure w' => exact (ends.of_error ran).elim
    | ok reply w' =>
      rcases (ends.of_ok ran).2 with ⟨same, -⟩ | ⟨form, u, rfl, -, written⟩
      · exact congrFun same _
      · have apart : userPrefix ++ email ≠ userPrefix ++ form.email := by
          intro same
          exact other form rfl (List.append_cancel_left same).symm
        show w'.store _ = _
        rw [written, Function.update_of_ne apart]

theorem run_account (env : Env V) (forms : Forms) (o : Server) {calls : List Call} {email : Text}
    (other : ∀ r, .register (some r) ∈ calls → r.email ≠ email) (w : World V) :
    (run (serve env forms o) w calls).store (userPrefix ++ email) =
      w.store (userPrefix ++ email) := by
  induction calls generalizing w with
  | nil => rfl
  | cons call calls ih =>
    have first := serve_account env forms o
      (fun r same => other r (same ▸ List.mem_cons_self)) w
    have rest := ih (fun r member => other r (List.mem_cons_of_mem call member))
      (after (serve env forms o call) w)
    exact rest.trans first

/-- A registration that has been answered with the page replaces whatever account there was, and
only another registration for the same address changes it again. -/
theorem account_of_last_registration (env : Env V) (forms : Forms) (o : Server) (w : World V)
    (before : List Call) (form : Registration) (rest : List Call) (w' : World V)
    (answered : serve env forms o (.register (some form)) (run (serve env forms o) w before) =
      .ok .page w')
    (last : ∀ r, .register (some r) ∈ rest → r.email ≠ form.email) :
    ∃ u, Registers forms form u ∧
      (run (serve env forms o) w (before ++ .register (some form) :: rest)).store
        (userPrefix ++ form.email) = some (env.encode (.user u)) := by
  obtain ⟨-, ⟨-, nothing⟩ | ⟨form', u, given, registers, written⟩⟩ :=
    (register_writesAccount env forms (some form) (run (serve env forms o) w before)).of_ok answered
  · exact absurd rfl nothing
  · cases given
    refine ⟨u, registers, ?_⟩
    have made : after (serve env forms o (.register (some form)))
        (run (serve env forms o) w before) = w' := by
      rw [after, answered]
    rw [run_append, run, made, run_account env forms o last, written, Function.update_self]

theorem account_of_last_registration_sample :
    ∃ u, Registers sampleForms ⟨['e'], ['q'], ['q']⟩ u ∧
      (run (serve plainEnv sampleForms sampleServer) (sampleWorld [])
        (sampleCalls ++ .register (some ⟨['e'], ['q'], ['q']⟩) :: [.info ⟨[], some []⟩])).store
        (userPrefix ++ ['e']) = some (plainEnv.encode (.user u)) :=
  account_of_last_registration plainEnv sampleForms sampleServer (sampleWorld []) sampleCalls
    ⟨['e'], ['q'], ['q']⟩ [.info ⟨[], some []⟩] _ rfl (by simp)

end OAuth
