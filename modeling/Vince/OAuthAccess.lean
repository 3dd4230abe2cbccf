import Vince.OAuthServer

/-!
# What the access endpoint answers

A request comes down to one of two things: it is refused with the store untouched, or a client has
shown its secret, a branch has come to a grant, and tokens are issued for it. `access_ends` says so
once, and everything about the endpoint is read off from it and from what `issue` does.
-/

namespace OAuth

open GoText Effects

variable {V : Type} (env : Env V)

/-! ## Reading -/

/-- A live record that a lookup finds. -/
def Found {α : Type} (decode : V → Option α) (deletedAt : α → Time) (store : Text → Option V)
    (key : Text) (a : α) : Prop :=
  (store key).bind decode = some a ∧ deletedAt a = 0

/-- Nothing but the tape has moved. -/
structure Reads (w w' : World V) : Prop where
  store : w'.store = w.store
  log : w'.log = w.log
  ctx : w'.ctx = w.ctx

instance : Std.Refl (Reads (V := V)) := ⟨fun _ => ⟨rfl, rfl, rfl⟩⟩

instance : IsTrans (World V) Reads :=
  ⟨fun _ _ _ first second => ⟨second.store.trans first.store, second.log.trans first.log,
    second.ctx.trans first.ctx⟩⟩

theorem reads_tock (w : World V) : Reads w w.tock := ⟨rfl, rfl, rfl⟩

theorem get_ends (key : Text) (w : World V) :
    Ends (get env key) w (fun v w' => Reads w w' ∧ w.store key = some v)
      fun _ w' => Reads w w' := by
  rw [Ends, get]
  cases env.fault w.tick with
  | some e => exact reads_tock w
  | none =>
    cases stored : w.store key with
    | none => exact reads_tock w
    | some v => exact ⟨reads_tock w, rfl⟩

theorem find_ends {α : Type} (decode : V → Option α) (deletedAt : α → Time) (key : Text)
    (w : World V) :
    Ends (find env decode deletedAt key) w
      (fun a w' => Reads w w' ∧ Found decode deletedAt w.store key a)
      fun _ w' => Reads w w' := by
  refine .bind ((get_ends env key w).mono (fun v w' got => ?_) fun _ _ => id)
  obtain ⟨reads, stored⟩ := got
  cases decoded : decode v with
  | none => exact reads
  | some a =>
    by_cases deleted : deletedAt a ≠ 0
    · simp only [if_pos deleted]
      exact reads
    · simp only [if_neg deleted]
      refine ⟨reads, ?_, not_not.mp deleted⟩
      rw [stored, Option.bind_some, decoded]

theorem now_bind {α : Type} {f : Time → M V α} {w : World V} {Q : α → World V → Prop}
    {E : Failure Err → World V → Prop}
    (next : ∀ t w', Reads w w' → t ≠ 0 → Ends (f t) w' Q E) : Ends (now env >>= f) w Q E :=
  .bind (next (env.clock w.tick) w.tock (reads_tock w) (env.clock_ne w.tick))

/-- A client whose secret is the presented one. -/
structure Verified (basic : BasicAuth) (store : Text → Option V) (c : Client) : Prop where
  found : Found env.toClient Client.deletedAt store (clientPrefix ++ basic.userName) c
  secret : env.compare c.secret basic.password = none

theorem clientWithSecret_ends (basic : BasicAuth) (w : World V) :
    Ends (clientWithSecret env basic) w
      (fun c w' => Reads w w' ∧ Verified env basic w.store c)
      fun _ w' => Reads w w' := by
  refine .bind ((find_ends env _ _ _ w).mono (fun c w' found => ?_) fun _ _ => id)
  cases compared : env.compare c.secret basic.password with
  | some e => exact found.1
  | none => exact ⟨found.1, found.2, compared⟩

/-- A user that exists makes `valid` panic, so it never returns one. -/
theorem valid_ends (username password : Text) (w : World V) :
    Ends (valid env username password) w (fun _ _ => False) fun _ w' => Reads w w' := by
  have none_found : Ends (user env username) w (fun u w' => u = none ∧ Reads w w')
      fun _ w' => Reads w w' := by
    refine .bind ((find_ends env _ _ _ w).mono (fun _ _ found => ?_) fun _ _ => id)
    exact .pure ⟨rfl, found.1⟩
  refine .bind (none_found.mono (fun u w' found => ?_) fun _ _ reads => reads)
  obtain ⟨rfl, reads⟩ := found
  exact reads

/-! ## Refusing -/

/-- A response without a token or code. -/
structure Bare (data : Data) : Prop where
  accessToken : data .accessToken = none
  refreshToken : data .refreshToken = none
  code : data .code = none

theorem bare_setErrState (ctx : Context) (id : ErrKey) (uri state : Text) :
    Bare (ctx.setErrState id uri state).data := by
  rw [Context.setErrState, Context.setErrURI]
  by_cases given : state ≠ []
  · simp only [if_pos given]
    exact ⟨rfl, rfl, rfl⟩
  · simp only [if_neg given]
    exact ⟨rfl, rfl, rfl⟩

theorem bare_commit {parse : Text → Option URL} {ctx : Context} (bare : Bare ctx.data) :
    Bare (ctx.commit parse).data := by
  rw [Context.commit]
  split
  · split
    · exact bare
    · exact ⟨rfl, rfl, rfl⟩
  · exact bare

/-- The store and the log are as before. -/
structure Untouched (w w' : World V) : Prop where
  store : w'.store = w.store
  log : w'.log = w.log

theorem Reads.untouched {w w' : World V} (reads : Reads w w') : Untouched w w' :=
  ⟨reads.store, reads.log⟩

theorem refuse_ends (id : ErrKey) (state : Text) (w : World V)
    (E : Failure Err → World V → Prop) :
    Ends (refuse env id state) w (fun resp w' => Untouched w w' ∧ Bare resp.data) E :=
  ⟨⟨rfl, rfl⟩, bare_commit (bare_setErrState w.ctx id [] state)⟩

/-! ## What a request comes down to -/

section Access

variable (o : Server) (r : Request)

/-- The grant that the branch of a grant type comes to, from the store and the client. -/
def GrantFor (store : Text → Option V) (c : Client) (g : Grant) : Prop :=
  match GrantType.ofText (r.form .grantType) with
  | some .authorizationCode =>
    Found env.toGrant Grant.deletedAt store (grantPrefix ++ r.form .code) g
  | some .refreshToken =>
    r.form .refreshToken ≠ [] ∧
      Found env.toGrant Grant.deletedAt store (grantPrefix ++ r.form .refreshToken) g ∧
      g.clientID = c.id ∧
      extraScopes g.scope (refreshScope r g) = false
  | some .password => False
  | some .clientCredentials =>
    g = { Grant.zero with scope := r.form .scope, clientID := c.id, userID := c.userID }
  | some .assertion =>
    g = { Grant.zero with
      scope := r.form .scope, redirectURL := firstURI c.redirectURL o.opts.redirectSeparator }
  | none => False

/-- Tokens are issued from `w'` on, for a client that has shown its secret. -/
structure Granted (w : World V) (c : Client) (g : Grant) (w' : World V) : Prop where
  post : r.method = .post
  allowed : o.opts.accessAllowed (r.form .grantType) = true
  verified : ∃ basic, r.basic = some basic ∧ Verified env basic w.store c
  grant : GrantFor env o r w.store c g
  untouched : Untouched w w'
  ctx : w'.ctx = .init

/-- How a request is answered. -/
def Answered (w : World V) (resp : Response) (w' : World V) : Prop :=
  Untouched w w' ∧ Bare resp.data ∨
    ∃ c g w₁, Granted env o r w c g w₁ ∧ issue env o g [] w₁ = .ok resp w'

/-- How a request fails to be answered. -/
def Broken (w : World V) (failure : Failure Err) (w' : World V) : Prop :=
  Untouched w w' ∨
    ∃ c g w₁, Granted env o r w c g w₁ ∧ issue env o g [] w₁ = .error failure w'

/-- A request on its way. -/
structure Begun (w w' : World V) : Prop where
  untouched : Untouched w w'
  ctx : w'.ctx = .init

theorem Begun.reads {w w' w'' : World V} (begun : Begun w w') (reads : Reads w' w'') :
    Begun w w'' :=
  ⟨⟨reads.store.trans begun.untouched.store, reads.log.trans begun.untouched.log⟩,
    reads.ctx.trans begun.ctx⟩

variable {env o r} {w w' : World V}

theorem refuse_answered (begun : Begun w w') (id : ErrKey) :
    Ends (refuse env id []) w' (Answered env o r w) (Broken env o r w) := by
  refine (refuse_ends env id [] w' fun _ _ => False).mono (fun resp w'' refused => ?_) nofun
  obtain ⟨untouched, bare⟩ := refused
  exact Or.inl ⟨⟨untouched.store.trans begun.untouched.store,
    untouched.log.trans begun.untouched.log⟩, bare⟩

theorem issue_answered {c : Client} {g : Grant} (granted : Granted env o r w c g w') :
    Ends (issue env o g []) w' (Answered env o r w) (Broken env o r w) :=
  .intro (fun _ _ ran => Or.inr ⟨c, g, w', granted, ran⟩)
    fun _ _ ran => Or.inr ⟨c, g, w', granted, ran⟩

/-- Going on after something was read, or refusing. -/
theorem attempt_answered {α : Type} {m : M V α} {f : Except Err α → M V Response}
    {P : α → Prop} (begun : Begun w w')
    (reads : Ends m w' (fun a w'' => Reads w' w'' ∧ P a) fun _ w'' => Reads w' w'')
    (ok : ∀ a w'', Begun w w'' → P a →
      Ends (f (.ok a)) w'' (Answered env o r w) (Broken env o r w))
    (error : ∀ e w'', Begun w w'' →
      Ends (f (.error e)) w'' (Answered env o r w) (Broken env o r w)) :
    Ends (attempt m >>= f) w' (Answered env o r w) (Broken env o r w) := by
  refine .attempt_bind (fun a w'' ran => ?_) (fun e w'' ran => ?_) fun w'' ran => ?_
  · obtain ⟨read, holds⟩ := reads.of_ok ran
    exact ok a w'' (begun.reads read) holds
  · exact error e w'' (begun.reads (reads.of_error ran))
  · exact Or.inl (begun.reads (reads.of_error ran)).untouched

theorem withClient_answered {basic : BasicAuth} {next : Client → M V Response}
    (begun : Begun w w')
    (ok : ∀ c w'', Begun w w'' → Verified env basic w.store c →
      Ends (next c) w'' (Answered env o r w) (Broken env o r w)) :
    Ends (withClient env basic next) w' (Answered env o r w) (Broken env o r w) := by
  refine attempt_answered begun (clientWithSecret_ends env basic w')
    (fun c w'' begun' verified => ?_) fun _ w'' begun' => refuse_answered begun' _
  rw [begun.untouched.store] at verified
  exact ok c w'' begun' verified

section Branches

variable {basic : BasicAuth} (presented : r.basic = some basic) (post : r.method = .post)
  (allowed : o.opts.accessAllowed (r.form .grantType) = true) (begun : Begun w w')
include presented post allowed begun

theorem accessByCode_answered
    (type : GrantType.ofText (r.form .grantType) = some .authorizationCode) :
    Ends (accessByCode env o r basic) w' (Answered env o r w) (Broken env o r w) := by
  rw [accessByCode]
  split
  · exact refuse_answered begun _
  · refine withClient_answered begun fun c w₁ begun₁ verified => ?_
    have found : Ends (grantByClient env c (r.form .code)) w₁
        (fun g w₂ => Reads w₁ w₂ ∧ Found env.toGrant Grant.deletedAt w₁.store
          (grantPrefix ++ r.form .code) g) fun _ w₂ => Reads w₁ w₂ := by
      rw [grantByClient]
      split
      · exact find_ends env _ _ _ w₁
      · exact ⟨rfl, rfl, rfl⟩
    refine attempt_answered begun₁ found (fun g w₂ begun₂ found => ?_)
      fun _ w₂ begun₂ => refuse_answered begun₂ _
    refine .bind (now_bind env fun t w₃ reads _ => .pure ?_)
    have begun₃ := begun₂.reads reads
    split
    · exact refuse_answered begun₃ _
    · split
      · exact refuse_answered begun₃ _
      · refine issue_answered ⟨post, allowed, ⟨basic, presented, verified⟩, ?_,
          begun₃.untouched, begun₃.ctx⟩
        rw [GrantFor, type]
        rwa [begun₁.untouched.store] at found

theorem accessByRefresh_answered
    (type : GrantType.ofText (r.form .grantType) = some .refreshToken) :
    Ends (accessByRefresh env o r basic) w' (Answered env o r w) (Broken env o r w) := by
  rw [accessByRefresh]
  split
  · exact refuse_answered begun _
  · rename_i given
    refine withClient_answered begun fun c w₁ begun₁ verified => ?_
    refine attempt_answered begun₁ (find_ends env _ _ _ w₁) (fun g w₂ begun₂ found => ?_)
      fun _ w₂ begun₂ => refuse_answered begun₂ _
    rw [begun₁.untouched.store] at found
    show Ends (if g.clientID ≠ c.id then _ else _) _ _ _
    split
    · exact refuse_answered begun₂ _
    · rename_i same
      split
      · exact refuse_answered begun₂ _
      · rename_i narrow
        refine issue_answered ⟨post, allowed, ⟨basic, presented, verified⟩, ?_,
          begun₂.untouched, begun₂.ctx⟩
        rw [GrantFor, type]
        exact ⟨given, found, not_not.mp same, Bool.eq_false_iff.mpr narrow⟩

omit presented post allowed in
theorem accessByPassword_answered :
    Ends (accessByPassword env o r basic) w' (Answered env o r w) (Broken env o r w) := by
  rw [accessByPassword]
  split
  · exact refuse_answered begun _
  · refine attempt_answered (P := fun _ => False) begun ?_ (fun _ _ _ => False.elim)
      fun _ w'' begun' => refuse_answered begun' _
    exact (valid_ends env _ _ w').mono (fun _ _ => False.elim) fun _ _ => id

theorem accessByCredentials_answered
    (type : GrantType.ofText (r.form .grantType) = some .clientCredentials) :
    Ends (accessByCredentials env o r basic) w' (Answered env o r w) (Broken env o r w) := by
  refine withClient_answered begun fun c w₁ begun₁ verified => ?_
  refine issue_answered ⟨post, allowed, ⟨basic, presented, verified⟩, ?_, begun₁.untouched,
    begun₁.ctx⟩
  rw [GrantFor, type]

theorem accessByAssertion_answered
    (type : GrantType.ofText (r.form .grantType) = some .assertion) :
    Ends (accessByAssertion env o r basic) w' (Answered env o r w) (Broken env o r w) := by
  rw [accessByAssertion]
  split
  · exact refuse_answered begun _
  · refine withClient_answered begun fun c w₁ begun₁ verified => ?_
    refine issue_answered ⟨post, allowed, ⟨basic, presented, verified⟩, ?_, begun₁.untouched,
      begun₁.ctx⟩
    rw [GrantFor, type]

end Branches

/-- Every request is refused with the store untouched, or tokens are issued to a client that has
shown its secret. -/
theorem access_ends (env : Env V) (o : Server) (r : Request) (w : World V) :
    Ends (access env o r) w (Answered env o r w) (Broken env o r w) := by
  have begun : Begun w { w with ctx := .init } := ⟨⟨rfl, rfl⟩, rfl⟩
  refine .bind ?_
  show Ends (if r.method = .get ∧ o.opts.allowGetAccess = false then _ else _) _ _ _
  split
  · exact refuse_answered begun _
  · split
    · exact refuse_answered begun _
    · rename_i post
      cases presented : r.basic with
      | none => exact refuse_answered begun _
      | some basic =>
        show Ends (accessBy env o r basic) _ _ _
        rw [accessBy]
        split
        · rename_i allowed
          have method := not_not.mp post
          cases type : GrantType.ofText (r.form .grantType) with
          | none => exact refuse_answered begun _
          | some t =>
            cases t with
            | authorizationCode =>
              exact accessByCode_answered presented method allowed begun type
            | refreshToken => exact accessByRefresh_answered presented method allowed begun type
            | password => exact accessByPassword_answered begun
            | clientCredentials =>
              exact accessByCredentials_answered presented method allowed begun type
            | assertion => exact accessByAssertion_answered presented method allowed begun type
        · exact refuse_answered begun _

/-- Clients lie under their own ids. -/
def OwnIds (env : Env V) (store : Text → Option V) : Prop :=
  ∀ id c, Found env.toClient Client.deletedAt store (clientPrefix ++ id) c → c.id = id

/-- Whoever gets an access token has presented the secret of the live client that lies under the
user name, which is its id where clients lie under their ids. Without such a client nothing is
written, however the request ends. -/
theorem access_token_needs_secret (env : Env V) (o : Server) (r : Request) (w : World V) :
    (∀ resp w', access env o r w = .ok resp w' → resp.data .accessToken ≠ none →
      ∃ basic c, r.basic = some basic ∧ Verified env basic w.store c ∧
        (OwnIds env w.store → c.id = basic.userName)) ∧
    ((∀ basic c, r.basic = some basic → ¬ Verified env basic w.store c) →
      Ends (access env o r) w (fun _ w' => w'.store = w.store ∧ w'.log = w.log)
        fun _ w' => w'.store = w.store ∧ w'.log = w.log) := by
  have ends := access_ends env o r w
  constructor
  · intro resp w' ran given
    rcases ends.of_ok ran with ⟨-, bare⟩ | ⟨c, g, w₁, granted, -⟩
    · exact absurd bare.accessToken given
    · obtain ⟨basic, presented, verified⟩ := granted.verified
      exact ⟨basic, c, presented, verified, fun own => own _ _ verified.found⟩
  · intro nobody
    refine ends.mono (fun resp w' answered => ?_) fun failure w' broken => ?_
    · rcases answered with ⟨untouched, -⟩ | ⟨c, g, w₁, granted, -⟩
      · exact ⟨untouched.store, untouched.log⟩
      · obtain ⟨basic, presented, verified⟩ := granted.verified
        exact absurd verified (nobody basic c presented)
    · rcases broken with untouched | ⟨c, g, w₁, granted, -⟩
      · exact ⟨untouched.store, untouched.log⟩
      · obtain ⟨basic, presented, verified⟩ := granted.verified
        exact absurd verified (nobody basic c presented)

end Access

/-! ## A client and its requests -/

/-- A client with one authorization code. -/
def sampleClient : Client :=
  ⟨['c'], ['u'], [], ['s'], [['k']], [], ['/'], 0, 0, 0⟩

def sampleServer : Server := ⟨[], .init⟩

/-- A request of the client with its secret and some more form values. -/
def sampleRequest (type : GrantType) (more : Param → Text) : Request where
  method := .post
  form
    | .grantType => type.name
    | .clientID => ['c']
    | .clientSecret => ['s']
    | p => more p
  basicAuth := none

def sampleWorld (grants : List (Text × Grant)) : World Record where
  store key :=
    if key = clientPrefix ++ ['c'] then some (.client sampleClient)
    else (grants.lookup key).map .grant
  tick := 0
  log := []
  ctx := .init

theorem access_token_needs_secret_of_sample :
    ∃ resp w', access plainEnv sampleServer (sampleRequest .clientCredentials fun _ => [])
        (sampleWorld []) = .ok resp w' ∧
      resp.data .accessToken = some (.text ['t', 't']) ∧
      ∃ basic c, (sampleRequest .clientCredentials fun _ => []).basic = some basic ∧
        Verified plainEnv basic (sampleWorld []).store c ∧
        (OwnIds plainEnv (sampleWorld []).store → c.id = basic.userName) := by
  refine ⟨_, _, rfl, rfl, ?_⟩
  exact (access_token_needs_secret plainEnv sampleServer _ (sampleWorld [])).1 _ _ rfl nofun

end OAuth
