import Mathlib.Algebra.Group.Int.Defs
import Mathlib.Algebra.Group.Nat.Defs
import Vince.OAuthStore

/-!
# The authorize and access endpoints (`oauth2_server.go`)

The endpoints work on the context of the request, which is part of the state: what `finalize` has
put there is still there when it fails. A nil user that is looked into is a panic.
-/

namespace OAuth

open GoText Effects

variable {V : Type} (env : Env V)

/-! ## Tokens and grants -/

/-- `time.Duration(n) * time.Second`, which wraps around. -/
def seconds (n : Int) : Int := Int.bmod (n * 10 ^ 9) (2 ^ 64)

def expired (g : Grant) : M V Bool := do
  let t ← now env
  return g.createdAt + seconds g.expiresIn < t

def clientWithSecret (basic : BasicAuth) : M V Client := do
  let c ← client env basic.userName
  match env.compare c.secret basic.password with
  | some e => fail e
  | none => return c

def grantByClient (c : Client) (code : Text) : M V Grant :=
  if c.grants.contains code then grant env code else fail .keyNotFound

/-- A user that was found is nil, and its password is read. -/
def valid (username password : Text) : M V User := do
  match ← user env username with
  | none => panic
  | some u => match env.compare u.password password with
    | some e => fail e
    | none => return u

/-- `token` and `grant` return nothing that is deleted, so the tests for it that follow them in
`removeToken` and `removeGrant` are left out. -/
def removeToken (id : Text) : M V Unit := do
  let tok ← token env id
  let deletedAt ← now env
  set env (tokenPrefix ++ id) (.token { tok with deletedAt })

/-- One of the tokens of a grant that is removed. -/
def removeIndex (start key : Text) : M V Unit :=
  if key ≠ [] then do
    remove env (start ++ key)
    removeToken env key
  else pure ()

def removeGrant (id : Text) : M V Unit := do
  let g ← grant env id
  let deletedAt ← now env
  removeIndex env grantAccessPrefix g.accessToken
  removeIndex env grantRefreshPrefix g.refreshToken
  set env (grantPrefix ++ id) (.grant { g with deletedAt })

/-! ## Responses -/

def onContext (f : Context → Context) : M V Unit := fun w => .ok () { w with ctx := f w.ctx }

def commit : M V Response := fun w => .ok (w.ctx.commit env.parse) w

/-- `ctx.setErrState` and `ctx.commit` -/
def refuse (id : ErrKey) (state : Text) : M V Response := do
  onContext (·.setErrState id [] state)
  commit env

/-- The fields of a token response. -/
def tokenData (o : Server) (access : Grant) (data : Data) : Data :=
  let data := data.put .accessToken (.text access.accessToken)
  let data := data.put .tokenType (.text o.opts.tokenType)
  let data := data.put .expiresIn (.int access.expiresIn)
  let data := data.put .refreshToken (.text access.refreshToken)
  if access.scope ≠ [] then data.put .scope (.text access.scope) else data

/-- A new token for the client and user of a grant. -/
def newToken (auth : Grant) : M V Token := do
  let code ← generate env
  saveToken env ⟨code, auth.clientID, auth.userID, 0, 0, 0, 0⟩

/-- The grant that is stored for the new tokens. It has no code. -/
def accessGrant (o : Server) (auth : Grant) (accessToken refreshToken : Text) : Grant :=
  { Grant.zero with
    clientID := auth.clientID
    userID := auth.userID
    redirectURL := auth.redirectURL
    scope := auth.scope
    state := auth.state
    expiresIn := o.opts.accessExpire
    accessToken
    refreshToken }

def finalize (o : Server) (auth : Grant) : M V Unit := do
  let genAccessToken ← newToken env auth
  let genRefreshToken ← newToken env auth
  let access ← saveGrant env (accessGrant o auth genAccessToken.code genRefreshToken.code)
  onContext fun ctx => { ctx with data := tokenData o access ctx.data }
  if auth.code ≠ [] then removeGrant env auth.code else pure ()

/-- What the branches of the endpoints do with the grant they have come to. -/
def issue (o : Server) (auth : Grant) (state : Text) : M V Response := do
  match ← attempt (finalize env o auth) with
  | .error _ => refuse env .serverError state
  | .ok () => commit env

/-! ## The access endpoint -/

section Access

variable (o : Server) (r : Request)

/-- The branches begin with the client and its secret. -/
def withClient (basic : BasicAuth) (next : Client → M V Response) : M V Response := do
  match ← attempt (clientWithSecret env basic) with
  | .error _ => refuse env .unauthorizedClient []
  | .ok c => next c

/-- The redirect URI a code is redeemed with. -/
def accessRedirect (c : Client) : Text :=
  if r.form .redirectURL = [] then firstURI c.redirectURL o.opts.redirectSeparator
  else r.form .redirectURL

def accessByCode (basic : BasicAuth) : M V Response :=
  if r.form .code = [] then refuse env .unsupportedGrantType []
  else withClient env basic fun c => do
    match ← attempt (grantByClient env c (r.form .code)) with
    | .error _ => refuse env .invalidGrant []
    | .ok g =>
      if ← expired env g then refuse env .invalidGrant []
      else if ¬ validateURIList env.parse c.redirectURL (accessRedirect o r c)
          o.opts.redirectSeparator then refuse env .invalidRequest []
      else issue env o g []

/-- The scope a refresh asks for. -/
def refreshScope (g : Grant) : Text := if r.form .scope = [] then g.scope else r.form .scope

def accessByRefresh (basic : BasicAuth) : M V Response :=
  if r.form .refreshToken = [] then refuse env .invalidGrant []
  else withClient env basic fun c => do
    match ← attempt (grant env (r.form .refreshToken)) with
    | .error _ => refuse env .invalidGrant []
    | .ok g =>
      if g.clientID ≠ c.id then refuse env .unauthorizedClient []
      else if extraScopes g.scope (refreshScope r g) then refuse env .accessDenied []
      else issue env o g []

def accessByPassword (basic : BasicAuth) : M V Response :=
  if r.form .username = [] ∨ r.form .password = [] then refuse env .invalidGrant []
  else do
    match ← attempt (valid env (r.form .username) (r.form .password)) with
    | .error _ => refuse env .invalidGrant []
    | .ok usr =>
      withClient env basic fun c =>
        issue env o
          { Grant.zero with scope := r.form .scope, userID := usr.email, clientID := c.id } []

def accessByCredentials (basic : BasicAuth) : M V Response :=
  withClient env basic fun c =>
    issue env o { Grant.zero with scope := r.form .scope, clientID := c.id, userID := c.userID } []

def accessByAssertion (basic : BasicAuth) : M V Response :=
  if r.form .assertionType = [] ∨ r.form .assertion = [] then refuse env .invalidGrant []
  else withClient env basic fun c =>
    issue env o
      { Grant.zero with
        scope := r.form .scope
        redirectURL := firstURI c.redirectURL o.opts.redirectSeparator } []

def accessBy (basic : BasicAuth) : M V Response :=
  if o.opts.accessAllowed (r.form .grantType) then
    match GrantType.ofText (r.form .grantType) with
    | some .authorizationCode => accessByCode env o r basic
    | some .refreshToken => accessByRefresh env o r basic
    | some .password => accessByPassword env o r basic
    | some .clientCredentials => accessByCredentials env o r basic
    | some .assertion => accessByAssertion env o r basic
    | none => refuse env .unsupportedGrantType []
  else refuse env .unsupportedGrantType []

def access : M V Response := do
  onContext fun _ => .init
  -- A GET request that is allowed is refused by the next test all the same.
  if r.method = .get ∧ o.opts.allowGetAccess = false then refuse env .invalidRequest []
  else if r.method ≠ .post then refuse env .invalidRequest []
  else match r.basic with
    | none => refuse env .invalidClient []
    | some basic => accessBy env o r basic

end Access

/-! ## The authorize endpoint -/

section Authorize

variable (o : Server) (r : Request)

/-- A store operation whose failure is a server error. -/
def orServerError {α : Type} (m : M V α) (next : α → M V Response) : M V Response := do
  match ← attempt m with
  | .error _ => refuse env .serverError (r.form .state)
  | .ok a => next a

def authorizeCode (c : Client) (usr : User) : M V Response :=
  orServerError env r (generate env) fun code =>
  let g : Grant :=
    { Grant.zero with
      code
      scope := r.form .scope
      state := r.form .state
      clientID := c.id
      userID := usr.email }
  orServerError env r (saveGrant env g) fun g =>
  orServerError env r (saveUser env { usr with grants := usr.grants ++ [g.code] }) fun _ =>
  orServerError env r (saveClient env { c with grants := c.grants ++ [g.code] }) fun _ => do
    onContext fun ctx =>
      (ctx.put .code (.text g.code)).put .state (.text (r.form .state))
    commit env

def authorizeToken (c : Client) (usr : User) (redirectURI : Text) : M V Response :=
  orServerError env r (generate env) fun code => do
    onContext fun ctx => { ctx with redirectInFragment := true }
    let g : Grant :=
      { Grant.zero with
        code
        type := implicitType
        scope := r.form .scope
        state := r.form .state
        redirectURL := redirectURI
        clientID := c.id
        userID := usr.email }
    orServerError env r (finalize env o g) fun _ => do
      onContext fun ctx =>
        if r.form .state ≠ [] then ctx.put .state (.text (r.form .state)) else ctx
      commit env

/-- The user who logs in with a request. -/
def login : M V (Option User) :=
  if r.method = .post then do
    match ← attempt (valid env (r.form .loginUsername) (r.form .loginPassword)) with
    | .error _ => return none
    | .ok u => return some u
  else return none

/-- The redirect URI an authorization is for. -/
def authorizeRedirect (c : Client) (requested : Text) : Text :=
  if requested = [] ∧ firstURI c.redirectURL o.redirectSeparator = c.redirectURL then
    firstURI c.redirectURL o.redirectSeparator
  else requested

def authorizeClient (c : Client) (requested : Text) : M V Response :=
  if c.redirectURL = [] then refuse env .unauthorizedClient (r.form .state)
  else if ¬ validateURIList env.parse c.redirectURL (authorizeRedirect o c requested)
      o.redirectSeparator then refuse env .invalidRequest (r.form .state)
  else do
    onContext (·.setRedirect (authorizeRedirect o c requested))
    match ← login env r with
    | none => return .loginPage
    | some usr =>
      if r.form .responseType = "code".toList then authorizeCode env r c usr
      else if r.form .responseType = "token".toList then
        authorizeToken env o r c usr (authorizeRedirect o c requested)
      else refuse env .unsupportedResponseType (r.form .state)

def authorize : M V Response := do
  onContext fun _ => .init
  match env.queryUnescape (r.form .redirectURL) with
  | none => refuse env .invalidRequest []
  | some requested => do
    match ← attempt (client env (r.form .clientID)) with
    | .error e =>
      let id := if e = .keyNotFound then .unauthorizedClient else .serverError
      refuse env id (r.form .state)
    | .ok c => authorizeClient env o r c requested

end Authorize

end OAuth
