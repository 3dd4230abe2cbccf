import Vince.GoText

/-!
# Requests and responses of the OAuth server (`oauth2_server.go`)

The names of form values and response fields are an enumeration. A response is built in a
context, whose `data` is a map from these names, and committed at the end. Headers and
`internalErr`, which nothing reads, are left out.
-/

namespace OAuth

open GoText

/-! ## Names -/

inductive Param where
  | error
  | errDesc
  | errURI
  | state
  | grantType
  | clientID
  | clientSecret
  | accessToken
  | tokenType
  | expiresIn
  | refreshToken
  | scope
  | redirectURL
  | code
  | assertion
  | assertionType
  | responseType
  | loginUsername
  | loginPassword
  | username
  | password
  deriving DecidableEq

def Param.name : Param → String
  | error => "error"
  | errDesc => "error_description"
  | errURI => "error_uri"
  | state => "state"
  | grantType => "grant_type"
  | clientID => "client_id"
  | clientSecret => "client_secret"
  | accessToken => "access_token"
  | tokenType => "token_type"
  | expiresIn => "expires_in"
  | refreshToken => "refresh_token"
  | scope => "scope"
  | redirectURL => "redirect_url"
  | code => "code"
  | assertion => "assertion"
  | assertionType => "assertion_type"
  | responseType => "response_type"
  | loginUsername => "login_username"
  | loginPassword => "login_password"
  | username => "username"
  | password => "password"

def Param.ofName (s : String) : Option Param :=
  [error, errDesc, errURI, state, grantType, clientID, clientSecret, accessToken, tokenType,
    expiresIn, refreshToken, scope, redirectURL, code, assertion, assertionType, responseType,
    loginUsername, loginPassword, username, password].find? (·.name = s)

theorem Param.ofName_name (p : Param) : ofName p.name = some p := by
  cases p <;> decide

/-- Different names are different keys of the maps. -/
theorem Param.name_injective : Function.Injective Param.name := by
  intro p q same
  have found := ofName_name p
  rw [same, ofName_name q] at found
  exact (Option.some.inj found).symm

/-- `oauth2Errkey` -/
inductive ErrKey where
  | invalidRequest
  | unauthorizedClient
  | accessDenied
  | unsupportedResponseType
  | serverError
  | unsupportedGrantType
  | invalidGrant
  | invalidClient
  deriving DecidableEq

def ErrKey.text : ErrKey → String
  | invalidRequest => "invalid_request"
  | unauthorizedClient => "unauthorized_client"
  | accessDenied => "access_denied"
  | unsupportedResponseType => "unsupported_response_type"
  | serverError => "server_error"
  | unsupportedGrantType => "unsupported_grant_type"
  | invalidGrant => "invalid_grant"
  | invalidClient => "invalid_client"

def getOauth2Err : ErrKey → String
  | .invalidRequest => "The request is missing a required parameter, includes an invalid parameter value, includes a parameter more than once, or is otherwise malformed."
  | .unauthorizedClient => "The client is not authorized to request a token using this method."
  | .accessDenied => "The resource owner or authorization server denied the request."
  | .unsupportedResponseType => "The authorization server does not support obtaining a token using this method."
  | .serverError => "The authorization server encountered an unexpected condition that prevented it from fulfilling the request."
  | .unsupportedGrantType => "The authorization grant type is not supported by the authorization server."
  | .invalidGrant => "The provided authorization grant (e.g., authorization code, resource owner credentials) or refresh token is invalid, expired, revoked, does not match the redirection URI used in the authorization request, or was issued to another client."
  | .invalidClient => "Client authentication failed (e.g., unknown client, no client authentication included, or unsupported authentication method)."

inductive GrantType where
  | authorizationCode
  | refreshToken
  | password
  | clientCredentials
  | assertion
  deriving DecidableEq

def GrantType.name : GrantType → Text
  | authorizationCode => "authorization_code".toList
  | refreshToken => "refresh_token".toList
  | password => "password".toList
  | clientCredentials => "client_credentials".toList
  | assertion => "assertion".toList

/-- The `switch` over the grant type of a request. -/
def GrantType.ofText (t : Text) : Option GrantType :=
  [authorizationCode, refreshToken, password, clientCredentials, assertion].find? (·.name = t)

/-- `oauth2GrantTypeImplicit` -/
def implicitType : Text := "__implicit".toList

/-! ## Requests -/

inductive Method where
  | get
  | post
  | other
  deriving DecidableEq

structure Request where
  method : Method
  /-- `r.Form.Get` -/
  form : Param → Text
  /-- `r.BasicAuth()` -/
  basicAuth : Option (Text × Text)

structure BasicAuth where
  userName : Text
  password : Text
  deriving DecidableEq

/-- `basicAuth.init` with query parameters allowed. -/
def Request.basic (r : Request) : Option BasicAuth :=
  if r.form .clientSecret ≠ [] ∧ r.form .clientID ≠ [] then
    some ⟨r.form .clientID, r.form .clientSecret⟩
  else r.basicAuth.map fun auth => ⟨auth.1, auth.2⟩

structure Options where
  redirectSeparator : Text
  authorizationExpire : Int
  accessExpire : Int
  allowGetAccess : Bool
  allowedAccessType : List Text
  tokenType : Text

/-- `oauth2Option.init` -/
def Options.init : Options where
  redirectSeparator := []
  authorizationExpire := 200
  accessExpire := 200
  allowGetAccess := false
  allowedAccessType := [GrantType.authorizationCode.name, GrantType.refreshToken.name,
    GrantType.password.name, GrantType.clientCredentials.name, GrantType.assertion.name]
  tokenType := "Bearer".toList

def Options.accessAllowed (o : Options) (grantType : Text) : Bool :=
  o.allowedAccessType.contains grantType

/-- The fields of `oauth2` besides its store. `oauth2.init` sets the options only. -/
structure Server where
  redirectSeparator : Text
  opts : Options

/-! ## Responses -/

inductive Datum where
  | text (t : Text)
  | int (n : Int)
  | err (id : ErrKey)
  deriving DecidableEq

abbrev Data := Param → Option Datum

def Data.put (data : Data) (p : Param) (d : Datum) : Data := Function.update data p (some d)

inductive ResponseType where
  | data
  | redirect
  deriving DecidableEq

structure Context where
  kind : ResponseType
  statusCode : ℕ
  statusText : Text
  url : Text
  data : Data
  hasError : Bool
  errID : Option ErrKey
  redirectInFragment : Bool

namespace Context

def init : Context where
  kind := .data
  statusCode := 200
  statusText := []
  url := []
  data := fun _ => none
  hasError := false
  errID := none
  redirectInFragment := false

def clearData (ctx : Context) : Context := { ctx with data := fun _ => none }

def setErrURI (ctx : Context) (id : ErrKey) (desc uri state : Text) : Context :=
  let desc := if desc = [] then (getOauth2Err id).toList else desc
  let ctx := { ctx with
    hasError := true
    errID := some id
    statusText := if ctx.statusCode ≠ 200 then desc else ctx.statusText }
  let data : Data := ctx.clearData.data.put .error (.err id)
  let data := data.put .errDesc (.text desc)
  let data := data.put .errURI (.text uri)
  { ctx with data := if state ≠ [] then data.put .state (.text state) else data }

def setErrState (ctx : Context) (id : ErrKey) (uri state : Text) : Context :=
  ctx.setErrURI id [] uri state

def setRedirect (ctx : Context) (uri : Text) : Context :=
  { ctx with kind := .redirect, url := uri }

def put (ctx : Context) (p : Param) (d : Datum) : Context := { ctx with data := ctx.data.put p d }

end Context

structure URL where
  scheme : Text
  host : Text
  path : Text
  fragment : Text
  deriving DecidableEq

inductive Response where
  | json (status : ℕ) (data : Data)
  /-- The data goes into the query or the fragment of the location. -/
  | redirect (url : Text) (data : Data) (inFragment : Bool)
  | loginPage
  /-- The location could not be parsed; nothing is sent. -/
  | commitError

/-- `url.Parse` is a parameter. -/
def Context.commit (parse : Text → Option URL) (ctx : Context) : Response :=
  match ctx.kind with
  | .redirect =>
    if (parse ctx.url).isSome then .redirect ctx.url ctx.data ctx.redirectInFragment
    else .commitError
  | .data => .json ctx.statusCode ctx.data

/-- The data a response carries. -/
def Response.data : Response → Data
  | .json _ data => data
  | .redirect _ data _ => data
  | .loginPage => fun _ => none
  | .commitError => fun _ => none

/-! ## Redirect URIs and scopes -/

/-- The loop of `strings.Split`; the first argument counts what is left of a separator. -/
def splitFrom (sep : Text) : ℕ → Text → Text → List Text
  | _, word, [] => [word.reverse]
  | n + 1, word, _ :: rest => splitFrom sep n word rest
  | 0, word, c :: rest =>
    if sep.isPrefixOf (c :: rest) then word.reverse :: splitFrom sep (sep.length - 1) [] rest
    else splitFrom sep 0 (c :: word) rest

/-- `strings.Split` with a separator that is not empty. -/
def split (s sep : Text) : List Text := splitFrom sep 0 [] s

example : split "a, b,c".toList ", ".toList = ["a".toList, "b,c".toList] := by decide

def validateURI (parse : Text → Option URL) (base redirect : Text) : Bool :=
  if base = [] ∨ redirect = [] then false
  else match parse base, parse redirect with
    | some baseURL, some redirectURL =>
      if baseURL.fragment ≠ [] ∨ redirectURL.fragment ≠ [] then false
      else if baseURL.scheme ≠ redirectURL.scheme then false
      else if baseURL.host ≠ redirectURL.host then false
      else if baseURL.path = redirectURL.path then true
      else
        let required := trimRight '/' baseURL.path ++ ['/']
        if ¬ required.isPrefixOf redirectURL.path then false
        else ((redirectURL.path.drop required.length).splitOn '/').all (· ≠ ['.', '.'])
    | _, _ => false

def validateURIList (parse : Text → Option URL) (baseList redirect sep : Text) : Bool :=
  let list := if sep ≠ [] then split baseList sep else [baseList]
  list.any fun item => validateURI parse item redirect

def firstURI (base sep : Text) : Text :=
  if sep ≠ [] then (split base sep).headD base else base

def extraScopes (access refresh : Text) : Bool :=
  (refresh.splitOn ',').any fun rScope =>
    (access.splitOn ',').any fun aScope => rScope ≠ [] && aScope ≠ [] && aScope = rScope

end OAuth
