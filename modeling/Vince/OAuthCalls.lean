import Vince.OAuthServer

/-!
# The other endpoints, and calls of all of them

The info endpoint finds a client by the code that comes with a request. Accounts are made by the
registration form. A server answers calls of its four endpoints one after another.
-/

namespace OAuth

open GoText Effects

variable {V : Type} (env : Env V)

/-! ## The info endpoint -/

structure InfoRequest where
  /-- `r.Header.Get("Authorization")` -/
  authorization : Text
  /-- `r.Form.Get("code")`; nothing if the form cannot be parsed -/
  code : Option Text

/-- `strings.SplitN(s, " ", 2)` -/
def splitBlank (s : Text) : List Text :=
  if s.contains ' ' then [s.takeWhile (· ≠ ' '), (s.dropWhile (· ≠ ' ')).drop 1] else [s]

example : splitBlank "Bearer a b".toList = ["Bearer".toList, "a b".toList] := by decide

/-- `bearerAuth.init`: the code of a request, if there is one. A header without a blank is looked
into behind the blank if the form has a code. -/
def bearerCode (header code : Text) : Except Unit (Option Text) :=
  if header = [] ∧ code = [] then .ok none
  else if header = [] then .ok (some code)
  else
    let components := splitBlank header
    if (components.length ≠ 2 ∨ components.head? ≠ some "Bearer".toList) ∧ code = [] then .ok none
    else match components[1]? with
      | none => .error ()
      | some c => .ok (some c)

def clientWithCode (code : Text) : M V Client := do
  let t ← token env code
  client env t.clientID

/-- What is sent as the answer to a call. -/
inductive Reply where
  | oauth (resp : Response)
  | email (email : Text)
  /-- the page after a registration -/
  | page
  /-- nothing at all -/
  | empty
  /-- `e500` -/
  | internalError

def refused (id : ErrKey) : M V Reply := do
  return .oauth (← refuse env id [])

def infoOf (code : Text) : M V Reply := do
  match ← attempt (clientWithCode env code) with
  | .error _ => refused env .unauthorizedClient
  | .ok c =>
    match ← attempt (grantByAccess env code) with
    | .error _ => refused env .invalidGrant
    | .ok g =>
      if ¬ c.grants.contains g.code then refused env .invalidGrant
      else if ← expired env g then refused env .invalidGrant
      else
        match ← attempt (user env g.userID) with
        | .error _ => refused env .invalidGrant
        | .ok usr =>
          if g.scope = "email".toList then
            match usr with
            | none => panic
            | some u => return .email u.email
          else refused env .invalidGrant

def info (r : InfoRequest) : M V Reply := do
  onContext fun _ => .init
  match r.code with
  | none => refused env .invalidRequest
  | some code =>
    match bearerCode r.authorization code with
    | .error () => panic
    | .ok none => refused env .invalidRequest
    | .ok (some code) => if code = [] then refused env .invalidRequest else infoOf env code

/-! ## Registration -/

structure Registration where
  email : Text
  password : Text
  confirm : Text

/-- What registration asks of its surroundings besides: `bcrypt`, and whether the page can be
made. -/
structure Forms where
  hash : ℕ → Text → Option Text
  page : ℕ → Bool

variable (forms : Forms)

def hashString (secret : Text) : M V Text := fun w =>
  match forms.hash w.tick secret with
  | none => .error (.error (.other 1)) w.tock
  | some h => .ok h w.tock

def execHTML : M V Reply := fun w =>
  .ok (if forms.page w.tick then .page else .internalError) w.tock

/-- A registration that has been made out completely. -/
def Registration.complete (r : Registration) : Bool :=
  r.password ≠ [] && r.confirm ≠ [] && r.email ≠ [] && r.password = r.confirm

def newUser (email hash : Text) (createdAt : Time) : User :=
  ⟨email, [], [], [], hash, createdAt, 0, 0⟩

/-- Nothing if the form cannot be parsed. -/
def register : Option Registration → M V Reply
  | none => return .empty
  | some r =>
    if r.complete then do
      match ← attempt (hashString forms r.password) with
      | .error _ => return .internalError
      | .ok hash =>
        let createdAt ← now env
        match ← attempt (saveUser env (newUser r.email hash createdAt)) with
        | .error _ => return .internalError
        | .ok _ => execHTML forms
    else return .empty

/-! ## Calls -/

inductive Call where
  | authorize (r : Request)
  | access (r : Request)
  | info (r : InfoRequest)
  | register (r : Option Registration)

variable (o : Server)

def serve : Call → M V Reply
  | .authorize r => return .oauth (← authorize env o r)
  | .access r => return .oauth (← access env o r)
  | .info r => info env r
  | .register r => register env forms r

/-- The data of a reply. -/
def Reply.data : Reply → Data
  | .oauth resp => resp.data
  | _ => fun _ => none

end OAuth
