import Vince.Effects
import Vince.OAuthContext

/-!
# Records of the OAuth server in the key/value store

Users, clients, tokens and grants are stored as JSON under keys made of a prefix and an id. What
the program asks of its surroundings (whether a store operation fails, random bytes, the clock) is
read from a tape, one position for each time it asks, so that every pattern of failures is some
tape. The log keeps what was written, for the theorems.
-/

namespace OAuth

open GoText Effects

/-- The zero time is 0. -/
abbrev Time := Int

structure Token where
  code : Text
  clientID : Text
  userID : Text
  expiresIn : Int
  createdAt : Time
  updatedAt : Time
  deletedAt : Time
  deriving DecidableEq

structure Grant where
  code : Text
  type : Text
  userID : Text
  clientID : Text
  accessToken : Text
  authorizeToken : Text
  refreshToken : Text
  scope : Text
  state : Text
  redirectURL : Text
  expiresIn : Int
  createdAt : Time
  updatedAt : Time
  deletedAt : Time
  deriving DecidableEq

/-- `new(oauth2Grant)` -/
def Grant.zero : Grant := ⟨[], [], [], [], [], [], [], [], [], [], 0, 0, 0, 0⟩

structure Client where
  id : Text
  userID : Text
  name : Text
  secret : Text
  grants : List Text
  tokens : List Text
  redirectURL : Text
  createdAt : Time
  updatedAt : Time
  deletedAt : Time
  deriving DecidableEq

structure User where
  email : Text
  grants : List Text
  tokens : List Text
  clients : List Text
  password : Text
  createdAt : Time
  updatedAt : Time
  deletedAt : Time
  deriving DecidableEq

inductive Record where
  | user (u : User)
  | client (c : Client)
  | token (t : Token)
  | grant (g : Grant)
  deriving DecidableEq

inductive Err where
  | keyNotFound
  | json
  | random
  /-- Another error of the store or of `bcrypt`. -/
  | other (n : ℕ)
  deriving DecidableEq

/-- What the server is given. Reading a record of one kind as one of another kind may give
anything. -/
structure Env (V : Type) where
  encode : Record → V
  toUser : V → Option User
  toClient : V → Option Client
  toToken : V → Option Token
  toGrant : V → Option Grant
  toUser_encode : ∀ u, toUser (encode (.user u)) = some u
  toClient_encode : ∀ c, toClient (encode (.client c)) = some c
  toToken_encode : ∀ t, toToken (encode (.token t)) = some t
  toGrant_encode : ∀ g, toGrant (encode (.grant g)) = some g
  fault : ℕ → Option Err
  /-- Random bytes in hexadecimal. -/
  random : ℕ → Option Text
  random_ne : ∀ n t, random n = some t → t ≠ []
  clock : ℕ → Time
  clock_ne : ∀ n, clock n ≠ 0
  /-- The error of `compareHashedString`. -/
  compare : Text → Text → Option Err
  parse : Text → Option URL
  queryUnescape : Text → Option Text

/-- The store, the position on the tape, the log, and the context of the request. -/
structure World (V : Type) where
  store : Text → Option V
  tick : ℕ
  log : List (Text × Record)
  ctx : Context

abbrev M (V : Type) := Comp (World V) Err

variable {V : Type} (env : Env V)

/-! ## Operations -/

def World.tock (w : World V) : World V := { w with tick := w.tick + 1 }

/-- `kvStore.get` -/
def get (key : Text) : M V V := fun w =>
  match env.fault w.tick with
  | some e => .error (.error e) w.tock
  | none => match w.store key with
    | none => .error (.error .keyNotFound) w.tock
    | some v => .ok v w.tock

/-- `kvStore.set` of a record as JSON. -/
def set (key : Text) (r : Record) : M V Unit := fun w =>
  match env.fault w.tick with
  | some e => .error (.error e) w.tock
  | none => .ok ()
      { w.tock with
        store := Function.update w.store key (some (env.encode r)), log := (key, r) :: w.log }

/-- `kvStore.remove` -/
def remove (key : Text) : M V Unit := fun w =>
  match env.fault w.tick with
  | some e => .error (.error e) w.tock
  | none => .ok () { w.tock with store := Function.update w.store key none }

/-- `time.Now` -/
def now : M V Time := fun w => .ok (env.clock w.tick) w.tock

def generate : M V Text := fun w =>
  match env.random w.tick with
  | none => .error (.error .random) w.tock
  | some t => .ok t w.tock

/-- `createClientID` panics where `generate` returns an error. -/
def createClientID : M V Text := fun w =>
  match env.random w.tick with
  | none => .error .panic w.tock
  | some t => .ok t w.tock

/-! ## Keys -/

def clientPrefix : Text := "/client/".toList

def userPrefix : Text := "/user/".toList

def grantPrefix : Text := "/grant/token/".toList

def grantAccessPrefix : Text := "/grant/access_token/".toList

def grantRefreshPrefix : Text := "/grant/refresh_token/".toList

def tokenPrefix : Text := "/token/".toList

theorem not_both_begin {p q k : Text} (apart : ¬ p <+: q ∧ ¬ q <+: p) (first : p <+: k)
    (second : q <+: k) : False := by
  rcases List.prefix_or_prefix_of_prefix first second with inside | inside
  · exact apart.1 inside
  · exact apart.2 inside

/-! ## Looking up -/

/-- What the lookups share: read, decode, and hide what is marked as deleted. -/
def find {α : Type} (decode : V → Option α) (deletedAt : α → Time) (key : Text) : M V α := do
  let b ← get env key
  match decode b with
  | none => fail .json
  | some a => if deletedAt a ≠ 0 then fail .keyNotFound else return a

def client (id : Text) : M V Client :=
  find env env.toClient Client.deletedAt (clientPrefix ++ id)

def grantBy (start : Text) (key : Text) : M V Grant :=
  find env env.toGrant Grant.deletedAt (start ++ key)

def grant (id : Text) : M V Grant := grantBy env grantPrefix id

def grantByAccess (accessToken : Text) : M V Grant := grantBy env grantRefreshPrefix accessToken

def grantByRefresh (refreshToken : Text) : M V Grant := grantBy env grantRefreshPrefix refreshToken

def token (id : Text) : M V Token :=
  find env env.toToken Token.deletedAt (tokenPrefix ++ id)

/-- The user that was found is not the one that is returned. -/
def user (email : Text) : M V (Option User) := do
  let _u ← find env env.toUser User.deletedAt (userPrefix ++ email)
  return none

/-! ## Saving

Each function gives back the record with the fields it has set. -/

def saveUser (u : User) : M V User := do
  let u := { u with updatedAt := ← now env }
  set env (userPrefix ++ u.email) (.user u)
  return u

/-- The id of a client, which is made when it has none. -/
def ensureID (c : Client) : M V Text := if c.id = [] then createClientID env else pure c.id

def saveClient (c : Client) : M V Client := do
  let id ← ensureID env c
  let c := { c with id, updatedAt := ← now env }
  set env (clientPrefix ++ c.id) (.client c)
  return c

def saveToken (t : Token) : M V Token := do
  let t := { t with updatedAt := ← now env }
  set env (clientPrefix ++ t.code) (.token t)
  return t

/-- A grant under one of its tokens, if it has it. -/
def saveIndex (start key : Text) (g : Grant) : M V Unit :=
  if key ≠ [] then set env (start ++ key) (.grant g) else pure ()

def saveGrant (g : Grant) : M V Grant := do
  let g := { g with updatedAt := ← now env }
  saveIndex env grantAccessPrefix g.accessToken g
  saveIndex env grantRefreshPrefix g.refreshToken g
  set env (grantPrefix ++ g.code) (.grant g)
  return g

/-! ## A store that does not fail -/

structure Reliable : Prop where
  fault : ∀ n, env.fault n = none
  random : ∀ n, ∃ t, env.random n = some t

section Reliably

variable {env} (reliable : Reliable env)
include reliable

theorem get_apply (key : Text) (w : World V) :
    get env key w = match w.store key with
      | none => .error (.error .keyNotFound) w.tock
      | some v => .ok v w.tock := by
  rw [get, reliable.fault]

theorem ends_set {key : Text} {r : Record} {w : World V} {Q : Unit → World V → Prop}
    {E : Failure Err → World V → Prop} (holds : Q () { w.tock with
      store := Function.update w.store key (some (env.encode r)), log := (key, r) :: w.log }) :
    Ends (set env key r) w Q E := by
  rwa [Ends, set, reliable.fault]

end Reliably

/-- A value of the store as a lookup sees it. -/
def seen {α : Type} (decode : V → Option α) (deletedAt : α → Time) : Option V → Except Err α
  | none => .error .keyNotFound
  | some v => match decode v with
    | none => .error .json
    | some a => if deletedAt a ≠ 0 then .error .keyNotFound else .ok a

theorem find_apply {env : Env V} (reliable : Reliable env) {α : Type} (decode : V → Option α)
    (deletedAt : α → Time) (key : Text) (w : World V) :
    find env decode deletedAt key w = match seen decode deletedAt (w.store key) with
      | .error e => .error (.error e) w.tock
      | .ok a => .ok a w.tock := by
  rw [find, bind_apply, get_apply reliable]
  cases w.store key with
  | none => rfl
  | some v =>
    simp only [seen]
    cases decode v with
    | none => rfl
    | some a =>
      by_cases deleted : deletedAt a ≠ 0
      · simp only [if_pos deleted]
        rfl
      · simp only [if_neg deleted]
        rfl

/-! ## Plain surroundings -/

/-- Surroundings in which nothing fails and passwords are kept as they are. A token that is read
as a client has the fields they share. -/
def plainEnv : Env Record where
  encode := id
  toUser
    | .user u => some u
    | _ => none
  toClient
    | .client c => some c
    | .token t => some ⟨[], t.userID, [], [], [], [], [], t.createdAt, t.updatedAt, t.deletedAt⟩
    | _ => none
  toToken
    | .token t => some t
    | _ => none
  toGrant
    | .grant g => some g
    | _ => none
  toUser_encode _ := rfl
  toClient_encode _ := rfl
  toToken_encode _ := rfl
  toGrant_encode _ := rfl
  fault _ := none
  random n := some (List.replicate (n + 1) 't')
  random_ne n t made := by
    cases made
    exact nofun
  clock n := n + 1
  clock_ne n := by
    show (n : Int) + 1 ≠ 0
    omega
  compare hashed str := if hashed = str then none else some (.other 0)
  parse t := some ⟨[], [], t, []⟩
  queryUnescape := some

theorem plainEnv_reliable : Reliable plainEnv := ⟨fun _ => rfl, fun _ => ⟨_, rfl⟩⟩

def emptyWorld : World Record := ⟨fun _ => none, 0, [], .init⟩

end OAuth
