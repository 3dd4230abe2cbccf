import Vince.GoNumbers
import Vince.KeyedWrites
import Vince.ProxyOptions
import Vince.ServerRules

/-!
# The options of a TLS listener (`sslOptions.load`)

Every `ssl_*` directive has a field of its own. `load` is a switch over the directives whose cases
check their first argument and store it. Two of the cases store into the field of another directive,
and to store a list is to append to the list that is there.
-/

namespace Ssl

open GoText GoNumbers KeyedWrites
open ProxyOptions (Setting literalFlag)
open ServerRules (Rule)

structure SslOptions where
  bufferSize : Setting ℤ := ⟨false, 0⟩
  certificate : Setting Text := ⟨false, []⟩
  certificateKey : Setting Text := ⟨false, []⟩
  clientCertificate : Setting Text := ⟨false, []⟩
  ciphers : Setting (List Text) := ⟨false, []⟩
  crl : Setting Text := ⟨false, []⟩
  dhParam : Setting Text := ⟨false, []⟩
  earlData : Setting Bool := ⟨false, false⟩
  ecdheCUrve : Setting Text := ⟨false, []⟩
  passwordFile : Setting Text := ⟨false, []⟩
  preferServerCiphers : Setting Bool := ⟨false, false⟩
  protocols : Setting (List Text) := ⟨false, []⟩
  sessionCache : Setting Text := ⟨false, []⟩
  sessionTicketKey : Setting Text := ⟨false, []⟩
  sessionTickets : Setting Bool := ⟨false, false⟩
  timeout : Setting ℤ := ⟨false, 0⟩
  stapling : Setting Bool := ⟨false, false⟩
  staplingFile : Setting Text := ⟨false, []⟩
  staplingResponder : Setting Text := ⟨false, []⟩
  staplingVerify : Setting Bool := ⟨false, false⟩
  trustedCertificate : Setting Text := ⟨false, []⟩

inductive Field where
  | bufferSize
  | certificate
  | certificateKey
  | clientCertificate
  | ciphers
  | crl
  | dhParam
  | earlData
  | ecdheCUrve
  | passwordFile
  | preferServerCiphers
  | protocols
  | sessionCache
  | sessionTicketKey
  | sessionTickets
  | timeout
  | stapling
  | staplingFile
  | staplingResponder
  | staplingVerify
  | trustedCertificate
  deriving DecidableEq

namespace Field

def all : List Field := [.bufferSize, .certificate, .certificateKey, .clientCertificate, .ciphers,
  .crl, .dhParam, .earlData, .ecdheCUrve, .passwordFile, .preferServerCiphers, .protocols,
  .sessionCache, .sessionTicketKey, .sessionTickets, .timeout, .stapling, .staplingFile,
  .staplingResponder, .staplingVerify, .trustedCertificate]

/-- The directive that the field is for. -/
def directive : Field → Text
  | .bufferSize => "ssl_buffer_size".toList
  | .certificate => "ssl_certificate".toList
  | .certificateKey => "ssl_certificate_key".toList
  | .clientCertificate => "ssl_client_certificate".toList
  | .ciphers => "ssl_ciphers".toList
  | .crl => "ssl_crl".toList
  | .dhParam => "ssl_dhparam".toList
  | .earlData => "ssl_early_data".toList
  | .ecdheCUrve => "ssl_ecdh_curve".toList
  | .passwordFile => "ssl_password_file".toList
  | .preferServerCiphers => "ssl_prefer_server_ciphers".toList
  | .protocols => "ssl_protocols".toList
  | .sessionCache => "ssl_session_cache".toList
  | .sessionTicketKey => "ssl_session_ticket_key".toList
  | .sessionTickets => "ssl_session_tickets".toList
  | .timeout => "ssl_session_timeout".toList
  | .stapling => "ssl_stapling".toList
  | .staplingFile => "ssl_stapling_file".toList
  | .staplingResponder => "ssl_stapling_responder".toList
  | .staplingVerify => "ssl_stapling_verify".toList
  | .trustedCertificate => "ssl_trusted_certificate".toList

/-- Which directive of the switch a rule is. -/
def named (name : Text) : Option Field := all.find? (·.directive = name)

theorem named_directive : ∀ k ∈ all, named k.directive = some k := by
  decide +kernel

theorem mem_all (k : Field) : k ∈ all := by
  cases k <;> decide

theorem named_eq_some_iff {name : Text} {k : Field} : named name = some k ↔ name = k.directive := by
  constructor
  · intro found
    have holds := List.find?_some found
    exact (of_decide_eq_true holds).symm
  · rintro rfl
    exact named_directive k (mem_all k)

@[reducible] def Val : Field → Type
  | .bufferSize | .timeout => ℤ
  | .ciphers | .protocols => List Text
  | .earlData | .preferServerCiphers | .sessionTickets | .stapling | .staplingVerify => Bool
  | .certificate | .certificateKey | .clientCertificate | .crl | .dhParam | .ecdheCUrve
  | .passwordFile | .sessionCache | .sessionTicketKey | .staplingFile | .staplingResponder
  | .trustedCertificate => Text

end Field

def SslOptions.get (ss : SslOptions) : (k : Field) → Setting k.Val
  | .bufferSize => ss.bufferSize
  | .certificate => ss.certificate
  | .certificateKey => ss.certificateKey
  | .clientCertificate => ss.clientCertificate
  | .ciphers => ss.ciphers
  | .crl => ss.crl
  | .dhParam => ss.dhParam
  | .earlData => ss.earlData
  | .ecdheCUrve => ss.ecdheCUrve
  | .passwordFile => ss.passwordFile
  | .preferServerCiphers => ss.preferServerCiphers
  | .protocols => ss.protocols
  | .sessionCache => ss.sessionCache
  | .sessionTicketKey => ss.sessionTicketKey
  | .sessionTickets => ss.sessionTickets
  | .timeout => ss.timeout
  | .stapling => ss.stapling
  | .staplingFile => ss.staplingFile
  | .staplingResponder => ss.staplingResponder
  | .staplingVerify => ss.staplingVerify
  | .trustedCertificate => ss.trustedCertificate

theorem eq_of_get_eq {ss ss' : SslOptions} (same : ∀ k, ss.get k = ss'.get k) : ss = ss' := by
  cases ss
  cases ss'
  rw [SslOptions.mk.injEq]
  exact ⟨same .bufferSize, same .certificate, same .certificateKey, same .clientCertificate,
    same .ciphers, same .crl, same .dhParam, same .earlData, same .ecdheCUrve, same .passwordFile,
    same .preferServerCiphers, same .protocols, same .sessionCache, same .sessionTicketKey,
    same .sessionTickets, same .timeout, same .stapling, same .staplingFile,
    same .staplingResponder, same .staplingVerify, same .trustedCertificate⟩

/-! ## Loading -/

/-- The calls of `load` that depend on more than their argument, or on a library. -/
structure Env (ε : Type) where
  /-- `bytefmt.ToBytes` -/
  toBytes : Text → Except ε ℕ
  checkFile : Text → Except ε Unit
  /-- the names of the `standardCiphers` of `openSSLCiphers` -/
  standardCiphers : Text → Except ε (List Text)
  /-- `url.Parse` -/
  parseURL : Text → Except ε Unit

inductive LoadError (ε : Type) where
  | call (e : ε)
  | duration (e : DurationError)

variable {ε : Type} (env : Env ε)

/-- A call that may fail, and what is stored when it does not. -/
def afterCall {α : Type} (result : Except ε α) (store : α → SslOptions → SslOptions) :
    Except (LoadError ε) (SslOptions → SslOptions) :=
  match result with
  | .error e => .error (.call e)
  | .ok a => .ok (store a)

/-- The cases with a file that has to be there. -/
def fileCase (arg : Text) (store : Setting Text → SslOptions → SslOptions) :
    Except (LoadError ε) (SslOptions → SslOptions) :=
  afterCall (env.checkFile arg) fun _ => store ⟨true, arg⟩

/-- The cases with `on` and `off`. Another word is ignored. -/
def flagCase (arg : Text) (store : Setting Bool → SslOptions → SslOptions) :
    Except (LoadError ε) (SslOptions → SslOptions) :=
  match literalFlag arg with
  | none => .ok id
  | some b => .ok (store ⟨true, b⟩)

/-- The conversion of a `uint64`. -/
def int64 (v : ℕ) : ℤ := Int.bmod v 18446744073709551616

/-- The switch of `load` for a rule with arguments, as what it does to the options. -/
def switch (arg : Text) (args : List Text) :
    Field → Except (LoadError ε) (SslOptions → SslOptions)
  | .bufferSize => afterCall ((env.toBytes arg).map int64) fun v ss =>
      { ss with bufferSize := ⟨true, v⟩ }
  | .certificate => fileCase env arg fun v ss => { ss with certificate := v }
  | .certificateKey => fileCase env arg fun v ss => { ss with certificateKey := v }
  | .ciphers => afterCall (env.standardCiphers arg) fun p ss =>
      { ss with ciphers := ⟨true, ss.ciphers.value ++ p⟩ }
  | .clientCertificate => fileCase env arg fun v ss => { ss with clientCertificate := v }
  | .crl => fileCase env arg fun v ss => { ss with crl := v }
  | .dhParam => fileCase env arg fun v ss => { ss with dhParam := v }
  | .earlData => flagCase arg fun v ss => { ss with earlData := v }
  | .ecdheCUrve => .ok fun ss => { ss with ecdheCUrve := ⟨true, arg⟩ }
  -- not `passwordFile`
  | .passwordFile => fileCase env arg fun v ss => { ss with dhParam := v }
  | .preferServerCiphers => flagCase arg fun v ss => { ss with preferServerCiphers := v }
  | .protocols => .ok fun ss => { ss with protocols := ⟨true, ss.protocols.value ++ args⟩ }
  -- not `sessionCache`
  | .sessionCache => .ok fun ss => { ss with ecdheCUrve := ⟨true, arg⟩ }
  | .sessionTicketKey => fileCase env arg fun v ss => { ss with sessionTicketKey := v }
  | .sessionTickets => flagCase arg fun v ss => { ss with sessionTickets := v }
  | .timeout =>
    match parseDuration arg with
    | .error e => .error (.duration e)
    | .ok d => .ok fun ss => { ss with timeout := ⟨true, d⟩ }
  | .stapling => flagCase arg fun v ss => { ss with stapling := v }
  | .staplingFile => fileCase env arg fun v ss => { ss with staplingFile := v }
  | .staplingResponder => afterCall (env.parseURL arg) fun _ ss =>
      { ss with staplingResponder := ⟨true, arg⟩ }
  | .staplingVerify => flagCase arg fun v ss => { ss with staplingVerify := v }
  | .trustedCertificate => .ok id

/-- What a rule does to the options. Every case asks for an argument. -/
def effect (r : Rule) : Except (LoadError ε) (SslOptions → SslOptions) :=
  match Field.named r.name, r.args with
  | some d, arg :: args => switch env arg (arg :: args) d
  | _, _ => .ok id

def load (ss : SslOptions) (r : Rule) : Except (LoadError ε) SslOptions :=
  (effect env r).map (· ss)

/-- The options after a call of `load`, which stores nothing when it returns an error. -/
def loaded (ss : SslOptions) (r : Rule) : SslOptions :=
  match load env ss r with
  | .error _ => ss
  | .ok stored => stored

/-- Rules that are loaded one after the other. -/
def loadAll (rules : List Rule) : SslOptions := rules.foldl (loaded env) {}

/-- A loop of `parseListen`, which stops at an error. -/
def loadBlock (ss : SslOptions) : List Rule → SslOptions
  | [] => ss
  | b :: rest =>
    match load env ss b with
    | .error _ => ss
    | .ok stored => loadBlock stored rest

/-- The options of a listener in a server block. -/
def sslOpts (http server : List Rule) : SslOptions :=
  loadBlock env (loadBlock env {} http) server

def reached (rules : List Rule) : List Rule := rules.takeWhile fun r => (effect env r).isOk

theorem loadBlock_eq (ss : SslOptions) (rules : List Rule) :
    loadBlock env ss rules = (reached env rules).foldl (loaded env) ss := by
  induction rules generalizing ss with
  | nil => rfl
  | cons b rest ih =>
    rw [loadBlock, reached, List.takeWhile_cons]
    cases result : effect env b with
    | error e =>
      rw [load, result]
      rfl
    | ok f =>
      have stored : load env ss b = .ok (f ss) := by
        rw [load, result]
        rfl
      rw [stored]
      show loadBlock env (f ss) rest = (reached env rest).foldl (loaded env) (loaded env ss b)
      rw [ih, loaded, stored]

/-- A listener has the options of the rules that its two loops come to. -/
theorem sslOpts_eq (http server : List Rule) :
    sslOpts env http server = loadAll env (reached env http ++ reached env server) := by
  rw [sslOpts, loadBlock_eq, loadBlock_eq, loadAll, List.foldl_append]

/-! ## What a rule stores -/

/-- The value of a field that has been set. -/
def toOption {α : Type} (s : Setting α) : Option α := if s.set then some s.value else none

/-- A field into which at most one value was stored. -/
def filled {α : Type} (fresh : Setting α) (v : Option α) : Setting α :=
  (v.map fun v => ⟨true, v⟩).getD fresh

theorem filled_inj {α : Type} {fresh : Setting α} (unset : toOption fresh = none)
    {v w : Option α} : filled fresh v = filled fresh w ↔ v = w := by
  have toOption_filled (v : Option α) : toOption (filled fresh v) = v := by
    cases v with
    | none => exact unset
    | some v => rfl
  constructor
  · intro same
    rw [← toOption_filled v, same, toOption_filled]
  · intro same
    rw [same]

/-- What a rule stores into a field of its own accord. -/
def write (k : Field) (r : Rule) : Option k.Val := toOption ((loaded env {} r).get k)

/-- What becomes of a field in which a value is stored: lists are appended to. -/
def Field.combine : (k : Field) → Setting k.Val → k.Val → Setting k.Val
  | .ciphers, s, v | .protocols, s, v => ⟨true, s.value ++ v⟩
  | .bufferSize, _, v | .certificate, _, v | .certificateKey, _, v | .clientCertificate, _, v
  | .crl, _, v | .dhParam, _, v | .earlData, _, v | .ecdheCUrve, _, v | .passwordFile, _, v
  | .preferServerCiphers, _, v | .sessionCache, _, v | .sessionTicketKey, _, v
  | .sessionTickets, _, v | .timeout, _, v | .stapling, _, v | .staplingFile, _, v
  | .staplingResponder, _, v | .staplingVerify, _, v | .trustedCertificate, _, v => ⟨true, v⟩

def Field.target : Field → Option Field
  | .passwordFile => some .dhParam
  | .sessionCache => some .ecdheCUrve
  | .trustedCertificate => none
  | k => some k

/-- A change of the options that stores into one field, if at all. -/
def Stores (target : Option Field) (f : SslOptions → SslOptions) : Prop :=
  ∀ k ss, (f ss).get k = if target = some k then
    ((toOption ((f {}).get k)).map (k.combine (ss.get k))).getD (ss.get k) else ss.get k

theorem toOption_fresh (k : Field) : toOption (({} : SslOptions).get k) = none := by
  cases k <;> rfl

theorem stores_id (target : Option Field) : Stores target id := by
  intro k ss
  simp [toOption_fresh]

theorem afterCall_ok {α : Type} {result : Except ε α} {store : α → SslOptions → SslOptions}
    {f : SslOptions → SslOptions} (ran : afterCall result store = .ok f) : ∃ a, f = store a := by
  cases result with
  | error e => cases ran
  | ok a => exact ⟨a, (Except.ok.inj ran).symm⟩

theorem flagCase_ok {arg : Text} {store : Setting Bool → SslOptions → SslOptions}
    {f : SslOptions → SslOptions} (ran : flagCase (ε := ε) arg store = .ok f) :
    f = id ∨ ∃ b, f = store ⟨true, b⟩ := by
  rw [flagCase] at ran
  cases flag : literalFlag arg with
  | none =>
    rw [flag] at ran
    exact .inl (Except.ok.inj ran).symm
  | some b =>
    rw [flag] at ran
    exact .inr ⟨b, (Except.ok.inj ran).symm⟩

variable {env}

theorem stores_switch {arg : Text} {args : List Text} {d : Field} {f : SslOptions → SslOptions}
    (ran : switch env arg args d = .ok f) : Stores d.target f := by
  cases d
  case trustedCertificate =>
    cases ran
    exact stores_id _
  case ecdheCUrve | sessionCache | protocols =>
    cases ran
    intro k ss
    cases k <;> rfl
  case timeout =>
    rw [switch] at ran
    cases parsed : parseDuration arg with
    | error e =>
      rw [parsed] at ran
      cases ran
    | ok d =>
      rw [parsed] at ran
      cases ran
      intro k ss
      cases k <;> rfl
  case earlData | preferServerCiphers | sessionTickets | stapling | staplingVerify =>
    rw [switch] at ran
    obtain rfl | ⟨b, rfl⟩ := flagCase_ok ran
    · exact stores_id _
    · intro k ss
      cases k <;> rfl
  all_goals
    rw [switch] at ran
    obtain ⟨a, rfl⟩ := afterCall_ok ran
    intro k ss
    cases k <;> rfl

def target (r : Rule) : Option Field := (Field.named r.name).bind Field.target

theorem stores_effect {r : Rule} {f : SslOptions → SslOptions} (ran : effect env r = .ok f) :
    Stores (target r) f := by
  rw [effect] at ran
  rw [target]
  split at ran
  · next d arg args named _ =>
    rw [named]
    exact stores_switch ran
  · cases ran
    exact stores_id _

theorem loaded_of_error {r : Rule} {e : LoadError ε} (ran : effect env r = .error e)
    (ss : SslOptions) : loaded env ss r = ss := by
  rw [loaded, load, ran]
  rfl

theorem loaded_of_ok {r : Rule} {f : SslOptions → SslOptions} (ran : effect env r = .ok f)
    (ss : SslOptions) : loaded env ss r = f ss := by
  rw [loaded, load, ran]
  rfl

theorem write_of_error {r : Rule} {e : LoadError ε} (ran : effect env r = .error e) (k : Field) :
    write env k r = none := by
  rw [write, loaded_of_error ran, toOption_fresh]

theorem write_of_target_ne {r : Rule} {k : Field} (other : target r ≠ some k) :
    write env k r = none := by
  cases ran : effect env r with
  | error e => exact write_of_error ran k
  | ok f => rw [write, loaded_of_ok ran, stores_effect ran, if_neg other, toOption_fresh]

/-- Whatever the options are, a rule stores what it stores into fresh ones. -/
theorem get_loaded (k : Field) (ss : SslOptions) (r : Rule) :
    (loaded env ss r).get k =
      ((write env k r).map (k.combine (ss.get k))).getD (ss.get k) := by
  cases ran : effect env r with
  | error e =>
    rw [loaded_of_error ran, write_of_error ran]
    rfl
  | ok f =>
    rw [loaded_of_ok ran, stores_effect ran]
    by_cases own : target r = some k
    · rw [if_pos own, write, loaded_of_ok ran]
    · rw [if_neg own, write_of_target_ne own]
      rfl

/-- The directives that store into a field. -/
theorem writes_cases {k : Field} {r : Rule} (writes : (write env k r).isSome) :
    r.name = k.directive ∨ (k = .dhParam ∧ r.name = Field.passwordFile.directive) ∨
      (k = .ecdheCUrve ∧ r.name = Field.sessionCache.directive) := by
  have stored : target r = some k := by
    by_contra other
    rw [write_of_target_ne other] at writes
    cases writes
  obtain ⟨d, named, into⟩ := Option.bind_eq_some_iff.mp stored
  rw [Field.named_eq_some_iff] at named
  cases d
  case passwordFile =>
    cases into
    exact .inr (.inl ⟨rfl, named⟩)
  case sessionCache =>
    cases into
    exact .inr (.inr ⟨rfl, named⟩)
  case trustedCertificate => cases into
  all_goals
    cases into
    exact .inl named

/-! ## What a sequence of rules stores -/

def named (k : Field) (rules : List Rule) : List Rule := ofKey Rule.name k.directive rules

/-- What the last rule of the field's own directive stores into it. -/
def own (env : Env ε) (k : Field) (rules : List Rule) : Option k.Val :=
  lastOf Rule.name (write env k) k.directive rules

def settled (k : Field) (v : Option k.Val) : Setting k.Val := filled (({} : SslOptions).get k) v

theorem combine_fresh (k : Field) :
    k.combine (({} : SslOptions).get k) = fun v => ⟨true, v⟩ := by
  cases k <;> rfl

theorem get_loadAll (k : Field) (rules : List Rule) :
    (loadAll env rules).get k =
      (rules.filterMap (write env k)).foldl k.combine (({} : SslOptions).get k) :=
  foldl_combine (SslOptions.get · k) (get_loaded k) rules {}

theorem get_loadAll_last (k : Field) (rules : List Rule) :
    (loadAll env (named k rules).getLast?.toList).get k = settled k (own env k rules) := by
  rw [own, lastOf, named, settled, filled]
  cases (ofKey Rule.name k.directive rules).getLast? with
  | none => rfl
  | some r =>
    rw [Option.toList_some, Option.bind_some]
    show (loaded env {} r).get k = _
    rw [get_loaded, combine_fresh]

/-- Every field but the two lists holds the last value that is stored in it. -/
theorem get_loadAll_single {k : Field} (single : k.combine = fun _ v => ⟨true, v⟩)
    (rules : List Rule) :
    (loadAll env rules).get k = settled k (lastWrite (write env k) rules) := by
  rw [get_loadAll, single, foldl_last, settled, filled, lastWrite]

/-- A list holds all that is stored in it. -/
theorem foldl_store (stored : List (List Text)) (s : Setting (List Text)) :
    stored.foldl (fun s v => ⟨true, s.value ++ v⟩) s =
      if stored.isEmpty then s else ⟨true, s.value ++ stored.flatten⟩ := by
  induction stored generalizing s with
  | nil => rfl
  | cons v rest ih =>
    rw [List.foldl_cons, ih]
    cases rest with
    | nil => simp
    | cons w rest => simp

theorem foldl_store_fresh {write : Rule → Option (List Text)} (rules : List Rule) :
    (rules.filterMap write).foldl (fun s v => ⟨true, s.value ++ v⟩) (⟨false, []⟩ : Setting _) =
      filled ⟨false, []⟩ (appended write rules) := by
  rw [foldl_store, filled, appended]
  cases (rules.filterMap write).isEmpty with
  | true => rfl
  | false => rfl

theorem get_loadAll_ciphers (rules : List Rule) :
    (loadAll env rules).get .ciphers =
      settled .ciphers (appended (write env .ciphers) rules) := by
  rw [get_loadAll]
  exact foldl_store_fresh rules

theorem get_loadAll_protocols (rules : List Rule) :
    (loadAll env rules).get .protocols =
      settled .protocols (appended (write env .protocols) rules) := by
  rw [get_loadAll]
  exact foldl_store_fresh rules

/-! ## Options that are independent of each other -/

/-- Every field holds what the last rule of its own directive alone makes of it, and the order of
rules of different directives does not matter. -/
structure Independent (env : Env ε) (rules : List Rule) : Prop where
  determined : ∀ k, (loadAll env rules).get k = (loadAll env (named k rules).getLast?.toList).get k
  rearranged : ∀ rules', Rearranges Rule.name rules' rules → loadAll env rules' = loadAll env rules

/-- Where a directive stores anything, its last rule does; the rules of a list before the last one
have nothing to add; and what a directive stores in the field of another is what is there. -/
structure Consistent (env : Env ε) (rules : List Rule) : Prop where
  last_stores : ∀ k, ∀ r ∈ named k rules, (write env k r).isSome → (own env k rules).isSome
  ciphers : ∀ r ∈ (named .ciphers rules).dropLast,
    write env .ciphers r = none ∨ write env .ciphers r = some []
  protocols : ∀ r ∈ (named .protocols rules).dropLast,
    write env .protocols r = none ∨ write env .protocols r = some []
  dhParam : ∀ file, lastWrite (write env .dhParam) (named .passwordFile rules) = some file →
    own env .dhParam rules = some file
  ecdheCUrve : ∀ arg, lastWrite (write env .ecdheCUrve) (named .sessionCache rules) = some arg →
    own env .ecdheCUrve rules = some arg

variable {rules : List Rule}

theorem independent_iff_forall_field : Independent env rules ↔
    ∀ k rules', Rearranges Rule.name rules' rules →
      (loadAll env rules').get k = settled k (own env k rules) := by
  constructor
  · intro independent k rules' rearranges
    rw [independent.rearranged rules' rearranges, independent.determined k, get_loadAll_last]
  · intro same
    refine ⟨fun k => ?_, fun rules' rearranges => eq_of_get_eq fun k => ?_⟩
    · rw [same k rules (Rearranges.refl rules), get_loadAll_last]
    · rw [same k rules' rearranges, same k rules (Rearranges.refl rules)]

theorem single_iff {k : Field} (single : k.combine = fun _ v => ⟨true, v⟩) :
    (∀ rules', Rearranges Rule.name rules' rules →
      (loadAll env rules').get k = settled k (own env k rules)) ↔
      ∀ name v, lastWrite (write env k) (ofKey Rule.name name rules) = some v →
        own env k rules = some v := by
  simp only [get_loadAll_single single, settled, filled_inj (toOption_fresh k)]
  exact lastWrite_rearranged_iff

/-- The two lists: `field` is one of them, as the rules leave it. -/
theorem appends_iff {k : Field} {field : List Rule → Setting (List Text)}
    {write : Rule → Option (List Text)}
    (appends : ∀ rules, field rules = filled ⟨false, []⟩ (appended write rules))
    (own : ∀ r, (write r).isSome → r.name = k.directive) :
    (∀ rules', Rearranges Rule.name rules' rules →
      field rules' = filled ⟨false, []⟩ (lastOf Rule.name write k.directive rules)) ↔
      (∀ r ∈ (named k rules).dropLast, write r = none ∨ write r = some []) ∧
        ∀ r ∈ named k rules, (write r).isSome →
          (lastOf Rule.name write k.directive rules).isSome := by
  have unset : toOption (⟨false, []⟩ : Setting (List Text)) = none := rfl
  simp only [appends, filled_inj unset]
  exact appended_rearranged_iff own

theorem ciphers_iff : (∀ rules', Rearranges Rule.name rules' rules →
      (loadAll env rules').get .ciphers = settled .ciphers (own env .ciphers rules)) ↔
      (∀ r ∈ (named .ciphers rules).dropLast,
        write env .ciphers r = none ∨ write env .ciphers r = some []) ∧
        ∀ r ∈ named .ciphers rules, (write env .ciphers r).isSome →
          (own env .ciphers rules).isSome :=
  appends_iff get_loadAll_ciphers fun r writes => by simpa using writes_cases writes

theorem protocols_iff : (∀ rules', Rearranges Rule.name rules' rules →
      (loadAll env rules').get .protocols = settled .protocols (own env .protocols rules)) ↔
      (∀ r ∈ (named .protocols rules).dropLast,
        write env .protocols r = none ∨ write env .protocols r = some []) ∧
        ∀ r ∈ named .protocols rules, (write env .protocols r).isSome →
          (own env .protocols rules).isSome :=
  appends_iff get_loadAll_protocols fun r writes => by simpa using writes_cases writes

theorem Consistent.of_independent (independent : Independent env rules) :
    Consistent env rules := by
  rw [independent_iff_forall_field] at independent
  have single {k : Field} (combine : k.combine = fun _ v => ⟨true, v⟩) :=
    (single_iff combine).mp (independent k)
  have ciphers := ciphers_iff.mp (independent .ciphers)
  have protocols := protocols_iff.mp (independent .protocols)
  refine ⟨fun k => ?_, ciphers.1, protocols.1, single rfl _, single rfl _⟩
  by_cases combine : k.combine = fun _ v => ⟨true, v⟩
  · exact lastWrite_ofKey_iff.mp (single combine k.directive)
  · cases k
    case ciphers => exact ciphers.2
    case protocols => exact protocols.2
    all_goals exact absurd rfl combine

theorem Consistent.independent (consistent : Consistent env rules) : Independent env rules := by
  rw [independent_iff_forall_field]
  intro k
  have last (j : Text) (v : k.Val)
      (written : lastWrite (write env k) (ofKey Rule.name j rules) = some v) :
      own env k rules = some v := by
    -- some rule of the directive `j` stores into the field, so `j` is one of three
    obtain ⟨r, member, wrote⟩ := List.mem_filterMap.mp (List.mem_of_getLast? written)
    have name := (mem_ofKey.mp member).2
    rcases writes_cases (Option.isSome_of_eq_some wrote) with same | ⟨rfl, other⟩ | ⟨rfl, other⟩
    · rw [← name, same] at written
      exact lastWrite_ofKey_iff.mpr (consistent.last_stores k) v written
    · rw [← name, other] at written
      exact consistent.dhParam v written
    · rw [← name, other] at written
      exact consistent.ecdheCUrve v written
  by_cases combine : k.combine = fun _ v => ⟨true, v⟩
  · exact (single_iff combine).mpr last
  · cases k
    case ciphers => exact ciphers_iff.mpr ⟨consistent.ciphers, consistent.last_stores .ciphers⟩
    case protocols =>
      exact protocols_iff.mpr ⟨consistent.protocols, consistent.last_stores .protocols⟩
    all_goals exact absurd rfl combine

theorem independent_iff : Independent env rules ↔ Consistent env rules :=
  ⟨Consistent.of_independent, Consistent.independent⟩

/-- Options that are given once are independent of each other, if none of them is stored where
another one belongs. -/
theorem Consistent.of_nodup (once : (rules.map Rule.name).Nodup)
    (noPassword : ∀ r ∈ rules, r.name ≠ Field.passwordFile.directive)
    (noCache : ∀ r ∈ rules, r.name ≠ Field.sessionCache.directive) : Consistent env rules := by
  have short (k : Field) : (named k rules).length ≤ 1 := by
    have count := List.nodup_iff_count_le_one.mp once k.directive
    rw [List.count, List.countP_map, List.countP_eq_length_filter] at count
    simpa [named, ofKey, Function.comp_def, beq_eq_decide] using count
  have alone {k : Field} {r : Rule} : r ∉ (named k rules).dropLast := by
    intro member
    have inside := List.length_pos_of_mem member
    have bound := short k
    rw [List.length_dropLast] at inside
    omega
  have none {k : Field} (absent : ∀ r ∈ rules, r.name ≠ k.directive) : named k rules = [] :=
    List.filter_eq_nil_iff.mpr fun r member named => absent r member (of_decide_eq_true named)
  refine ⟨fun k r member writes => ?_, fun r member => absurd member alone,
    fun r member => absurd member alone, fun file last => ?_, fun arg last => ?_⟩
  · obtain ⟨only, single⟩ := List.length_eq_one_iff.mp
      (le_antisymm (short k) (List.length_pos_of_mem member))
    rw [single] at member
    rw [own, lastOf, ← named, single, ← List.mem_singleton.mp member]
    exact writes
  · rw [none noPassword] at last
    cases last
  · rw [none noCache] at last
    cases last

end Ssl
