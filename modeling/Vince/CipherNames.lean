import Vince.SslOptions

/-!
# The cipher suites of a listener (`cipher`, `standardCiphers`)

The directive `ssl_ciphers` asks `openssl` for names, which are taken apart and put together again
in the way of the TLS registry. Those that are in the table `standardCipherSuits` are kept. Some
names of the table end in a blank, and a key of 256 bits is written as one of 126.
-/

namespace CipherNames

open GoText
open Ssl (SslOptions Env LoadError)
open ServerRules (Rule)

structure Cipher where
  proto : Text
  kx : Text
  auth : Text
  enc : Text
  encSize : ℕ
  encPad : Text
  mac : Text

/-- The method `init`. -/
def Cipher.init : Cipher where
  proto := "TLS".toList
  kx := "RSA".toList
  auth := "RSA".toList
  enc := "AES".toList
  encSize := 128
  encPad := "CBC".toList
  mac := "SHA".toList

/-- The method `String` up to the encryption. -/
def opening (proto kx auth : Text) : Text :=
  if kx = auth then proto ++ '_' :: kx ++ "_WITH_".toList
  else proto ++ '_' :: kx ++ '_' :: auth ++ "_WITH_".toList

/-- The encryption with the size of the key. -/
def sized (enc : Text) (encSize : ℕ) : Text :=
  enc ++
    if enc ≠ "3DES_EDE".toList ∧ enc ≠ "SEED".toList then '_' :: Nat.toDigits 10 encSize else []

/-- The method `String`. -/
def Cipher.string (c : Cipher) : Text :=
  opening c.proto c.kx c.auth ++ (sized c.enc c.encSize ++
    ((if c.enc ≠ "RC4".toList then '_' :: c.encPad else []) ++ '_' :: c.mac))

/-! ## The tables -/

def kxProto : List (Text × Text) :=
  [("AECDH", "ECDH_anon"), ("ADH", "DH_anon"), ("DH", "DH"), ("DHE", "DHE"), ("ECDH", "ECDH"),
    ("ECDHE", "ECDHE"), ("EDH", "EDH"), ("PSK", "PSK"), ("RSA", "RSA"), ("SRP", "SRP")].map
    fun e => (e.1.toList, e.2.toList)

def authProto : List Text := ["DSS", "ECDSA", "PSK", "RSA", "SRP"].map (·.toList)

def digests : List Text := ["MD5", "SHA", "SHA256", "SHA384"].map (·.toList)

def ciphers : List (Text × Text × ℕ) :=
  [("AES", "AES", 128), ("AES128", "AES", 128), ("AES256", "AES", 126),
    ("3DES", "3DES_EDE", 112), ("DES", "3DES_EDE", 112), ("RC4", "RC4", 128),
    ("SEED", "SEED", 128), ("CAMELLIA128", "CAMELLIA128", 128),
    ("CAMELLIA256", "CAMELLIA128", 256), ("IDEA", "IDEA", 128)].map
    fun e => (e.1.toList, e.2.1.toList, e.2.2)

/-- The names with the numbers of `crypto/tls`. -/
def standardCipherSuits : List (Text × ℕ) :=
  [("TLS_RSA_WITH_RC4_128_SHA", 0x0005), ("TLS_RSA_WITH_3DES_EDE_CBC_SHA", 0x000a),
    ("TLS_RSA_WITH_AES_128_CBC_SHA ", 0x002f), ("TLS_RSA_WITH_AES_256_CBC_SHA ", 0x0035),
    ("TLS_RSA_WITH_AES_128_CBC_SHA256", 0x003c), ("TLS_RSA_WITH_AES_128_GCM_SHA256", 0x009c),
    ("TLS_RSA_WITH_AES_256_GCM_SHA384", 0x009d), ("TLS_ECDHE_ECDSA_WITH_RC4_128_SHA", 0xc007),
    ("TLS_ECDHE_ECDSA_WITH_AES_128_CBC_SHA", 0xc009),
    ("TLS_ECDHE_ECDSA_WITH_AES_256_CBC_SHA", 0xc00a), ("TLS_ECDHE_RSA_WITH_RC4_128_SHA ", 0xc011),
    ("TLS_ECDHE_RSA_WITH_3DES_EDE_CBC_SHA", 0xc012),
    ("TLS_ECDHE_RSA_WITH_AES_128_CBC_SHA ", 0xc013),
    ("TLS_ECDHE_RSA_WITH_AES_256_CBC_SHA ", 0xc014),
    ("TLS_ECDHE_ECDSA_WITH_AES_128_CBC_SHA256 ", 0xc023),
    ("TLS_ECDHE_RSA_WITH_AES_128_CBC_SHA256", 0xc027),
    ("TLS_ECDHE_RSA_WITH_AES_128_GCM_SHA256", 0xc02f),
    ("TLS_ECDHE_ECDSA_WITH_AES_128_GCM_SHA256 ", 0xc02b),
    ("TLS_ECDHE_RSA_WITH_AES_256_GCM_SHA384", 0xc030),
    ("TLS_ECDHE_ECDSA_WITH_AES_256_GCM_SHA384 ", 0xc02c),
    ("TLS_ECDHE_RSA_WITH_CHACHA20_POLY1305", 0xcca8),
    ("TLS_ECDHE_ECDSA_WITH_CHACHA20_POLY1305", 0xcca9), ("TLS_AES_128_GCM_SHA256  ", 0x1301),
    ("TLS_AES_256_GCM_SHA384  ", 0x1302), ("TLS_CHACHA20_POLY1305_SHA256 ", 0x1303),
    ("TLS_FALLBACK_SCSV ", 0x5600)].map
    fun e => (e.1.toList, e.2)

/-! ## Parsing -/

/-- The key exchange and the authentication, with the index behind them. The second part of a name
that begins with a key exchange has to be there. -/
def parseExchange (c : Cipher) (parts : List Text) : Option (Cipher × ℕ) :=
  match kxProto.lookup (parts.headD []) with
  | none => some (c, 0)
  | some kx =>
    match parts[1]? with
    | none => none
    | some p =>
      if authProto.contains p then some ({ c with kx := kx, auth := p }, 2)
      else some ({ c with kx := kx, auth := kx }, 1)

def parseEnc (c : Cipher) (part : Text) : Cipher :=
  match ciphers.lookup part with
  | none => c
  | some (enc, size) => { c with enc := enc, encSize := size }

/-- What comes behind the encryption. A padding is cut to three bytes. -/
def parseRest (c : Cipher) : List Text → Option Cipher
  | [] => some c
  | d :: rest =>
    if digests.contains d then some { c with mac := d }
    else if d.length < 3 then none
    else
      let c := { c with encPad := d.take 3 }
      match rest with
      | [] => some c
      | m :: _ => some { c with mac := m }

/-- The method `parse`; nothing if it panics. -/
def parse (spec : Text) : Option Cipher := do
  let parts := spec.splitOn '-'
  let (c, idx) ← parseExchange .init parts
  match parts.drop idx with
  | [] => none
  | enc :: rest => parseRest (parseEnc c enc) rest

/-- The names of what `openssl ciphers` prints, without the blanks around it. -/
def openSSLCiphers (out : Text) : Option (List Cipher) := (out.splitOn ':').mapM parse

def standardCiphers (c : List Cipher) : List Cipher :=
  c.filter fun v => (standardCipherSuits.lookup v.string).isSome

/-- What `load` stores for what was printed. -/
def standardNames (out : Text) : Option (List Text) :=
  (openSSLCiphers out).map fun c => (standardCiphers c).map Cipher.string

/-- The field `CipherSuites` that `config` makes. A name that is not in the table counts as zero. -/
def cipherSuites (ss : SslOptions) : List ℕ :=
  if ss.ciphers.set then ss.ciphers.value.map fun f => (standardCipherSuits.lookup f).getD 0 else []

/-! ## What a name can become -/

def exchanges : List (Text × Text) :=
  ("RSA".toList, "RSA".toList) ::
    kxProto.flatMap fun e => (e.2, e.2) :: authProto.map fun auth => (e.2, auth)

def encryptions : List (Text × ℕ) := ("AES".toList, 128) :: ciphers.map (·.2)

def Plain (t : Text) : Prop := ' ' ∉ t

/-- What is known of a name that has been taken apart. -/
structure Parsed (c : Cipher) : Prop where
  proto : c.proto = "TLS".toList
  exchange : (c.kx, c.auth) ∈ exchanges
  enc : (c.enc, c.encSize) ∈ encryptions
  encPad : Plain c.encPad
  mac : Plain c.mac

theorem parsed_init : Parsed .init := by
  refine ⟨rfl, List.mem_cons_self, List.mem_cons_self, ?_, ?_⟩
  · show ' ' ∉ "CBC".toList
    decide
  · show ' ' ∉ "SHA".toList
    decide

theorem mem_of_lookup {α : Type} {table : List (Text × α)} {key : Text} {value : α}
    (found : table.lookup key = some value) : (key, value) ∈ table := by
  induction table with
  | nil => cases found
  | cons e table ih =>
    rw [List.lookup_cons] at found
    split at found
    next same =>
      cases found
      rw [beq_iff_eq] at same
      rw [same]
      exact List.mem_cons_self
    next => exact List.mem_cons_of_mem _ (ih found)

theorem parseExchange_parsed {parts : List Text} {c : Cipher} {idx : ℕ}
    (ran : parseExchange .init parts = some (c, idx)) : Parsed c := by
  unfold parseExchange at ran
  split at ran
  next =>
    cases ran
    exact parsed_init
  next kx found =>
    have listed (p : Text) (known : p = kx ∨ p ∈ authProto) : (kx, p) ∈ exchanges := by
      refine List.mem_cons_of_mem _ (List.mem_flatMap.mpr ⟨_, mem_of_lookup found, ?_⟩)
      rcases known with rfl | member
      · exact List.mem_cons_self
      · exact List.mem_cons_of_mem _ (List.mem_map.mpr ⟨p, member, rfl⟩)
    split at ran
    next => cases ran
    next p _ =>
      split at ran
      next known =>
        cases ran
        exact { parsed_init with exchange := listed p (.inr (List.contains_iff_mem.mp known)) }
      next =>
        cases ran
        exact { parsed_init with exchange := listed kx (.inl rfl) }

theorem Parsed.parseEnc {c : Cipher} (parsed : Parsed c) (part : Text) :
    Parsed (parseEnc c part) := by
  unfold CipherNames.parseEnc
  split
  next => exact parsed
  next enc size found =>
    refine { parsed with
      enc := List.mem_cons_of_mem _ (List.mem_map.mpr ⟨_, mem_of_lookup found, rfl⟩) }

theorem Parsed.parseRest {c c' : Cipher} (parsed : Parsed c) {rest : List Text}
    (plain : ∀ p ∈ rest, Plain p) (ran : parseRest c rest = some c') : Parsed c' := by
  unfold CipherNames.parseRest at ran
  split at ran
  next =>
    cases ran
    exact parsed
  next d more =>
    have first := plain d List.mem_cons_self
    split at ran
    next =>
      cases ran
      exact { parsed with mac := first }
    next =>
      split at ran
      next => cases ran
      next =>
        have cut : Plain (d.take 3) := fun member => first (List.mem_of_mem_take member)
        split at ran
        next =>
          cases ran
          exact { parsed with encPad := cut }
        next m rest =>
          cases ran
          exact { parsed with
            encPad := cut
            mac := plain m (List.mem_cons_of_mem _ List.mem_cons_self) }

theorem mem_intercalate (sep : Text) {p : Text} {parts : List Text} {x : Char} (member : p ∈ parts)
    (inside : x ∈ p) : x ∈ sep.intercalate parts := by
  induction parts with
  | nil => cases member
  | cons first rest ih =>
    cases rest with
    | nil =>
      rw [List.mem_singleton.mp member] at inside
      simpa [List.intercalate] using inside
    | cons second rest =>
      have split : sep.intercalate (first :: second :: rest) =
          first ++ sep ++ sep.intercalate (second :: rest) := by
        simp [List.intercalate]
      rw [split]
      rcases List.mem_cons.mp member with rfl | member
      · simp [inside]
      · exact List.mem_append_right _ (ih member)

theorem Plain.of_mem_splitOn {t p : Text} (plain : Plain t) (sep : Char)
    (member : p ∈ t.splitOn sep) : Plain p := by
  intro blank
  have inside := mem_intercalate [sep] member blank
  rw [List.intercalate_splitOn] at inside
  exact plain inside

theorem parse_parsed {spec : Text} {c : Cipher} (plain : Plain spec) (ran : parse spec = some c) :
    Parsed c := by
  unfold parse at ran
  obtain ⟨⟨c₁, idx⟩, exchanged, ran⟩ := Option.bind_eq_some_iff.mp ran
  have parsed := parseExchange_parsed exchanged
  cases left : (spec.splitOn '-').drop idx with
  | nil =>
    simp only [left] at ran
    cases ran
  | cons enc rest =>
    simp only [left] at ran
    refine (parsed.parseEnc enc).parseRest (fun p member => ?_) ran
    refine plain.of_mem_splitOn '-' (List.mem_of_mem_drop (i := idx) ?_)
    rw [left]
    exact List.mem_cons_of_mem _ member

/-- The numbers of the suites that a listener can be given. -/
def reachableSuites : List ℕ :=
  [0x0005, 0x000a, 0x003c, 0x009c, 0xc007, 0xc009, 0xc012, 0xc027, 0xc02f]

/-- Of the names in the table that begin as some cipher does, those without a blank are few. -/
theorem stems : ∀ n ∈ standardCipherSuits, ∀ e ∈ exchanges,
    (opening "TLS".toList e.1 e.2).isPrefixOf n.1 → ∀ x ∈ encryptions,
      (sized x.1 x.2).isPrefixOf (n.1.drop (opening "TLS".toList e.1 e.2).length) →
        n.1.contains ' ' ∨ reachableSuites.contains n.2 := by
  decide +kernel

theorem plain_parts : (∀ e ∈ exchanges, ' ' ∉ opening "TLS".toList e.1 e.2) ∧
    ∀ x ∈ encryptions, ' ' ∉ sized x.1 x.2 := by
  decide +kernel

theorem Parsed.plain_string {c : Cipher} (parsed : Parsed c) : Plain c.string := by
  intro blank
  rw [Cipher.string, parsed.proto] at blank
  rcases List.mem_append.mp blank with blank | blank
  · exact plain_parts.1 _ parsed.exchange blank
  rcases List.mem_append.mp blank with blank | blank
  · exact plain_parts.2 _ parsed.enc blank
  rcases List.mem_append.mp blank with blank | blank
  · split at blank
    · rcases List.mem_cons.mp blank with same | blank
      · exact absurd same (by decide)
      · exact parsed.encPad blank
    · cases blank
  · rcases List.mem_cons.mp blank with same | blank
    · exact absurd same (by decide)
    · exact parsed.mac blank

theorem Parsed.suite {c : Cipher} (parsed : Parsed c) {id : ℕ}
    (listed : standardCipherSuits.lookup c.string = some id) : id ∈ reachableSuites := by
  have found := stems _ (mem_of_lookup listed) _ parsed.exchange
  have opens : (opening "TLS".toList c.kx c.auth).isPrefixOf c.string := by
    rw [List.isPrefixOf_iff_prefix, Cipher.string, parsed.proto]
    exact List.prefix_append _ _
  have encrypts : (sized c.enc c.encSize).isPrefixOf
      (c.string.drop (opening "TLS".toList c.kx c.auth).length) := by
    rw [Cipher.string, parsed.proto, List.drop_left, List.isPrefixOf_iff_prefix]
    exact List.prefix_append _ _
  rcases found opens _ parsed.enc encrypts with blank | known
  · exact absurd (List.contains_iff_mem.mp blank) parsed.plain_string
  · exact List.contains_iff_mem.mp known

theorem exists_of_mapM {α β : Type} {f : α → Option β} {l : List α} {results : List β}
    (ran : l.mapM f = some results) {y : β} (member : y ∈ results) : ∃ x ∈ l, f x = some y := by
  induction l generalizing results with
  | nil =>
    cases ran
    cases member
  | cons a l ih =>
    rw [List.mapM_cons] at ran
    obtain ⟨b, first, ran⟩ := Option.bind_eq_some_iff.mp ran
    obtain ⟨rest, others, ran⟩ := Option.bind_eq_some_iff.mp ran
    cases ran
    rcases List.mem_cons.mp member with rfl | member
    · exact ⟨a, List.mem_cons_self, first⟩
    · obtain ⟨x, inside, result⟩ := ih others member
      exact ⟨x, List.mem_cons_of_mem a inside, result⟩

/-- A name that `load` stores stands for one of these suites. -/
def Known (name : Text) : Prop := ∃ id ∈ reachableSuites, standardCipherSuits.lookup name = some id

theorem standardNames_known {out : Text} {names : List Text} (plain : Plain out)
    (ran : standardNames out = some names) {name : Text} (member : name ∈ names) : Known name := by
  obtain ⟨parsed, split, rfl⟩ := Option.map_eq_some_iff.mp ran
  obtain ⟨c, kept, rfl⟩ := List.mem_map.mp member
  obtain ⟨inside, listed⟩ := List.mem_filter.mp kept
  obtain ⟨id, found⟩ := Option.isSome_iff_exists.mp listed
  obtain ⟨spec, given, ran⟩ := exists_of_mapM split inside
  have taken := parse_parsed (plain.of_mem_splitOn ':' given) ran
  exact ⟨id, taken.suite found, found⟩

/-! ## The options of a listener -/

variable {ε : Type} {env : Env ε}

/-- The calls of `openssl` print names without blanks between them. -/
def Printed (env : Env ε) : Prop :=
  ∀ arg names, env.standardCiphers arg = .ok names →
    ∃ out, Plain out ∧ standardNames out = some names

theorem write_ciphers {r : Rule} {names : List Text}
    (writes : Ssl.write env .ciphers r = some names) :
    ∃ arg, env.standardCiphers arg = .ok names := by
  have stored : Ssl.target r = some .ciphers := by
    by_contra other
    rw [Ssl.write_of_target_ne other] at writes
    cases writes
  obtain ⟨d, named, into⟩ := Option.bind_eq_some_iff.mp stored
  obtain rfl : d = .ciphers := by
    cases d <;> first | rfl | cases into
  cases ran : Ssl.effect env r with
  | error e =>
    rw [Ssl.write_of_error ran] at writes
    cases writes
  | ok f =>
    rw [Ssl.write, Ssl.loaded_of_ok ran] at writes
    rw [Ssl.effect, named] at ran
    cases args : r.args with
    | nil =>
      rw [args] at ran
      cases ran
      cases writes
    | cons arg rest =>
      rw [args] at ran
      cases called : env.standardCiphers arg with
      | error e => simp [Ssl.switch, Ssl.afterCall, called] at ran
      | ok p =>
        simp only [Ssl.switch, Ssl.afterCall, called, Except.ok.injEq] at ran
        subst ran
        cases writes
        exact ⟨arg, called⟩

theorem loadAll_known (printed : Printed env) (rules : List Rule) :
    ∀ name ∈ (Ssl.loadAll env rules).ciphers.value, Known name := by
  induction rules using List.reverseRecOn with
  | nil => simp [Ssl.loadAll]
  | append_singleton rules r ih =>
    intro name member
    have after : Ssl.loadAll env (rules ++ [r]) = Ssl.loaded env (Ssl.loadAll env rules) r := by
      rw [Ssl.loadAll, List.foldl_append]
      rfl
    have field : (Ssl.loaded env (Ssl.loadAll env rules) r).ciphers = _ :=
      Ssl.get_loaded .ciphers (Ssl.loadAll env rules) r
    rw [after, field] at member
    cases writes : Ssl.write env .ciphers r with
    | none =>
      rw [writes] at member
      exact ih name member
    | some names =>
      rw [writes] at member
      rcases List.mem_append.mp member with old | new
      · exact ih name old
      · obtain ⟨arg, called⟩ := write_ciphers writes
        obtain ⟨out, plain, ran⟩ := printed arg names called
        exact standardNames_known plain ran new

/-- An `openssl` that prints what it is asked for. -/
def echo : Env Unit where
  toBytes _ := .error ()
  checkFile _ := .error ()
  standardCiphers arg :=
    if ' ' ∈ arg then .error ()
    else
      match standardNames arg with
      | none => .error ()
      | some names => .ok names
  parseURL _ := .error ()

theorem printed_echo : Printed echo := by
  intro arg names called
  refine ⟨arg, ?_⟩
  simp only [echo] at called
  split at called
  · cases called
  next plain =>
    refine ⟨plain, ?_⟩
    split at called
    · cases called
    next ran =>
      cases called
      exact ran

def ciphersRule (arg : String) : Rule := ⟨"ssl_ciphers".toList, [arg.toList], []⟩

/-- Names under which the suites are known to `openssl`. -/
def suiteNames : List (ℕ × String) :=
  [(0x0005, "RC4-SHA"), (0x000a, "DES-CBC3-SHA"), (0x003c, "AES128-SHA256"),
    (0x009c, "AES128-GCM-SHA256"), (0xc007, "ECDHE-ECDSA-RC4-SHA"),
    (0xc009, "ECDHE-ECDSA-AES128-SHA"), (0xc012, "ECDHE-RSA-DES-CBC3-SHA"),
    (0xc027, "ECDHE-RSA-AES128-SHA256"), (0xc02f, "ECDHE-RSA-AES128-GCM-SHA256")]

theorem suiteNames_listen : ∀ e ∈ suiteNames,
    e.1 ∈ cipherSuites (Ssl.sslOpts echo [ciphersRule e.2] []) := by
  decide +kernel

/-- The suites that a listener can be given by any configuration, whatever names `openssl` knows. No
key of 256 bits is among them. -/
theorem listener_suites_iff (id : ℕ) :
    (∃ (ε : Type) (env : Env ε), Printed env ∧
      ∃ http server, id ∈ cipherSuites (Ssl.sslOpts env http server)) ↔ id ∈ reachableSuites := by
  constructor
  · rintro ⟨ε, env, printed, http, server, member⟩
    rw [Ssl.sslOpts_eq, cipherSuites] at member
    split at member
    · obtain ⟨name, stored, rfl⟩ := List.mem_map.mp member
      obtain ⟨id, known, found⟩ := loadAll_known printed _ name stored
      rwa [found]
    · cases member
  · intro member
    obtain ⟨e, listed, rfl⟩ : ∃ e ∈ suiteNames, e.1 = id := List.mem_map.mp member
    exact ⟨Unit, echo, printed_echo, [ciphersRule e.2], [], suiteNames_listen e listed⟩

end CipherNames
