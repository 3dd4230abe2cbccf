import Vince.Effects
import Vince.ProxyOptions

/-!
# Access rules and the handler chain (`access_control.go`, `ngx_startup.go`)

A handler is what it does for a request: the list of its visible effects, in order. The chain is
built as in the source, by wrapping middleware around middleware, and is then shown to be a scan
of the rules from left to right. It is built for each request, and building it panics where an
access rule has no argument, or where a proxy cannot load its options from the blocks around it.
From this follow the exact condition under which a matching deny answers, and which of access rules
and proxy answers in a location.

Rules are the addresses of `RuleHeap`. Parsing of addresses of the network is a parameter. A proxy
is known by its options: what it does with a request that is handed on to it is not followed.
-/

namespace AccessControl

open GoText ConfigParse RuleHeap StringTemplate TemplateRendering ProxyOptions
open Effects (bind_eq_ok)

/-- The functions of package `net` that are used, over the type `net.IP`. -/
structure Net (IP : Type) where
  parseIP : Text → Option IP
  equal : IP → IP → Bool
  splitHost : Text → Text

/-- What a request says about the connection: two headers, empty when absent, the remote
address, and whether the local address is a Unix socket. -/
structure Peer where
  forwardedFor : Text
  realIPHeader : Text
  remoteAddr : Text
  localUnix : Bool

/-- A request with the values of its context that the chain reads. -/
structure Request extends Peer where
  accessAllowed : Bool
  logPath : Option Text
  hasLogger : Bool

/-- A request as it arrives. Nothing in the program sets an access log path. -/
def Peer.arriving (peer : Peer) : Request := ⟨peer, false, none, true⟩

variable {Loc IP : Type} {T : TextTemplate Loc}

/-- What is done for a request, of which a proxy that takes it over is one thing. -/
inductive Event (T : TextTemplate Loc) where
  | error (code : Nat)
  | proxied (opts : ProxyOption T)
  | logged (path : Text)

abbrev Handler (T : TextTemplate Loc) := Request → List (Event T)

abbrev Middleware (T : TextTemplate Loc) := Handler T → Handler T

section Chain

variable (net : Net IP) (h : Heap)

/-- `strings.Split(s, ", ")[0]`. -/
def beforeComma : Text → Text
  | [] => []
  | ',' :: ' ' :: _ => []
  | c :: rest => c :: beforeComma rest

def realIPString (r : Peer) : Text :=
  if r.forwardedFor ≠ [] then beforeComma r.forwardedFor
  else if r.realIPHeader ≠ [] then r.realIPHeader
  else net.splitHost r.remoteAddr

def realIP (r : Peer) : Option IP := net.parseIP (realIPString net r)

/-- The `match` function that `init` chooses. -/
def matchAddr (addr : Text) (r : Peer) : Bool :=
  if addr = "all".toList then true
  else if addr = "unix:".toList then r.localUnix
  else match net.parseIP addr with
    | none => false
    | some ip => match realIP net r with
      | none => false
      | some ap => net.equal ip ap

def check (addr : Text) (allow : Bool) (r : Peer) : Bool :=
  if allow then matchAddr net addr r else !matchAddr net addr r

def accessHandle (addr : Text) (allow : Bool) : Middleware T := fun next r =>
  if !r.accessAllowed then
    if !check net addr allow r.toPeer then [.error 403]
    else next { r with accessAllowed := true }
  else next r

def wrap (handler : Handler T) (halt : Bool) : Middleware T := fun next r =>
  handler r ++ if halt then [] else next r

def nextHandler : Middleware T := fun next => next

/-- `proxy.init` -/
def proxyInit : Option ℕ → Except Panic (ProxyOption T)
  | none => .error (.fault .nilDereference)
  | some location => load h (location + 1) {} location

def handle (x : ℕ) : Except Panic (Middleware T) :=
  if h.rules.name x = "proxy_pass".toList then
    (proxyInit h (h.parent x)).map fun p => wrap (fun _ => [.proxied p]) true
  else if h.rules.name x = "allow".toList then
    match h.rules.args x with
    | [] => .error (.fault .indexOutOfRange)
    | addr :: _ => .ok (accessHandle net addr true)
  else if h.rules.name x = "deny".toList then
    match h.rules.args x with
    | [] => .error (.fault .indexOutOfRange)
    | addr :: _ => .ok (accessHandle net addr false)
  else .ok nextHandler

def accessLog : Middleware T := fun next r =>
  match r.logPath with
  | none => next r
  | some path =>
    if path = [] ∨ path = "/dev/null".toList then next r
    else if r.hasLogger then next r ++ [.logged path]
    else []

def chain (rules : List ℕ) : Except Panic (List (Middleware T)) :=
  (rules.mapM (handle net h)).map (accessLog :: ·)

def notFound : Handler T := fun _ => [.error 404]

/-- `then(nil)`. -/
def thenNil (a : List (Middleware T)) : Handler T :=
  a.foldr (fun middleware handler => middleware handler) notFound

/-- What the chain built from the rules does for a request. -/
def serve (rules : List ℕ) (r : Request) : Except Panic (List (Event T)) :=
  (chain net h rules).map (thenNil · r)

/-! ## The chain as a scan of the rules -/

def IsAccess (x : ℕ) : Prop :=
  h.rules.name x = "allow".toList ∨ h.rules.name x = "deny".toList

instance (x : ℕ) : Decidable (IsAccess h x) := inferInstanceAs (Decidable (_ ∨ _))

/-- The address of the rule matches the request. -/
def hits (r : Peer) (x : ℕ) : Bool := matchAddr net ((h.rules.args x).headD []) r

/-- The check of an access rule: an allow is to match, a deny is not. -/
def passes (r : Peer) (x : ℕ) : Bool :=
  check net ((h.rules.args x).headD []) (h.rules.name x = "allow".toList) r

/-- The three decisions on a request. -/
inductive Answer where
  | forbidden
  | proxied (rule : ℕ)
  | notFound
  deriving DecidableEq, Repr

/-- One pass over the rules with a flag that says whether access has been granted. -/
def scan (passed : ℕ → Bool) : Bool → List ℕ → Answer
  | _, [] => .notFound
  | granted, x :: rules =>
    if h.rules.name x = "proxy_pass".toList then .proxied x
    else if IsAccess h x then
      if granted then scan passed true rules
      else if passed x then scan passed true rules
      else .forbidden
    else scan passed granted rules

/-- The options of the proxy of a rule, if they can be loaded. -/
def proxyOf (x : ℕ) : ProxyOption T := (proxyInit h (h.parent x)).toOption.getD {}

def Answer.event : Answer → Event T
  | .forbidden => .error 403
  | .proxied x => .proxied (proxyOf h x)
  | .notFound => .error 404

/-- The scan as a handler. All that it takes from the context of a request is the flag. -/
def walk (rules : List ℕ) : Handler T := fun r =>
  [(scan h (passes net h r.toPeer) r.accessAllowed rules).event h]

/-- The handler of a rule can be made. -/
structure Handles (T : TextTemplate Loc) (x : ℕ) : Prop where
  access : IsAccess h x → h.rules.args x ≠ []
  proxy : h.rules.name x = "proxy_pass".toList →
    ∃ p : ProxyOption T, proxyInit h (h.parent x) = .ok p

end Chain

variable {net : Net IP} {growth : GoSlices.Growth} {h : Heap} {x : ℕ} {rules later : List ℕ}

theorem Handles.proxyInit_eq (handles : Handles h T x)
    (proxy : h.rules.name x = "proxy_pass".toList) :
    proxyInit h (h.parent x) = .ok (proxyOf (T := T) h x) := by
  obtain ⟨p, loaded⟩ := handles.proxy proxy
  rw [proxyOf, loaded]
  rfl

theorem isAccess_not_proxy (access : IsAccess h x) : h.rules.name x ≠ "proxy_pass".toList := by
  rcases access with name | name <;> rw [name] <;> decide

theorem not_allow_of_deny (deny : h.rules.name x = "deny".toList) :
    h.rules.name x ≠ "allow".toList := by
  rw [deny]
  decide

/-- The handler of an access rule takes one step of the scan. -/
theorem accessHandle_walk (access : IsAccess h x) {addr : Text} {others : List Text}
    (args : h.rules.args x = addr :: others) :
    accessHandle net addr (h.rules.name x = "allow".toList) (walk (T := T) net h rules) =
      walk net h (x :: rules) := by
  funext r
  have passed : passes net h r.toPeer x =
      check net addr (h.rules.name x = "allow".toList) r.toPeer := by
    rw [passes, args, List.headD_cons]
  rw [walk, scan, if_neg (isAccess_not_proxy access), if_pos access, accessHandle, ← passed]
  cases granted : r.accessAllowed with
  | true => simp [walk, granted]
  | false =>
    cases passes net h r.toPeer x with
    | true => rfl
    | false => rfl

theorem handle_walk (net : Net IP) (handles : Handles h T x) :
    ∃ middleware, handle net h x = .ok middleware ∧
      ∀ rules, middleware (walk (T := T) net h rules) = walk net h (x :: rules) := by
  by_cases proxy : h.rules.name x = "proxy_pass".toList
  · refine ⟨wrap (fun _ => [.proxied (proxyOf h x)]) true, ?_, fun rules => ?_⟩
    · rw [handle, if_pos proxy, handles.proxyInit_eq proxy]
      rfl
    · funext r
      rw [wrap, if_pos rfl, List.append_nil, walk, scan, if_pos proxy, Answer.event]
  by_cases access : IsAccess h x
  · obtain ⟨addr, others, shape⟩ := List.exists_cons_of_ne_nil (handles.access access)
    refine ⟨_, ?_, fun rules => accessHandle_walk access shape⟩
    rw [handle, if_neg proxy, shape]
    rcases access with allow | deny
    · rw [if_pos allow, decide_eq_true allow]
    · have notAllow := not_allow_of_deny deny
      rw [if_neg notAllow, if_pos deny, decide_eq_false notAllow]
  · refine ⟨nextHandler, ?_, fun rules => ?_⟩
    · rw [handle, if_neg proxy, if_neg fun name => access (.inl name),
        if_neg fun name => access (.inr name)]
    · funext r
      rw [walk, scan, if_neg proxy, if_neg access, nextHandler, walk]

theorem handles_of_handle {middleware : Middleware T} (made : handle net h x = .ok middleware) :
    Handles h T x := by
  rw [handle] at made
  constructor
  · intro access none
    rw [if_neg (isAccess_not_proxy access), none] at made
    rcases access with allow | deny
    · rw [if_pos allow] at made
      cases made
    · rw [if_neg (not_allow_of_deny deny), if_pos deny] at made
      cases made
  · intro proxy
    rw [if_pos proxy] at made
    cases loaded : proxyInit (T := T) h (h.parent x) with
    | error panic =>
      rw [loaded] at made
      cases made
    | ok p => exact ⟨p, rfl⟩

theorem handles_of_chain {middlewares : List (Middleware T)}
    (made : rules.mapM (handle net h) = .ok middlewares) : ∀ x ∈ rules, Handles h T x := by
  induction rules generalizing middlewares with
  | nil => simp
  | cons x rules ih =>
    rw [List.mapM_cons] at made
    obtain ⟨middleware, first, made⟩ := bind_eq_ok made
    obtain ⟨others, rest, -⟩ := bind_eq_ok made
    rw [List.forall_mem_cons]
    exact ⟨handles_of_handle first, ih rest⟩

theorem chain_walk (net : Net IP) (handles : ∀ x ∈ rules, Handles h T x) :
    ∃ middlewares, rules.mapM (handle net h) = .ok middlewares ∧
      thenNil middlewares = walk (T := T) net h rules := by
  induction rules with
  | nil => exact ⟨[], rfl, rfl⟩
  | cons x rules ih =>
    rw [List.forall_mem_cons] at handles
    obtain ⟨middleware, handled, stepped⟩ := handle_walk net handles.1
    obtain ⟨middlewares, handledRest, walked⟩ := ih handles.2
    refine ⟨middleware :: middlewares, ?_, ?_⟩
    · rw [List.mapM_cons, handled, handledRest]
      rfl
    · rw [← stepped, ← walked]
      rfl

/-- The chain built from rules is the scan of them, unless the request is logged. -/
theorem serve_walk (handles : ∀ x ∈ rules, Handles h T x) {r : Request}
    (unlogged : ∀ path ∈ r.logPath, path = [] ∨ path = "/dev/null".toList) :
    serve net h rules r = .ok (walk (T := T) net h rules r) := by
  obtain ⟨middlewares, handled, walked⟩ := chain_walk net handles
  have passedOn : accessLog (walk (T := T) net h rules) r = walk net h rules r := by
    rw [accessLog]
    cases logPath : r.logPath with
    | none => rfl
    | some path => exact if_pos (unlogged path logPath)
  rw [serve, chain, handled, ← passedOn, ← walked]
  rfl

theorem serve_arriving (handles : ∀ x ∈ rules, Handles h T x) (peer : Peer) :
    serve net h rules peer.arriving =
      .ok [(scan h (passes net h peer) false rules).event (T := T) h] :=
  serve_walk handles fun _ none => by cases none

/-- Where a handler cannot be made, there is no chain. -/
theorem serve_panics (net : Net IP) (fails : ¬ ∀ x ∈ rules, Handles h T x) :
    ∃ panic, ∀ r, serve (T := T) net h rules r = .error panic := by
  cases made : rules.mapM (handle (T := T) net h) with
  | error panic =>
    refine ⟨panic, fun r => ?_⟩
    rw [serve, chain, made]
    rfl
  | ok middlewares => exact absurd (handles_of_chain made) fails

/-! ## Which chains can be built -/

/-- An access rule has an argument, and all that stands in the blocks around a `proxy_pass` can be
loaded. -/
structure Buildable (T : TextTemplate Loc) (h : Heap) (x : ℕ) : Prop where
  access : IsAccess h x → h.rules.args x ≠ []
  proxy : h.rules.name x = "proxy_pass".toList → ∃ p ps, h.parent x = some p ∧ Line h p ps ∧
    ∀ d ∈ replayed h (blocks h (p :: ps)), Loads T d

theorem proxyInit_line (good : Good h) {p : ℕ} {ps : List ℕ} (line : Line h p ps) :
    (∃ opts : ProxyOption T, proxyInit h (some p) = .ok opts) ↔
      ∀ d ∈ replayed h (blocks h (p :: ps)), Loads T d := by
  rw [proxyInit, load_eq good line (Nat.lt_succ_of_le (line_length good line))]
  exact LastWrites.foldlM_ok_iff loadKey_ok_iff _ _

theorem handles_iff (reached : Reached growth h) (x : ℕ) : Handles h T x ↔ Buildable T h x := by
  obtain ⟨good, whole⟩ := reached.good
  constructor
  · rintro ⟨access, proxy⟩
    refine ⟨access, fun name => ?_⟩
    have made := proxy name
    cases points : h.parent x with
    | none =>
      rw [points] at made
      obtain ⟨p, none⟩ := made
      cases none
    | some p =>
      have above := (good.down p x (whole x p points)).1
      have inside := parent_inside points
      obtain ⟨ps, line⟩ := exists_line good whole p (by omega)
      rw [points, proxyInit_line good line] at made
      exact ⟨p, ps, rfl, line, made⟩
  · rintro ⟨access, proxy⟩
    refine ⟨access, fun name => ?_⟩
    obtain ⟨p, ps, points, line, loads⟩ := proxy name
    rw [points]
    exact (proxyInit_line good line).mpr loads

theorem handles_all_iff (reached : Reached growth h) :
    (∀ x ∈ rules, Handles h T x) ↔ ∀ x ∈ rules, Buildable T h x :=
  forall₂_congr fun x _ => handles_iff reached x

/-! ## When the answer is 403 -/

/-- The rule answers or lets the request through for good. -/
def Decisive (h : Heap) (x : ℕ) : Prop :=
  IsAccess h x ∨ h.rules.name x = "proxy_pass".toList

instance (h : Heap) (x : ℕ) : Decidable (Decisive h x) := inferInstanceAs (Decidable (_ ∨ _))

def firstDecisive (h : Heap) (rules : List ℕ) : Option ℕ := rules.find? (Decisive h ·)

section Scan

variable {passed : ℕ → Bool} {granted : Bool}

theorem firstDecisive_cons (decisive : Decisive h x) :
    firstDecisive h (x :: rules) = some x :=
  List.find?_cons_of_pos (by simpa using decisive)

theorem firstDecisive_skip (other : ¬ Decisive h x) :
    firstDecisive h (x :: rules) = firstDecisive h rules :=
  List.find?_cons_of_neg (by simpa using other)

/-- The first decisive rule of two lists is one of the former, or the first one of the latter. -/
theorem firstDecisive_append (found : firstDecisive h (rules ++ later) = some x) :
    x ∈ rules ∨ firstDecisive h later = some x := by
  rw [firstDecisive, List.find?_append] at found
  cases among : rules.find? (Decisive h ·) with
  | some y =>
    rw [among] at found
    cases found
    exact .inl (List.mem_of_find?_eq_some among)
  | none =>
    rw [among, Option.none_or] at found
    exact .inr found

theorem scan_access (access : IsAccess h x) : scan h passed granted (x :: rules) =
    if granted then scan h passed true rules
    else if passed x then scan h passed true rules else .forbidden := by
  rw [scan, if_neg (isAccess_not_proxy access), if_pos access]

theorem scan_other (other : ¬ Decisive h x) :
    scan h passed granted (x :: rules) = scan h passed granted rules := by
  rw [scan, if_neg fun proxy => other (.inr proxy), if_neg fun access => other (.inl access)]

/-- A request once let through is not refused by any rule that follows. -/
theorem scan_granted : scan h passed true rules ≠ .forbidden := by
  induction rules with
  | nil => simp [scan]
  | cons x rules ih =>
    by_cases decisive : Decisive h x
    · rcases decisive with access | proxy
      · rwa [scan_access access, if_pos rfl]
      · rw [scan, if_pos proxy]
        simp
    · rwa [scan_other decisive]

/-- The first rule that is an access rule or a proxy decides. -/
theorem scan_forbidden_iff : scan h passed false rules = .forbidden ↔
    ∃ first, firstDecisive h rules = some first ∧ IsAccess h first ∧ passed first = false := by
  induction rules with
  | nil => simp [scan, firstDecisive]
  | cons x rules ih =>
    by_cases decisive : Decisive h x
    · rw [firstDecisive_cons decisive]
      simp only [Option.some.injEq, exists_eq_left']
      rcases decisive with access | proxy
      · rw [scan_access access, if_neg Bool.false_ne_true, and_iff_right access]
        cases passed x with
        | true => simp [scan_granted]
        | false => simp
      · rw [scan, if_pos proxy]
        exact iff_of_false (by simp) fun ⟨access, _⟩ => isAccess_not_proxy access proxy
    · rw [scan_other decisive, firstDecisive_skip decisive]
      exact ih

theorem scan_proxied {first : ℕ} (found : firstDecisive h rules = some first)
    (proxy : h.rules.name first = "proxy_pass".toList) :
    scan h passed granted rules = .proxied first := by
  induction rules with
  | nil => cases found
  | cons x rules ih =>
    by_cases decisive : Decisive h x
    · rw [firstDecisive_cons decisive] at found
      cases found
      rw [scan, if_pos proxy]
    · rw [firstDecisive_skip decisive] at found
      rw [scan_other decisive]
      exact ih found

end Scan

theorem event_eq_forbidden_iff (answer : Answer) :
    [answer.event (T := T) h] = [.error 403] ↔ answer = .forbidden := by
  cases answer with
  | forbidden => simp [Answer.event]
  | proxied x => simp [Answer.event]
  | notFound => simp [Answer.event]

theorem serve_forbidden_iff (handles : ∀ x ∈ rules, Handles h T x) (peer : Peer) :
    serve (T := T) net h rules peer.arriving = .ok [.error 403] ↔
      ∃ first, firstDecisive h rules = some first ∧ IsAccess h first ∧
        passes net h peer first = false := by
  rw [serve_arriving handles, Except.ok.injEq, event_eq_forbidden_iff, scan_forbidden_iff]

theorem passes_allow (allow : h.rules.name x = "allow".toList) (peer : Peer) :
    passes net h peer x = hits net h peer x := by
  rw [passes, check, if_pos (decide_eq_true allow), hits]

theorem passes_deny (deny : h.rules.name x = "deny".toList) (peer : Peer) :
    passes net h peer x = !hits net h peer x := by
  rw [passes, check, decide_eq_false (not_allow_of_deny deny), hits]
  rfl

/-- With a deny that no matching allow stands before: the answer is 403, and no rule after the one
that gives it runs, exactly when the chain can be built, and the first of the access rules and
proxies is an allow or a deny that matches. -/
theorem deny_answers_iff (net : Net IP) (T : TextTemplate Loc) (reached : Reached growth h)
    (before after : List ℕ) (deny : ℕ) (peer : Peer) (isDeny : h.rules.name deny = "deny".toList)
    (noAllow : ∀ x ∈ before, h.rules.name x = "allow".toList → hits net h peer x = false) :
    serve (T := T) net h (before ++ deny :: after) peer.arriving = .ok [.error 403] ↔
      (∀ x ∈ before ++ deny :: after, Buildable T h x) ∧
        ∃ first, firstDecisive h (before ++ deny :: after) = some first ∧
          (h.rules.name first = "allow".toList ∨
            h.rules.name first = "deny".toList ∧ hits net h peer first = true) := by
  rw [← handles_all_iff reached]
  by_cases handles : ∀ x ∈ before ++ deny :: after, Handles h T x
  · rw [serve_forbidden_iff handles, and_iff_right handles]
    refine exists_congr fun first => and_congr_right fun found => ?_
    -- the first decisive rule is before the deny or the deny itself
    have early : h.rules.name first = "allow".toList → hits net h peer first = false := by
      intro allow
      rcases firstDecisive_append found with earlier | here
      · exact noAllow first earlier allow
      · have decisive : Decisive h deny := .inl (.inr isDeny)
        cases (firstDecisive_cons decisive).symm.trans here
        exact absurd allow (not_allow_of_deny isDeny)
    constructor
    · rintro ⟨access, refused⟩
      refine access.imp_right fun denies => ⟨denies, ?_⟩
      rwa [passes_deny denies, Bool.not_eq_false'] at refused
    · rintro (allow | ⟨denies, matched⟩)
      · refine ⟨.inl allow, ?_⟩
        rw [passes_allow allow]
        exact early allow
      · refine ⟨.inr denies, ?_⟩
        rw [passes_deny denies, matched, Bool.not_true]
  · obtain ⟨panic, panics⟩ := serve_panics net handles
    rw [panics]
    exact iff_of_false (by simp) fun both => handles both.1

private def sampleNet : Net Unit := ⟨fun _ => none, fun _ _ => true, id⟩

private def tcpPeer : Peer := ⟨[], [], "127.0.0.1:80".toList, false⟩

private def siteRule (rule : String × String) : ConfigAnalyze.Stmt :=
  ⟨rule.1.toList, [], 0, [rule.2.toList], [], [], none⟩

/-- A location with rules from the address 3 on, after the `listen` of its server. -/
private def siteStmt (rules : List (String × String)) : ConfigAnalyze.Stmt :=
  ⟨"server".toList, [], 0, [], [], [], some [siteRule ("listen", "80"),
    ⟨"location".toList, [], 0, [['/']], [], [], some (rules.map siteRule)⟩]⟩

private def siteHeap (rules : List (String × String)) : Heap :=
  (ruleFromStmt exactly (siteStmt rules) none Heap.empty).2

private theorem siteHeap_reached (rules : List (String × String)) :
    Reached exactly (siteHeap rules) := .build _ .start

private abbrev Fields : TextTemplate Unit := fieldTemplates.toTextTemplate

private theorem siteHeap_buildable {site : List (String × String)}
    {middlewares : List (Middleware Fields)}
    (made : rules.mapM (handle sampleNet (siteHeap site)) = .ok middlewares) :
    ∀ x ∈ rules, Buildable Fields (siteHeap site) x :=
  (handles_all_iff (siteHeap_reached site)).mp (handles_of_chain made)

/-- `allow unix:; deny all; proxy_pass u;` over TCP. -/
theorem deny_answers_sample :
    serve (T := Fields) sampleNet
      (siteHeap [("allow", "unix:"), ("deny", "all"), ("proxy_pass", "u")]) [1, 3, 4, 5]
      tcpPeer.arriving = .ok [.error 403] :=
  (deny_answers_iff sampleNet Fields (siteHeap_reached _) [1, 3] [5] 4 tcpPeer rfl
    (by decide +kernel)).mpr ⟨siteHeap_buildable rfl, 3, by decide +kernel, .inl rfl⟩

/-- `deny unix:; deny all; proxy_pass u;` over TCP: the second deny matches and no allow is
there, but passing the first deny already lets the request through to the proxy. -/
theorem deny_bypassed_by_deny :
    let h := siteHeap [("deny", "unix:"), ("deny", "all"), ("proxy_pass", "u")]
    collected exactly h 2 = [1, 3, 4, 5] ∧ h.rules.name 4 = "deny".toList ∧
      hits sampleNet h tcpPeer 4 = true ∧ ∃ p : ProxyOption Fields,
        serve sampleNet h (collected exactly h 2) tcpPeer.arriving = .ok [.proxied p] :=
  ⟨by decide +kernel, rfl, rfl, _, rfl⟩

/-! ## Access rules of a location -/

/-- If the first decisive rule is an access rule, it is the first access rule. -/
theorem firstDecisive_filter (found : firstDecisive h rules = some x) (access : IsAccess h x) :
    firstDecisive h (rules.filter (IsAccess h ·)) = some x := by
  induction rules with
  | nil => cases found
  | cons other rules ih =>
    by_cases decisive : Decisive h other
    · rw [firstDecisive_cons decisive] at found
      cases found
      rw [List.filter_cons_of_pos (by simpa using access), firstDecisive_cons decisive]
    · rw [firstDecisive_skip decisive] at found
      rw [List.filter_cons_of_neg (by simpa using fun access => decisive (.inl access))]
      exact ih found

theorem firstDecisive_of_mem (mem : x ∈ rules) (decisive : Decisive h x) :
    ∃ first, firstDecisive h rules = some first := by
  cases found : firstDecisive h rules with
  | none => exact absurd (decide_eq_true decisive) (List.find?_eq_none.mp found x mem)
  | some first => exact ⟨first, rfl⟩

/-- The chain follows the order in which the rules were collected, those of the enclosing blocks
first. For a request that the access rules of a location refuse by themselves, and rules of which a
chain can be built: a proxy that stands before all access rules gets it, and it is refused if an
access rule of the location comes first, or an inherited one that refuses it. -/
theorem access_in_chain_order (net : Net IP) (T : TextTemplate Loc) (reached : Reached growth h)
    (l : ℕ) (inside : l < h.nodes.length) (peer : Peer)
    (builds : ∀ x ∈ collected growth h l, Buildable T h x)
    (alone : serve (T := T) net h ((h.children l).filter (IsAccess h ·)) peer.arriving =
      .ok [.error 403]) :
    ∃ first, firstDecisive h (collected growth h l) = some first ∧
      (h.rules.name first = "proxy_pass".toList →
        ∃ p : ProxyOption T, proxyInit h (h.parent first) = .ok p ∧
          serve net h (collected growth h l) peer.arriving = .ok [.proxied p]) ∧
      (IsAccess h first → first ∈ h.children l ∨ passes net h peer first = false →
        serve (T := T) net h (collected growth h l) peer.arriving = .ok [.error 403]) := by
  obtain ⟨good, whole⟩ := reached.good
  obtain ⟨ps, line⟩ := exists_line good whole l inside
  have handles : ∀ x ∈ collected growth h l, Handles h T x := (handles_all_iff reached).mpr builds
  have parts := collected_eq growth good line
  have own : ∀ x ∈ h.children l, x ∈ collected growth h l := by
    intro x child
    rw [parts]
    exact List.mem_append_right _ child
  have ownHandles : ∀ x ∈ (h.children l).filter (IsAccess h ·), Handles h T x :=
    fun x mem => handles x (own x (List.mem_of_mem_filter mem))
  rw [serve_forbidden_iff ownHandles] at alone
  obtain ⟨access, ownFirst, isAccess, refused⟩ := alone
  have mem := own access (List.mem_of_mem_filter (List.mem_of_find?_eq_some ownFirst))
  obtain ⟨first, found⟩ := firstDecisive_of_mem mem (.inl isAccess)
  refine ⟨first, found, fun proxy => ?_, fun access cause => ?_⟩
  · have mine := handles first (List.mem_of_find?_eq_some found)
    refine ⟨_, mine.proxyInit_eq proxy, ?_⟩
    rw [serve_arriving handles, scan_proxied found proxy, Answer.event]
  · rw [serve_forbidden_iff handles]
    refine ⟨first, found, access, ?_⟩
    rcases cause with child | fails
    · rw [parts] at found
      rcases firstDecisive_append found with above | here
      · -- a rule of the location is not one of the inherited rules
        have nodup := nodup_collected good line
        exact (List.disjoint_of_nodup_append nodup above child).elim
      · cases ownFirst.symm.trans (firstDecisive_filter here access)
        exact refused
    · exact fails

/-- `location / { deny all; proxy_pass u; }` -/
theorem access_in_chain_order_sample :
    serve (T := Fields) sampleNet (siteHeap [("deny", "all"), ("proxy_pass", "u")])
      (collected exactly (siteHeap [("deny", "all"), ("proxy_pass", "u")]) 2) tcpPeer.arriving =
        .ok [.error 403] := by
  obtain ⟨first, found, -, refused⟩ := access_in_chain_order sampleNet Fields
    (siteHeap_reached [("deny", "all"), ("proxy_pass", "u")]) 2 (by decide +kernel) tcpPeer
    (siteHeap_buildable rfl) rfl
  have deny : some first = some 3 := found.symm.trans (by decide +kernel)
  cases deny
  exact refused (.inr rfl) (.inl (by decide +kernel))

/-- `location / { proxy_pass u; deny all; }`: the deny alone refuses the request, the location
passes it on. -/
theorem proxy_before_access :
    let h := siteHeap [("proxy_pass", "u"), ("deny", "all")]
    serve (T := Fields) sampleNet h ((h.children 2).filter (IsAccess h ·)) tcpPeer.arriving =
        .ok [.error 403] ∧
      ∃ p : ProxyOption Fields, serve sampleNet h (collected exactly h 2) tcpPeer.arriving =
        .ok [.proxied p] :=
  ⟨rfl, _, rfl⟩

/-! ## The chain as an interpreter of the rules -/

/-- A request that is not logged and comes without a granted access gets exactly one answer, the
one found by scanning the rules from first to last, if the chain can be built; and none, but a
panic, if it cannot. -/
theorem chain_interprets_rules (net : Net IP) (T : TextTemplate Loc) (reached : Reached growth h)
    (rules : List ℕ) (r : Request)
    (unlogged : ∀ path ∈ r.logPath, path = [] ∨ path = "/dev/null".toList) :
    ((∀ x ∈ rules, Buildable T h x) →
      serve net h rules { r with accessAllowed := false } =
          .ok [(scan h (passes net h r.toPeer) false rules).event (T := T) h] ∧
        ∀ x ∈ rules, h.rules.name x = "proxy_pass".toList →
          proxyInit h (h.parent x) = .ok (proxyOf (T := T) h x)) ∧
    ((¬ ∀ x ∈ rules, Buildable T h x) → ∃ panic,
      serve (T := T) net h rules { r with accessAllowed := false } = .error panic) := by
  rw [← handles_all_iff reached]
  constructor
  · intro handles
    exact ⟨serve_walk handles unlogged, fun x mem => (handles x mem).proxyInit_eq⟩
  · intro fails
    obtain ⟨panic, panics⟩ := serve_panics (T := T) net fails
    exact ⟨panic, panics _⟩

/-- `root r; deny unix:; allow unix:; proxy_pass u;` over TCP, with the log at `/dev/null`: the
deny passes, the allow is skipped. -/
theorem chain_interprets_sample :
    ∃ p : ProxyOption Fields, serve sampleNet (siteHeap [("root", "r"), ("deny", "unix:"),
      ("allow", "unix:"), ("proxy_pass", "u")]) [3, 4, 5, 6]
        ⟨tcpPeer, false, some "/dev/null".toList, false⟩ = .ok [.proxied p] :=
  ⟨_, ((chain_interprets_rules sampleNet Fields (siteHeap_reached [("root", "r"),
    ("deny", "unix:"), ("allow", "unix:"), ("proxy_pass", "u")]) [3, 4, 5, 6]
      ⟨tcpPeer, false, some "/dev/null".toList, false⟩ (by decide)).1 (siteHeap_buildable rfl)).1⟩

/-- `deny all; proxy_pass http://b/$time_local;`: the scan refuses the request, and the chain is
not built. -/
theorem untemplated_proxy_panics :
    let h := siteHeap [("deny", "all"), ("proxy_pass", "http://b/$time_local")]
    scan h (passes sampleNet h tcpPeer) false (collected exactly h 2) = .forbidden ∧
      serve (T := Fields) sampleNet h (collected exactly h 2) tcpPeer.arriving =
        .error .template :=
  ⟨by decide +kernel, rfl⟩

/-! ## Where a request comes from -/

/-- With a first entry in `X-Forwarded-For`, the decision of the chain (refused, handed on to a
proxy with these options, not found, or a panic) goes by that entry, whoever is at the other end of
the connection and whatever else the headers say. -/
theorem decided_by_forwarded_for (net : Net IP) (T : TextTemplate Loc) (h : Heap) (rules : List ℕ)
    (peer peer' : Peer) (given : peer.forwardedFor ≠ []) (given' : peer'.forwardedFor ≠ [])
    (entry : beforeComma peer.forwardedFor = beforeComma peer'.forwardedFor)
    (socket : peer.localUnix = peer'.localUnix) :
    serve (T := T) net h rules peer.arriving = serve net h rules peer'.arriving := by
  by_cases handles : ∀ x ∈ rules, Handles h T x
  · have claimed : realIP net peer = realIP net peer' := by
      rw [realIP, realIP, realIPString, realIPString, if_pos given, if_pos given', entry]
    have same : passes net h peer = passes net h peer' := by
      funext x
      rw [passes, passes, check, check, matchAddr, matchAddr, claimed, socket]
    rw [serve_arriving handles, serve_arriving handles, same]
  · obtain ⟨panic, panics⟩ := serve_panics net handles
    rw [panics, panics]

/-- One client with an address of its own and one that claims it. -/
theorem decided_by_forwarded_for_claimed :
    serve (T := Fields) sampleNet (siteHeap [("allow", "10.0.0.1")]) [3]
        (Peer.mk "10.0.0.1".toList [] "10.0.0.1:80".toList false).arriving =
      serve sampleNet (siteHeap [("allow", "10.0.0.1")]) [3]
        (Peer.mk "10.0.0.1, 1.2.3.4".toList [] "6.6.6.6:80".toList false).arriving :=
  decided_by_forwarded_for sampleNet Fields _ _ _ _ (by decide) (by decide) (by decide) rfl

end AccessControl
