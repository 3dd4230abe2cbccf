import Vince.ServerRules

/-!
# Which server answers a request (`ngx_startup.go`, `ngx_http_core.go`)

Servers are grouped by the addresses they listen on. The handler of a listener looks the Host of
a request up in the name tables of its servers. What the standard library makes of addresses and
regular expressions are parameters. Go goes through a map in any order: a lookup takes the tables
with their entries in the order in which they happen to be visited.
-/

namespace VirtualHost

open GoText ConfigParse ServerRules

/-! ## Listeners -/

/-- `strconv.Atoi` (whether it succeeds), `net.ParseIP` (the address written back),
`net.SplitHostPort` and `url.Parse` (scheme and host). -/
structure NetFuncs where
  isInt : Text → Bool
  parseIP : Text → Option Text
  splitHostPort : Text → Option (Text × Text)
  parseURL : Text → Option (Text × Text)

/-- `httpListenOpts` without the certificates. -/
structure ListenOpts where
  net : Text := []
  addrPort : Text := []
  defaultServer : Bool := false
  ssl : Bool := false
  http2 : Bool := false
  spdy : Bool := false
  proxyProtocol : Bool := false

def ListenOpts.option (ls : ListenOpts) (a : Text) : ListenOpts :=
  if a = "default_server".toList then { ls with defaultServer := true }
  else if a = "ssl".toList then { ls with ssl := true }
  else if a = "http2".toList then { ls with http2 := true }
  else if a = "spdy".toList then { ls with spdy := true }
  else if a = "proxy_protocol".toList then { ls with proxyProtocol := true }
  else ls

/-- Network and address for the first argument of `listen`. -/
def listenAddress (net : NetFuncs) (defaultPort a : Text) : Text × Text :=
  if net.isInt a then ("tcp".toList, "0.0.0.0".toList ++ ':' :: a)
  else match net.parseIP a with
    | some ip => ("tcp".toList, ip ++ ':' :: defaultPort)
    | none => match net.splitHostPort a with
      | some (h, p) => if h = "unix".toList then (h, p) else ("tcp".toList, a)
      | none =>
        if a = "localhost".toList ∨ a = "[::]".toList ∨ a = "[::1]".toList then
          ("tcp".toList, a ++ ':' :: defaultPort)
        else match net.parseURL a with
          | some (scheme, host) => (scheme, host)
          | none => ([], [])

variable {P : Type}

section Listen

variable [RulePtr P]

def parseListen (net : NetFuncs) (r : P) (defaultPort : Text) : ListenOpts :=
  match RulePtr.args r with
  | [] => {}
  | a :: options =>
    let (network, addrPort) := listenAddress net defaultPort a
    options.foldl ListenOpts.option { net := network, addrPort := addrPort }

def findListener (net : NetFuncs) (r : P) (port : Text) : List ListenOpts :=
  ((RulePtr.children r).filter (RulePtr.name · = "listen".toList)).map (parseListen net · port)

end Listen

/-- The maps of `serverCtx.http` that selecting a server goes through. -/
structure ServerCtx (P : Type) where
  defaultServer : List (Text × P)
  address : List (Text × ListenOpts)
  serverRules : List (Text × List P)
  activeListener : ListenOpts

/-- `init` makes the maps but for `defaultServer`, which stays nil. -/
def ServerCtx.init : ServerCtx P := ⟨[], [], [], {}⟩

/-- `with`: `defaultServer` and `address` are not copied. -/
def ServerCtx.with (s : ServerCtx P) (active : ListenOpts) : ServerCtx P :=
  ⟨[], [], s.serverRules, active⟩

/-- One listener of a server, in the loop of `process`. -/
def ServerCtx.addListener (v : P) (s : ServerCtx P) (ls : ListenOpts) : ServerCtx P :=
  { s with
    address := match s.address.lookup ls.addrPort with
      | some _ => s.address
      | none => s.address ++ [(ls.addrPort, ls)]
    serverRules := addExact ls.addrPort v s.serverRules }

/-- The first loop of `process`. -/
def ServerCtx.process [RulePtr P] (net : NetFuncs) (port : Text) (servers : List P)
    (s : ServerCtx P) : ServerCtx P :=
  servers.foldl (fun s v => (findListener net v port).foldl (ServerCtx.addListener v) s) s

/-! ## Names -/

/-- The loop of `matchWildCard` over the labels of the name; the labels of the pattern are those
from `widx` on. -/
def wildLoop : List Text → List Text → Except Fault Bool
  | [], _ => .ok true
  | _ :: _, [] => .error .indexOutOfRange
  | s :: sp, w :: wp =>
    if w = ['*'] then wildLoop sp (w :: wp)
    else if s = w then wildLoop sp wp
    else .ok false

def matchWildCard (s wild : Text) : Except Fault Bool :=
  let wp := wild.splitOn '.'
  let sp := s.splitOn '.'
  if sp.length < wp.length then .ok false else wildLoop sp wp

/-- The loop over `h.wild`: the greatest name that matches. -/
def bestWild (name : Text) (keys : List Text) : Except Fault Text :=
  keys.foldlM (fun best w => do
    if (← matchWildCard name w) && less best w then .ok w else .ok best) []

def find (matchString : Text → Text → Bool) (h : HandlerMatch P) (name : Text) :
    Except Fault (Option P) :=
  match h.exact.lookup name with
  | some [] => .error .indexOutOfRange
  | some (r :: _) => .ok (some r)
  | none => do
    let best ← bestWild name (h.wild.map (·.1))
    if best ≠ [] then .ok (h.wild.lookup best)
    else match h.regExp.find? (fun entry => matchString entry.1 name) with
      | some entry => .ok (some entry.2)
      | none => .ok h.defaultServer

/-- The tables a listener's handler builds. -/
def handlerTables [RulePtr P] (servers : List P) (ctx : ServerCtx P) :
    Except Fault (HandlerMatch P) :=
  HandlerMatch.init servers (ctx.defaultServer.lookup ctx.activeListener.addrPort)

/-- The server `vinceHandler` picks for a request with this Host. -/
def pick (matchString : Text → Text → Bool) (servers : List P) (hm : HandlerMatch P)
    (host : Text) : Except Fault P := do
  let srv ← if servers.length = 1 then .ok servers.head? else find matchString hm host
  match srv.or servers.head? with
  | some srv => .ok srv
  | none => .error .indexOutOfRange

/-! ## Wildcards do not run off their pattern -/

theorem wildLoop_ok {wp : List Text} (star : ['*'] ∈ wp) (sp : List Text) :
    ∃ answer, wildLoop sp wp = .ok answer := by
  induction sp generalizing wp with
  | nil => exact ⟨true, rfl⟩
  | cons s sp ih =>
    cases wp with
    | nil => cases star
    | cons w wp =>
      rw [wildLoop]
      by_cases wild : w = ['*']
      · rw [if_pos wild]
        exact ih star
      · rw [if_neg wild]
        by_cases same : s = w
        · rw [if_pos same]
          exact ih ((List.mem_cons.mp star).resolve_left (Ne.symm wild))
        · exact ⟨false, if_neg same⟩

theorem star_mem_splitOn {w : Text} (wild : isWildCard w = true) : ['*'] ∈ w.splitOn '.' := by
  rw [isWildCard, Bool.and_eq_true, Bool.or_eq_true, List.isPrefixOf_iff_prefix,
    List.isSuffixOf_iff_suffix] at wild
  rcases wild.2 with ⟨rest, rfl⟩ | ⟨front, rfl⟩
  · have split : (['*', '.'] ++ rest).splitOn '.' = ['*'].splitOn '.' ++ rest.splitOn '.' :=
      List.splitOnP_append_cons ['*'] rest rfl
    exact split ▸ List.mem_append_left _ (List.mem_cons_self)
  · have split : (front ++ ['.', '*']).splitOn '.' = front.splitOn '.' ++ ['*'].splitOn '.' :=
      List.splitOnP_append_cons front ['*'] rfl
    exact split ▸ List.mem_append_right _ (List.mem_cons_self)

theorem matchWildCard_ok {w : Text} (wild : isWildCard w = true) (name : Text) :
    ∃ answer, matchWildCard name w = .ok answer := by
  rw [matchWildCard]
  split
  · exact ⟨false, rfl⟩
  · exact wildLoop_ok (star_mem_splitOn wild) _

/-- The greatest of the names that match, from a name found before. -/
theorem bestWild_from {name : Text} (keys : List Text)
    (total : ∀ w ∈ keys, ∃ answer, matchWildCard name w = .ok answer) (found : Text) :
    ∃ best, keys.foldlM (fun best w => do
        if (← matchWildCard name w) && less best w then .ok w else .ok best) found =
          Except.ok (ε := Fault) best ∧
      (best = found ∨ best ∈ keys ∧ matchWildCard name best = .ok true ∧ less found best = true) ∧
      ∀ w ∈ keys, matchWildCard name w = .ok true → less best w = false := by
  induction keys generalizing found with
  | nil => exact ⟨found, rfl, .inl rfl, by simp⟩
  | cons w keys ih =>
    rw [List.forall_mem_cons] at total
    obtain ⟨answer, matched⟩ := total.1
    by_cases better : answer = true ∧ less found w = true
    · obtain ⟨rfl, better⟩ := better
      obtain ⟨best, run, origin, greatest⟩ := ih total.2 w
      refine ⟨best, ?_, ?_, ?_⟩
      · rw [List.foldlM_cons, matched]
        simpa [bind, Except.bind, better] using run
      · rcases origin with rfl | ⟨mem, matches', above⟩
        · exact .inr ⟨List.mem_cons_self, matched, better⟩
        · exact .inr ⟨List.mem_cons_of_mem _ mem, matches', less_trans better above⟩
      · rw [List.forall_mem_cons]
        refine ⟨fun _ => ?_, greatest⟩
        rcases origin with rfl | ⟨-, -, above⟩
        · exact less_irrefl best
        · by_contra below
          have loop := less_trans above (by simpa using below)
          rw [less_irrefl] at loop
          cases loop
    · obtain ⟨best, run, origin, greatest⟩ := ih total.2 found
      refine ⟨best, ?_, ?_, ?_⟩
      · rw [List.foldlM_cons, matched]
        simpa [bind, Except.bind, better] using run
      · exact origin.imp id fun ⟨mem, rest⟩ => ⟨List.mem_cons_of_mem _ mem, rest⟩
      · rw [List.forall_mem_cons]
        refine ⟨fun matches' => ?_, greatest⟩
        rw [matched] at matches'
        cases matches'
        by_contra above
        have beyond : less best w = true := by simpa using above
        rcases origin with rfl | ⟨-, -, after⟩
        · exact better ⟨rfl, beyond⟩
        · exact better ⟨rfl, less_trans after beyond⟩

/-! ## What the tables hold -/

inductive NameKind where
  | regExp
  | wild
  | exact
  deriving DecidableEq

/-- The table a server name goes to. -/
def kind : Text → NameKind
  | '~' :: _ => .regExp
  | a => if isWildCard a then .wild else .exact

/-- The names with their servers, in the order in which `init` reads them. -/
def listed [RulePtr P] (servers : List P) : List (P × Text) :=
  servers.flatMap fun srv => (serverNames srv).map (Prod.mk srv)

def listing (names : List (P × Text)) (a : Text) : List P :=
  (names.filter (·.2 = a)).map (·.1)

def regEntry (entry : P × Text) : Option (Text × P) :=
  if kind entry.2 = .regExp then some (entry.2.tail, entry.1) else none

/-- The tables for the names read so far, their entries in any order. -/
structure Tables (names : List (P × Text)) (h : HandlerMatch P) : Prop where
  nonempty : ∀ entry ∈ names, entry.2 ≠ []
  exact_eq : ∀ a, h.exact.lookup a =
    if kind a = .exact ∧ listing names a ≠ [] then some (listing names a) else none
  wild_iff : ∀ w srv, (w, srv) ∈ h.wild ↔
    kind w = .wild ∧ (listing names w).getLast? = some srv
  wild_nodup : (h.wild.map (·.1)).Nodup
  regExp_perm : h.regExp.Perm (names.filterMap regEntry)
  noDefault : h.defaultServer = none

theorem lookup_cons_of_ne {α : Type} {b key : Text} (other : b ≠ key) (value : α)
    (table : List (Text × α)) : ((key, value) :: table).lookup b = table.lookup b := by
  rw [List.lookup_cons, beq_eq_false_iff_ne.mpr other]

theorem lookup_addExact (a b : Text) (srv : P) (table : List (Text × List P)) :
    (addExact a srv table).lookup b =
      if b = a then some ((table.lookup a).getD [] ++ [srv]) else table.lookup b := by
  induction table with
  | nil =>
    by_cases same : b = a
    · simp [addExact, same]
    · rw [addExact, lookup_cons_of_ne same, if_neg same]
  | cons entry table ih =>
    obtain ⟨key, rules⟩ := entry
    rw [addExact]
    by_cases here : key = a
    · subst here
      by_cases same : b = key
      · simp [same]
      · rw [if_pos rfl, lookup_cons_of_ne same, lookup_cons_of_ne same, if_neg same]
    · rw [if_neg here]
      by_cases same : b = key
      · subst same
        simp [here]
      · rw [lookup_cons_of_ne same, lookup_cons_of_ne same, lookup_cons_of_ne (Ne.symm here), ih]

theorem listing_concat (names : List (P × Text)) (srv : P) (a b : Text) :
    listing (names ++ [(srv, a)]) b =
      if b = a then listing names b ++ [srv] else listing names b := by
  by_cases same : b = a
  · simp [listing, same]
  · have other : ¬ a = b := fun h => same h.symm
    simp [listing, same, other]

/-- What one name does to the tables. -/
theorem addName_cases {srv : P} {h h' : HandlerMatch P} {a : Text}
    (added : h.addName srv a = .ok h') : a ≠ [] ∧
      (kind a = .regExp ∧ h' = { h with regExp := h.regExp ++ [(a.tail, srv)] } ∨
        kind a = .wild ∧ h' = { h with wild := setWild a srv h.wild } ∨
        kind a = .exact ∧ h' = { h with exact := addExact a srv h.exact }) := by
  unfold HandlerMatch.addName at added
  split at added
  · cases added
  · cases added
    exact ⟨List.cons_ne_nil _ _, .inl ⟨rfl, rfl⟩⟩
  next notNil notTilde =>
    refine ⟨notNil, .inr ?_⟩
    have sort : kind a = if isWildCard a then .wild else .exact := by
      rw [kind.eq_def]
      split
      · exact absurd rfl (notTilde _)
      · rfl
    split at added
    next wild =>
      cases added
      exact .inl ⟨by rw [sort, if_pos wild], rfl⟩
    next plain =>
      cases added
      exact .inr ⟨by rw [sort, if_neg plain], rfl⟩

theorem mem_setWild (a : Text) (srv : P) (wild : List (Text × P)) (w : Text) (r : P) :
    (w, r) ∈ setWild a srv wild ↔ w = a ∧ r = srv ∨ w ≠ a ∧ (w, r) ∈ wild := by
  rw [setWild, List.mem_cons, List.mem_filter, Prod.mk.injEq]
  simp only [ne_eq, decide_not, Bool.not_eq_eq_eq_not, Bool.not_true, decide_eq_false_iff_not]
  exact or_congr_right and_comm

section OtherKind

-- a table keeps its entries for names of its kind when a name of another kind is read

variable {names : List (P × Text)} {srv : P} {h : HandlerMatch P} {a : Text}

theorem Tables.exact_kept (tables : Tables names h) (other : kind a ≠ .exact) (b : Text) :
    h.exact.lookup b =
      if kind b = .exact ∧ listing (names ++ [(srv, a)]) b ≠ [] then
        some (listing (names ++ [(srv, a)]) b) else none := by
  rw [tables.exact_eq, listing_concat]
  by_cases same : b = a
  · subst same
    simp [other]
  · simp [same]

theorem Tables.wild_kept (tables : Tables names h) (other : kind a ≠ .wild) (w : Text) (r : P) :
    (w, r) ∈ h.wild ↔
      kind w = .wild ∧ (listing (names ++ [(srv, a)]) w).getLast? = some r := by
  rw [tables.wild_iff, listing_concat]
  by_cases same : w = a
  · subst same
    simp [other]
  · simp [same]

theorem Tables.regExp_kept (tables : Tables names h) (other : kind a ≠ .regExp) :
    h.regExp.Perm ((names ++ [(srv, a)]).filterMap regEntry) := by
  rw [List.filterMap_append]
  simpa [regEntry, other] using tables.regExp_perm

end OtherKind

theorem tables_addName {names : List (P × Text)} {srv : P} {h h' : HandlerMatch P} {a : Text}
    (tables : Tables names h) (added : h.addName srv a = .ok h') :
    Tables (names ++ [(srv, a)]) h' := by
  obtain ⟨notNil, cases⟩ := addName_cases added
  have nonempty : ∀ entry ∈ names ++ [(srv, a)], entry.2 ≠ [] := by
    intro entry mem
    rcases List.mem_append.mp mem with old | new
    · exact tables.nonempty entry old
    · rw [List.mem_singleton.mp new]
      exact notNil
  rcases cases with ⟨sort, rfl⟩ | ⟨sort, rfl⟩ | ⟨sort, rfl⟩
  · refine ⟨nonempty, tables.exact_kept (by simp [sort]), tables.wild_kept (by simp [sort]),
      tables.wild_nodup, ?_, tables.noDefault⟩
    rw [List.filterMap_append]
    refine tables.regExp_perm.append ?_
    simp [regEntry, sort]
  · refine ⟨nonempty, tables.exact_kept (by simp [sort]), fun w r => ?_, ?_,
      tables.regExp_kept (by simp [sort]), tables.noDefault⟩
    · rw [mem_setWild, tables.wild_iff, listing_concat]
      by_cases same : w = a
      · subst same
        simp [sort, eq_comm]
      · simp [same]
    · rw [setWild, List.map_cons]
      refine List.nodup_cons.mpr ⟨?_, tables.wild_nodup.sublist (List.filter_sublist.map _)⟩
      simp
  · refine ⟨nonempty, fun b => ?_, tables.wild_kept (by simp [sort]), tables.wild_nodup,
      tables.regExp_kept (by simp [sort]), tables.noDefault⟩
    rw [lookup_addExact, tables.exact_eq, tables.exact_eq, listing_concat]
    by_cases same : b = a
    · subst same
      by_cases empty : listing names b = [] <;> simp [sort, empty]
    · simp [same]

/-- A loop that adds to what it has read, element by element. -/
theorem foldlM_collects {σ α β : Type} {step : σ → α → Except Fault σ} {gives : α → List β}
    {I : List β → σ → Prop}
    (kept : ∀ read s a s', I read s → step s a = .ok s' → I (read ++ gives a) s')
    {list : List α} {read : List β} {s s' : σ} (start : I read s)
    (run : list.foldlM step s = .ok s') : I (read ++ list.flatMap gives) s' := by
  induction list generalizing read s with
  | nil =>
    cases run
    rwa [List.flatMap_nil, List.append_nil]
  | cons a list ih =>
    rw [List.foldlM_cons] at run
    cases first : step s a with
    | error fault =>
      rw [first] at run
      cases run
    | ok s₁ =>
      rw [first] at run
      have rest := ih (kept _ _ _ _ start first) run
      rwa [List.append_assoc, ← List.flatMap_cons] at rest

theorem tables_init [RulePtr P] {servers : List P} {h : HandlerMatch P}
    (built : HandlerMatch.init servers none = .ok h) : Tables (listed servers) h := by
  have start : Tables (P := P) [] ⟨[], [], [], none⟩ := by
    refine ⟨by simp, ?_, ?_, by simp, .refl _, rfl⟩ <;> simp [listing]
  refine foldlM_collects (fun names h srv h' tables run => ?_) start built
  have kept : ∀ names h a h', Tables names h → HandlerMatch.addName srv h a = .ok h' →
      Tables (names ++ [(srv, a)]) h' := fun _ _ _ _ => tables_addName
  have inner := foldlM_collects kept tables run
  rwa [← List.map_eq_flatMap] at inner

/-- The same tables with their entries in the order in which a lookup visits them. -/
structure Visits (h h' : HandlerMatch P) : Prop where
  exact_eq : h'.exact = h.exact
  wild_perm : h'.wild.Perm h.wild
  regExp_perm : h'.regExp.Perm h.regExp
  default_eq : h'.defaultServer = h.defaultServer

theorem Tables.visits {names : List (P × Text)} {h h' : HandlerMatch P} (tables : Tables names h)
    (visits : Visits h h') : Tables names h' where
  nonempty := tables.nonempty
  exact_eq := visits.exact_eq ▸ tables.exact_eq
  wild_iff w srv := visits.wild_perm.mem_iff.trans (tables.wild_iff w srv)
  wild_nodup := (visits.wild_perm.map _).nodup_iff.mpr tables.wild_nodup
  regExp_perm := visits.regExp_perm.trans tables.regExp_perm
  noDefault := visits.default_eq ▸ tables.noDefault

/-! ## By the names of the servers -/

variable [RulePtr P]

/-- The first server that lists the name as an exact one. -/
def FirstListing (servers : List P) (name : Text) (srv : P) : Prop :=
  kind name = .exact ∧ servers.find? (name ∈ serverNames ·) = some srv

/-- A wildcard of some server matches the name. -/
def WildMatch (servers : List P) (name w : Text) : Prop :=
  kind w = .wild ∧ (∃ srv ∈ servers, w ∈ serverNames srv) ∧ matchWildCard name w = .ok true

/-- The server that the names give for the text of a Host, and the first server where they give
none. `regExps` are the regular expressions in the order in which they are tried. -/
inductive Selects (matchString : Text → Text → Bool) (regExps : List (Text × P))
    (servers : List P) (name : Text) : P → Prop where
  | exact {srv : P} (first : FirstListing servers name srv) :
      Selects matchString regExps servers name srv
  | wild {w : Text} {srv : P} (unlisted : ∀ srv, ¬ FirstListing servers name srv)
      (matched : WildMatch servers name w)
      (greatest : ∀ w', WildMatch servers name w' → less w w' = false)
      (last : servers.reverse.find? (w ∈ serverNames ·) = some srv) :
      Selects matchString regExps servers name srv
  | regExp {entry : Text × P} (unlisted : ∀ srv, ¬ FirstListing servers name srv)
      (unmatched : ∀ w, ¬ WildMatch servers name w)
      (found : regExps.find? (fun entry => matchString entry.1 name) = some entry) :
      Selects matchString regExps servers name entry.2
  | first {srv : P} (unlisted : ∀ srv, ¬ FirstListing servers name srv)
      (unmatched : ∀ w, ¬ WildMatch servers name w)
      (nothing : ∀ entry ∈ regExps, matchString entry.1 name = false)
      (head : servers.head? = some srv) : Selects matchString regExps servers name srv

theorem listing_cons (srv : P) (servers : List P) (a : Text) :
    listing (listed (srv :: servers)) a =
      List.replicate ((serverNames srv).count a) srv ++ listing (listed servers) a := by
  have own : ((serverNames srv).map (Prod.mk srv)).filter (·.2 = a) =
      ((serverNames srv).filter (· = a)).map (Prod.mk srv) := by
    rw [List.filter_map]
    rfl
  rw [listing, listed, List.flatMap_cons, List.filter_append, List.map_append, own, List.map_map]
  congr 1
  rw [List.eq_replicate_iff]
  refine ⟨?_, by simp⟩
  rw [List.length_map, List.count_eq_length_filter]
  congr 1
  refine List.filter_congr fun name _ => ?_
  by_cases same : name = a <;> simp [same]

theorem head_listing (servers : List P) (a : Text) :
    (listing (listed servers) a).head? = servers.find? (a ∈ serverNames ·) := by
  induction servers with
  | nil => rfl
  | cons srv servers ih =>
    rw [listing_cons]
    by_cases mem : a ∈ serverNames srv
    · obtain ⟨n, some⟩ := Nat.exists_eq_succ_of_ne_zero (List.count_pos_iff.mpr mem).ne'
      rw [List.find?_cons_of_pos (by simpa using mem), some, List.replicate_succ]
      rfl
    · rw [List.count_eq_zero.mpr mem, List.find?_cons_of_neg (by simpa using mem), ← ih]
      rfl

theorem getLast_listing (servers : List P) (a : Text) :
    (listing (listed servers) a).getLast? = servers.reverse.find? (a ∈ serverNames ·) := by
  induction servers with
  | nil => rfl
  | cons srv servers ih =>
    rw [listing_cons, List.getLast?_append, ih, List.reverse_cons, List.find?_append]
    congr 1
    by_cases mem : a ∈ serverNames srv
    · obtain ⟨n, some⟩ := Nat.exists_eq_succ_of_ne_zero (List.count_pos_iff.mpr mem).ne'
      rw [List.find?_cons_of_pos (by simpa using mem), some]
      simp [List.getLast?_replicate]
    · rw [List.count_eq_zero.mpr mem, List.find?_cons_of_neg (by simpa using mem)]
      rfl

theorem listing_ne_nil {servers : List P} {a : Text} :
    listing (listed servers) a ≠ [] ↔ ∃ srv ∈ servers, a ∈ serverNames srv := by
  rw [ne_eq, ← List.head?_eq_none_iff, head_listing, List.find?_eq_none]
  simp

theorem lookup_of_mem_nodup {α : Type} {table : List (Text × α)} {key : Text} {value : α}
    (nodup : (table.map (·.1)).Nodup) (mem : (key, value) ∈ table) :
    table.lookup key = some value := by
  induction table with
  | nil => cases mem
  | cons entry table ih =>
    obtain ⟨key', value'⟩ := entry
    rw [List.map_cons, List.nodup_cons] at nodup
    rcases List.mem_cons.mp mem with same | later
    · cases same
      exact List.lookup_cons_self
    · have other : key ≠ key' := by
        rintro rfl
        exact nodup.1 (List.mem_map.mpr ⟨(key, value), later, rfl⟩)
      rw [lookup_cons_of_ne other]
      exact ih nodup.2 later

theorem isWildCard_of_kind {w : Text} (wild : kind w = .wild) : isWildCard w = true := by
  rw [kind.eq_def] at wild
  split at wild
  · cases wild
  · split at wild
    next yes => exact yes
    next => cases wild

section Lookup

variable {servers : List P} {h : HandlerMatch P} {matchString : Text → Text → Bool} {name : Text}
  (tables : Tables (listed servers) h)
include tables

theorem Tables.lookup_exact {srv : P} (first : FirstListing servers name srv) :
    ∃ rest, h.exact.lookup name = some (srv :: rest) := by
  obtain ⟨sort, found⟩ := first
  rw [← head_listing] at found
  obtain ⟨rest, shape⟩ := List.head?_eq_some_iff.mp found
  refine ⟨rest, ?_⟩
  rw [tables.exact_eq, if_pos ⟨sort, by simp [shape]⟩, shape]

theorem Tables.lookup_none (unlisted : ∀ srv, ¬ FirstListing servers name srv) :
    h.exact.lookup name = none := by
  rw [tables.exact_eq, if_neg]
  rintro ⟨sort, some⟩
  obtain ⟨srv, rest, shape⟩ := List.exists_cons_of_ne_nil some
  refine unlisted srv ⟨sort, ?_⟩
  rw [← head_listing, shape]
  rfl

theorem Tables.mem_wild_keys {w : Text} : w ∈ h.wild.map (·.1) ↔
    kind w = .wild ∧ ∃ srv ∈ servers, w ∈ serverNames srv := by
  rw [← listing_ne_nil, List.mem_map]
  constructor
  · rintro ⟨⟨key, srv⟩, mem, rfl⟩
    obtain ⟨sort, last⟩ := (tables.wild_iff key srv).mp mem
    refine ⟨sort, fun empty => ?_⟩
    rw [empty] at last
    cases last
  · rintro ⟨sort, some⟩
    obtain ⟨srv, last⟩ := Option.isSome_iff_exists.mp (List.getLast?_isSome.mpr some)
    exact ⟨(w, srv), (tables.wild_iff w srv).mpr ⟨sort, last⟩, rfl⟩

/-- The loop over the wildcards ends with the greatest that matches. -/
theorem Tables.bestWild (name : Text) : ∃ best,
    VirtualHost.bestWild name (h.wild.map (·.1)) = .ok best ∧
      (best = [] ∧ (∀ w, ¬ WildMatch servers name w) ∨ best ≠ [] ∧ WildMatch servers name best ∧
        ∀ w, WildMatch servers name w → less best w = false) := by
  obtain ⟨best, run, origin, greatest⟩ := bestWild_from (h.wild.map (·.1))
    (fun w mem => matchWildCard_ok (isWildCard_of_kind (tables.mem_wild_keys.mp mem).1) name) []
  have above : ∀ w, WildMatch servers name w → less best w = false := by
    rintro w ⟨sort, lister, matched⟩
    exact greatest w (tables.mem_wild_keys.mpr ⟨sort, lister⟩) matched
  refine ⟨best, run, ?_⟩
  rcases origin with rfl | ⟨mem, matched, positive⟩
  · refine .inl ⟨rfl, fun w wild => ?_⟩
    -- a name that matched would be greater than the empty one
    have below := above w wild
    obtain ⟨-, ⟨srv, mem, lists⟩, -⟩ := wild
    have entry : (srv, w) ∈ listed servers :=
      List.mem_flatMap.mpr ⟨srv, mem, List.mem_map_of_mem lists⟩
    cases w with
    | nil => exact tables.nonempty _ entry rfl
    | cons x w => cases below
  · obtain ⟨sort, lister⟩ := tables.mem_wild_keys.mp mem
    refine .inr ⟨?_, ⟨sort, lister, matched⟩, above⟩
    rintro rfl
    cases positive

theorem Tables.pick_of_selects (several : servers.length ≠ 1) {srv : P}
    (selects : Selects matchString h.regExp servers name srv) :
    pick matchString servers h name = .ok srv := by
  rw [pick, if_neg several]
  cases selects with
  | exact first =>
    obtain ⟨rest, found⟩ := tables.lookup_exact first
    simp [find, found, bind, Except.bind]
  | wild unlisted matched greatest last =>
    obtain ⟨best, run, ⟨-, none⟩ | ⟨some, matched', greatest'⟩⟩ := tables.bestWild name
    · exact absurd matched (none _)
    · have same := eq_of_not_less (greatest' _ matched) (greatest _ matched')
      subst same
      rw [← getLast_listing] at last
      have entry := (tables.wild_iff best srv).mpr ⟨matched.1, last⟩
      have found := lookup_of_mem_nodup tables.wild_nodup entry
      simp [find, tables.lookup_none unlisted, run, some, found, bind, Except.bind]
  | regExp unlisted unmatched found =>
    obtain ⟨best, run, ⟨rfl, -⟩ | ⟨-, matched', -⟩⟩ := tables.bestWild name
    · simp [find, tables.lookup_none unlisted, run, found, bind, Except.bind]
    · exact absurd matched' (unmatched _)
  | first unlisted unmatched nothing head =>
    obtain ⟨best, run, ⟨rfl, -⟩ | ⟨-, matched', -⟩⟩ := tables.bestWild name
    · have none : h.regExp.find? (fun entry => matchString entry.1 name) = none :=
        List.find?_eq_none.mpr fun entry mem => by simp [nothing entry mem]
      simp [find, tables.lookup_none unlisted, run, none, tables.noDefault, head, bind, Except.bind]
    · exact absurd matched' (unmatched _)

theorem Tables.exists_selects (some : servers ≠ []) :
    ∃ srv, Selects matchString h.regExp servers name srv := by
  by_cases listed' : ∃ srv, FirstListing servers name srv
  · obtain ⟨srv, first⟩ := listed'
    exact ⟨srv, .exact first⟩
  have unlisted := not_exists.mp listed'
  obtain ⟨best, -, ⟨-, unmatched⟩ | ⟨-, matched, greatest⟩⟩ := tables.bestWild name
  · cases found : h.regExp.find? (fun entry => matchString entry.1 name) with
    | some entry => exact ⟨entry.2, .regExp unlisted unmatched found⟩
    | none =>
      obtain ⟨srv, rest, rfl⟩ := List.exists_cons_of_ne_nil some
      refine ⟨srv, .first unlisted unmatched (fun entry mem => ?_) rfl⟩
      simpa using List.find?_eq_none.mp found entry mem
  · have lister := matched.2.1
    rw [← listing_ne_nil] at lister
    obtain ⟨srv, last⟩ := Option.isSome_iff_exists.mp (List.getLast?_isSome.mpr lister)
    rw [getLast_listing] at last
    exact ⟨srv, .wild unlisted matched greatest last⟩

theorem Tables.pick_iff (several : 2 ≤ servers.length) {srv : P} :
    pick matchString servers h name = .ok srv ↔ Selects matchString h.regExp servers name srv := by
  have many : servers.length ≠ 1 := by omega
  constructor
  · intro picked
    have some : servers ≠ [] := by
      rintro rfl
      simp at several
    have exists' : ∃ srv, Selects matchString h.regExp servers name srv :=
      tables.exists_selects some
    obtain ⟨srv', selects⟩ := exists'
    have picked' := tables.pick_of_selects many selects
    rw [picked] at picked'
    cases picked'
    exact selects
  · exact tables.pick_of_selects many

end Lookup

/-! ## The selection that is expected -/

/-- The Host of a request, with or without a port. -/
def hostText (h : Text) : Option Text → Text
  | none => h
  | some port => h ++ ':' :: port

/-- The server name, of whatever kind, matches the host. -/
def NameMatches (matchString : Text → Text → Bool) (h a : Text) : Prop :=
  match kind a with
  | .exact => a = h
  | .wild => matchWildCard h a = .ok true
  | .regExp => matchString a.tail h = true

def Unmatched (matchString : Text → Text → Bool) (servers : List P) (h : Text) : Prop :=
  ∀ srv ∈ servers, ∀ a ∈ serverNames srv, ¬ NameMatches matchString h a

/-- Some `listen` of the server for the address has `default_server`. -/
def carriesDefault (net : NetFuncs) (port addr : Text) (srv : P) : Bool :=
  (findListener net srv port).any fun ls => ls.addrPort = addr && ls.defaultServer

/-- The server to answer where no name matches. -/
def designated (net : NetFuncs) (port addr : Text) (servers : List P) : Option P :=
  (servers.find? (carriesDefault net port addr)).or servers.head?

/-- What the pick should be for the host `h`. -/
def Correct (matchString : Text → Text → Bool) (servers : List P) (default : Option P)
    (h : Text) (picked : Except Fault P) : Prop :=
  (∀ srv, FirstListing servers h srv → picked = .ok srv) ∧
    (Unmatched matchString servers h → ∀ srv, default = some srv → picked = .ok srv)

/-- The server for a text that names of no other server match, the first one if none matches. -/
def Answers (matchString : Text → Text → Bool) (servers : List P) (text : Text) (srv : P) : Prop :=
  (∀ srv' ∈ servers, ∀ a ∈ serverNames srv', NameMatches matchString text a → srv' = srv) ∧
    (Unmatched matchString servers text → servers.head? = some srv)

section Expected

variable {servers : List P} {table : HandlerMatch P} {matchString : Text → Text → Bool} {h : Text}

/-- A regular expression in the table is one of the names. -/
theorem Tables.regExp_listed (tables : Tables (listed servers) table) {entry : Text × P} :
    entry ∈ table.regExp ↔ entry.2 ∈ servers ∧
      ∃ a ∈ serverNames entry.2, kind a = .regExp ∧ entry.1 = a.tail := by
  rw [tables.regExp_perm.mem_iff, List.mem_filterMap]
  constructor
  · rintro ⟨⟨srv, a⟩, lists, found⟩
    obtain ⟨srv', mem, pair⟩ := List.mem_flatMap.mp lists
    obtain ⟨a', lists', same⟩ := List.mem_map.mp pair
    cases same
    rw [regEntry] at found
    split at found
    · rename_i sort
      cases found
      exact ⟨mem, a, lists', sort, rfl⟩
    · cases found
  · rintro ⟨mem, a, lists, sort, tail⟩
    refine ⟨(entry.2, a), List.mem_flatMap.mpr ⟨_, mem, List.mem_map_of_mem lists⟩, ?_⟩
    rw [regEntry, if_pos sort, ← tail]

/-- What the pick goes by is a name that matches, unless none does. -/
theorem Tables.selects_cases (tables : Tables (listed servers) table) {srv : P}
    (selects : Selects matchString table.regExp servers h srv) :
    (srv ∈ servers ∧ ∃ a ∈ serverNames srv, NameMatches matchString h a) ∨
      Unmatched matchString servers h ∧ servers.head? = some srv := by
  cases selects with
  | exact first =>
    have lists : h ∈ serverNames srv := by simpa using List.find?_some first.2
    exact .inl ⟨List.mem_of_find?_eq_some first.2, h, lists, by simp [NameMatches, first.1]⟩
  | @wild w _ _ matched _ last =>
    have lists : w ∈ serverNames srv := by simpa using List.find?_some last
    refine .inl ⟨List.mem_reverse.mp (List.mem_of_find?_eq_some last), w, lists, ?_⟩
    simp [NameMatches, matched.1, matched.2.2]
  | @regExp entry _ _ found =>
    obtain ⟨mem, a, lists, sort, tail⟩ :=
      tables.regExp_listed.mp (List.mem_of_find?_eq_some found)
    have matched : matchString entry.1 h = true :=
      List.find?_some (p := fun entry : Text × P => matchString entry.1 h) found
    exact .inl ⟨mem, a, lists, by simpa [NameMatches, sort, ← tail] using matched⟩
  | first unlisted unmatched nothing head =>
    refine .inr ⟨fun srv' mem a lists matched => ?_, head⟩
    rw [NameMatches] at matched
    split at matched
    · rename_i sort
      subst matched
      cases found : servers.find? (a ∈ serverNames ·) with
      | none => exact List.find?_eq_none.mp found srv' mem (by simpa using lists)
      | some first => exact unlisted first ⟨sort, found⟩
    · rename_i sort
      exact unmatched a ⟨sort, ⟨srv', mem, lists⟩, matched⟩
    · rename_i sort
      have entry := tables.regExp_listed.mpr (show (a.tail, srv').2 ∈ servers ∧ _ from
        ⟨mem, a, lists, sort, rfl⟩)
      have missed := nothing _ entry
      rw [matched] at missed
      cases missed

theorem Tables.pick_answers (tables : Tables (listed servers) table) (several : 2 ≤ servers.length)
    {srv : P} (answers : Answers matchString servers h srv) :
    pick matchString servers table h = .ok srv := by
  have some : servers ≠ [] := by
    rintro rfl
    simp at several
  have exists' : ∃ srv, Selects matchString table.regExp servers h srv :=
    tables.exists_selects some
  obtain ⟨srv', selects⟩ := exists'
  rw [tables.pick_iff several]
  rcases tables.selects_cases selects with ⟨mem, a, lists, matched⟩ | ⟨unmatched, head⟩
  · rwa [← answers.1 srv' mem a lists matched]
  · rw [answers.2 unmatched] at head
    cases head
    exact selects

/-- Without a name that matches, the first server answers. -/
theorem Unmatched.answers (unmatched : Unmatched matchString servers h) {srv : P}
    (head : servers.head? = some srv) : Answers matchString servers h srv :=
  ⟨fun srv' mem a lists matched => absurd matched (unmatched srv' mem a lists), fun _ => head⟩

theorem exists_designated (net : NetFuncs) (port addr : Text) (nonempty : servers ≠ []) :
    ∃ srv, designated net port addr servers = some srv := by
  obtain ⟨head, rest, rfl⟩ := List.exists_cons_of_ne_nil nonempty
  rw [designated]
  cases (head :: rest).find? (carriesDefault net port addr) with
  | none => exact ⟨head, rfl⟩
  | some srv => exact ⟨srv, rfl⟩

end Expected

/-- For a Host without a port the pick is right unless no name matches and `default_server` is on
another server than the first. With a port, where names of at most one server match the whole text,
it is right iff that server, or else the first one, is the one expected without the port. -/
theorem selection_iff (net : NetFuncs) (matchString : Text → Text → Bool) (defaultPort : Text)
    (ctx : ServerCtx P) (ls : ListenOpts) (servers : List P) (several : 2 ≤ servers.length)
    (built table : HandlerMatch P) (run : handlerTables servers (ctx.with ls) = .ok built)
    (visits : Visits built table) (h : Text) :
    let default := designated net defaultPort ls.addrPort servers
    (Correct matchString servers default h (pick matchString servers table (hostText h none)) ↔
        (Unmatched matchString servers h → default = servers.head?)) ∧
      ∀ port answering, Answers matchString servers (hostText h (some port)) answering →
        (Correct matchString servers default h
            (pick matchString servers table (hostText h (some port))) ↔
          (∀ srv, FirstListing servers h srv → srv = answering) ∧
            (Unmatched matchString servers h → default = some answering)) := by
  intro default
  have tables : Tables (listed servers) table := (tables_init run).visits visits
  have nonempty : servers ≠ [] := by
    rintro rfl
    simp at several
  obtain ⟨srv, chosen⟩ : ∃ srv, default = some srv := exists_designated net _ _ nonempty
  constructor
  · rw [chosen]
    constructor
    · rintro ⟨-, right⟩ unmatched
      obtain ⟨head, rest, shape⟩ := List.exists_cons_of_ne_nil nonempty
      have first : servers.head? = some head := by rw [shape]; rfl
      have same := (tables.pick_answers several (unmatched.answers first)).symm.trans
        (right unmatched srv rfl)
      cases same
      exact first.symm
    · intro right
      refine ⟨fun srv' first => (tables.pick_iff several).mpr (.exact first), ?_⟩
      rintro unmatched _ ⟨⟩
      exact tables.pick_answers several (unmatched.answers (right unmatched).symm)
  · intro port answering answers
    rw [Correct, tables.pick_answers several answers, chosen]
    simp only [Except.ok.injEq, Option.some.injEq, forall_eq', eq_comm (a := answering)]

private def digitsOnly : NetFuncs where
  isInt a := a.all Char.isDigit
  parseIP _ := none
  splitHostPort _ := none
  parseURL _ := none

private def hostServer (listen : List Text) (name : Text) : Rule :=
  ⟨"server".toList, [], [⟨"listen".toList, listen, []⟩, ⟨"server_name".toList, [name], []⟩]⟩

private def plainServer : Rule := hostServer ["80".toList] ['a']

private def defaultServer : Rule := hostServer ["80".toList, "default_server".toList] ['b']

private def port80 : ListenOpts := { net := "tcp".toList, addrPort := "0.0.0.0:80".toList }

private def hostTable : HandlerMatch Rule :=
  ⟨[], [(['a'], [plainServer]), (['b'], [defaultServer])], [], none⟩

private theorem hostTable_built :
    handlerTables [plainServer, defaultServer] (ServerCtx.init.with port80) = .ok hostTable := rfl

/-- For the Host `b` the second server is picked, which lists it. -/
theorem selection_sample :
    pick (fun _ _ => false) [plainServer, defaultServer] hostTable ['b'] = .ok defaultServer := by
  have right := (selection_iff digitsOnly (fun _ _ => false) "80".toList .init port80
    [plainServer, defaultServer] (by decide) hostTable hostTable hostTable_built
    ⟨rfl, .refl _, .refl _, rfl⟩ ['b']).1
  refine (right.mpr fun unmatched => ?_).1 defaultServer ⟨rfl, rfl⟩
  exact absurd rfl (unmatched defaultServer (by simp) ['b'] (by decide))

/-- Two servers on port 80, the second of them with `default_server` and the name `b`. The first
one answers both to the Host `b:80` and to the Host `c`, which no server has for a name. -/
theorem wrong_server_picked :
    let servers := [plainServer, defaultServer]
    handlerTables servers (ServerCtx.init.with port80) = .ok hostTable ∧
      FirstListing servers ['b'] defaultServer ∧
      pick (fun _ _ => false) servers hostTable "b:80".toList = .ok plainServer ∧
      Unmatched (fun _ _ => false) servers ['c'] ∧
      designated digitsOnly "80".toList port80.addrPort servers = some defaultServer ∧
      pick (fun _ _ => false) servers hostTable ['c'] = .ok plainServer ∧
      serverNames plainServer ≠ serverNames defaultServer := by
  refine ⟨rfl, ⟨rfl, rfl⟩, rfl, ?_, rfl, rfl, by decide⟩
  intro srv mem a lists matched
  have name : a = ['a'] ∨ a = ['b'] := by
    rcases List.mem_pair.mp mem with rfl | rfl
    · exact .inl (List.mem_singleton.mp lists)
    · exact .inr (List.mem_singleton.mp lists)
  rcases name with rfl | rfl
  · exact absurd matched (by decide : ¬ (['a'] : Text) = ['c'])
  · exact absurd matched (by decide : ¬ (['b'] : Text) = ['c'])

end VirtualHost
