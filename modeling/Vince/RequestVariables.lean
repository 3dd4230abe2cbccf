import Vince.GoText
import Vince.Footprint

/-!
# The variables of a request (`ngx_ctx_variables.go`)

A listener has one map of variables. It is made when the listener is first served and every
connection and every request on the listener writes into it. What the standard library makes of a
raw query and of the Cookie headers are parameters, and so is the location found for a request.
-/

namespace RequestVariables

open GoText Footprint

/-! ## Requests -/

/-- A `map[string][]string`, in the order in which it happens to be ranged over. -/
abbrev Values := List (Text × List Text)

/-- `url.Values.Get` -/
def Values.get (values : Values) (k : Text) : Text := ((values.lookup k).getD []).headD []

/-- Bytes a header name may have. -/
def validHeaderFieldByte (c : Char) : Bool :=
  c.isAlphanum || "!#$%&'*+-.^_`|~".toList.contains c

def upperAfterDash : Bool → Text → Text
  | _, [] => []
  | upper, c :: rest => (if upper then c.toUpper else c.toLower) :: upperAfterDash (c = '-') rest

def canonicalMIMEHeaderKey (h : Text) : Text :=
  if h.all validHeaderFieldByte then upperAfterDash true h else h

/-- `http.Header.Get` -/
def Values.header (values : Values) (h : Text) : Text := values.get (canonicalMIMEHeaderKey h)

/-- `url.URL` as far as it is read: the query as it was sent and what `String` writes. -/
structure URL where
  rawQuery : Text
  written : Text
  deriving DecidableEq

/-- What the context of a request holds under the keys that are looked up; of the logger, whether
there is one. -/
structure RequestCtx where
  rootKey : Option Text := none
  aliasKey : Option Text := none
  serverNameKey : Option Text := none
  accessLogPathKey : Option Text := none
  ngxLoggerKey : Bool := true

structure Request where
  url : URL
  host : Text
  header : Values
  ctx : RequestCtx

/-- `URL.Query` of a raw query and `Request.Cookies` of the headers (name and value). -/
structure NetHTTP where
  query : Text → Values
  cookies : Values → List (Text × Text)

/-! ## Variables -/

def vArg : Text := "$arg".toList
def vArgs : Text := "$args".toList
def vContentLength : Text := "$content_length".toList
def vContentType : Text := "$content_type".toList
def vCookie : Text := "$cookie".toList
def vDocumentRoot : Text := "$document_root".toList
def vDocumentURI : Text := "$document_uri".toList
def vHost : Text := "$host".toList
def vHostname : Text := "$hostname".toList
def vHTTP : Text := "$http".toList
def vIsArgs : Text := "$is_args".toList
def vRequestID : Text := "$request_id".toList
def vRequestTime : Text := "$request_time".toList
def vURI : Text := "$uri".toList
def vRequestMatchKind : Text := "request_match_kind".toList

/-- What is bound to a name; `Loc` are the locations a request can be matched with. -/
inductive Value (Loc : Type) where
  | str (s : Text)
  | url (u : URL)
  | int (n : Int)
  | location (l : Loc)
  deriving DecidableEq

abbrev Variables (Loc : Type) := Text → Option (Value Loc)

variable {Loc : Type}

def documentRoot (ctx : RequestCtx) : Text :=
  match ctx.rootKey with
  | some root => root
  | none => match ctx.aliasKey with
    | some root => root
    | none => []

def requestHost (r : Request) : Text :=
  if r.host ≠ [] then r.host
  else if r.header.header "Host".toList ≠ [] then r.header.header "Host".toList
  else match r.ctx.serverNameKey with
    | some name => name
    | none => []

def setRequestVariables (net : NetHTTP) (hostname : Text) (m : Variables Loc) (r : Request) :
    Variables Loc :=
  let query := net.query r.url.rawQuery
  let m := query.foldl (fun m q => put m (vArg ++ '_' :: q.1) (.str (query.get q.1))) m
  let m := put m vArgs (.str r.url.rawQuery)
  let m := put m vContentLength (.str (r.header.header "Content-Length".toList))
  let m := put m vContentType (.str (r.header.header "Content-Type".toList))
  let m := (net.cookies r.header).foldl (fun m c => put m (vCookie ++ '_' :: c.1) (.str c.2)) m
  let m := put m vDocumentRoot (.str (documentRoot r.ctx))
  let m := put m vDocumentURI (.url r.url)
  let m := put m vURI (.url r.url)
  let m := put m vHost (.str (requestHost r))
  let m := put m vHostname (.str hostname)
  let m := r.header.foldl (fun m h => put m (vHTTP ++ '_' :: h.1) (.str (r.header.header h.1))) m
  put m vIsArgs (.str (if query.length > 0 then ['?'] else []))

/-! ## The names a request binds -/

/-- The names every request binds. -/
def fixedNames : List Text :=
  [vArgs, vContentLength, vContentType, vDocumentRoot, vDocumentURI, vURI, vHost, vHostname,
    vIsArgs]

/-- The families of names that depend on the request. -/
inductive Family where
  | arg
  | cookie
  | http
  deriving DecidableEq

def Family.stem : Family → Text
  | arg => vArg
  | cookie => vCookie
  | http => vHTTP

/-- What the names of a family end in: query names, cookie names and header names. -/
def Family.names (net : NetHTTP) (r : Request) : Family → List Text
  | arg => (net.query r.url.rawQuery).map Prod.fst
  | cookie => (net.cookies r.header).map Prod.fst
  | http => r.header.map Prod.fst

def Binds (net : NetHTTP) (r : Request) (n : Text) : Prop :=
  n ∈ fixedNames ∨ ∃ f : Family, ∃ k ∈ f.names net r, n = f.stem ++ '_' :: k

/-- Whatever the map held, a request binds its own names, to values of its own. -/
theorem setRequestVariables_assigns (net : NetHTTP) (hostname : Text) (r : Request) :
    Assigns (fun m : Variables Loc => setRequestVariables net hostname m r)
      {n | Binds net r n} := by
  -- the rules are applied in the order of the statements
  have inOrder : Assigns (fun m : Variables Loc => setRequestVariables net hostname m r) _ :=
    (((((((((((Assigns.nothing.puts _ _ _).put _ _).put _ _).put _ _).puts _ _ _).put _ _).put
      _ _).put _ _).put _ _).put _ _).puts _ _ _).put _ _
  refine inOrder.congr fun n => ?_
  have families : (∃ f : Family, ∃ k ∈ f.names net r, n = f.stem ++ '_' :: k) ↔
      (∃ q ∈ net.query r.url.rawQuery, n = vArg ++ '_' :: q.1) ∨
      (∃ c ∈ net.cookies r.header, n = vCookie ++ '_' :: c.1) ∨
      ∃ h ∈ r.header, n = vHTTP ++ '_' :: h.1 := by
    constructor
    · rintro ⟨f, k, member, rfl⟩
      cases f <;> simp only [Family.names, List.mem_map] at member
        <;> obtain ⟨entry, listed, rfl⟩ := member
      · exact Or.inl ⟨entry, listed, rfl⟩
      · exact Or.inr (Or.inl ⟨entry, listed, rfl⟩)
      · exact Or.inr (Or.inr ⟨entry, listed, rfl⟩)
    · rintro (⟨entry, listed, rfl⟩ | ⟨entry, listed, rfl⟩ | ⟨entry, listed, rfl⟩)
      · exact ⟨.arg, entry.1, List.mem_map_of_mem listed, rfl⟩
      · exact ⟨.cookie, entry.1, List.mem_map_of_mem listed, rfl⟩
      · exact ⟨.http, entry.1, List.mem_map_of_mem listed, rfl⟩
  simp only [Binds, families, fixedNames, Set.mem_ofPred_eq, List.mem_cons, List.not_mem_nil,
    Set.mem_insert_iff, Set.mem_union, Set.mem_empty_iff_false, or_false]
  exact iff_of_eq (by ac_rfl)

theorem Family.stem_apart (f g : Family) : f ≠ g → ¬ f.stem <+: g.stem := by
  cases f <;> cases g <;> decide

theorem Family.stem_not_fixed (f : Family) : ∀ n ∈ fixedNames, ¬ f.stem ++ ['_'] <+: n := by
  cases f <;> decide

theorem Family.stem_not_id (f : Family) : ¬ f.stem <+: vRequestID := by
  cases f <;> decide

theorem binds_family_iff (net : NetHTTP) (r : Request) (f : Family) (k : Text) :
    Binds net r (f.stem ++ '_' :: k) ↔ k ∈ f.names net r := by
  constructor
  · rintro (fixed | ⟨g, j, member, same⟩)
    · exact (f.stem_not_fixed _ fixed ⟨k, by simp⟩).elim
    · by_cases families : f = g
      · subst families
        simp only [List.append_cancel_left_eq, List.cons.injEq, true_and] at same
        rwa [same]
      · rcases List.append_eq_append_iff.mp same with ⟨rest, longer, -⟩ | ⟨rest, longer, -⟩
        · exact (f.stem_apart g families ⟨rest, longer.symm⟩).elim
        · exact (g.stem_apart f (Ne.symm families) ⟨rest, longer.symm⟩).elim
  · intro member
    exact Or.inr ⟨f, k, member, rfl⟩

/-- The names without their dollar sign. -/
theorem Binds.name {net : NetHTTP} {r : Request} {n : Text} (binds : Binds net r n) :
    ∃ name, n = '$' :: name ∧ (name ∈ fixedNames.map List.tail ∨
      ∃ (f : Family) (k : Text), name = f.stem.tail ++ '_' :: k) := by
  rcases binds with fixed | ⟨f, k, -, rfl⟩
  · have dollar : ∀ f ∈ fixedNames, f = '$' :: f.tail := by decide
    exact ⟨n.tail, dollar n fixed, Or.inl (List.mem_map_of_mem fixed)⟩
  · have dollar : f.stem = '$' :: f.stem.tail := by cases f <;> decide
    refine ⟨f.stem.tail ++ '_' :: k, ?_, Or.inr ⟨f, k, rfl⟩⟩
    rw [← List.cons_append, ← dollar]

/-! ## The life of a listener -/

/-- `connContext`: a connection is accepted and gets its id. -/
def connContext (m : Variables Loc) (id : Int) : Variables Loc := put m vRequestID (.int id)

/-- `accessLogMiddlewareFunc` has a destination and a logger to write to. -/
def RequestCtx.logs (ctx : RequestCtx) : Bool :=
  match ctx.accessLogPathKey with
  | none => false
  | some path => path ≠ [] && path ≠ "/dev/null".toList && ctx.ngxLoggerKey

/-- `accessLogMiddlewareFunc` puts the time the handlers below it took, in milliseconds. -/
def accessLog (ctx : RequestCtx) (took : Int) (m : Variables Loc) : Variables Loc :=
  if ctx.logs then put m vRequestTime (.int took) else m

/-- One request: what `os.Hostname` answers while it is served, the location found for it and
the time its handlers take. -/
structure Visit (Loc : Type) where
  request : Request
  hostname : Text
  found : Option Loc
  took : Int

/-- What `vinceHandler` does to the variables. -/
def vinceHandler (net : NetHTTP) (m : Variables Loc) (v : Visit Loc) : Variables Loc :=
  let m := setRequestVariables net v.hostname m v.request
  match v.found with
  | some l => accessLog v.request.ctx v.took (put m vRequestMatchKind (.location l))
  | none => m

inductive Event (Loc : Type) where
  | accept (id : Int)
  | serve (v : Visit Loc)

def Event.apply (net : NetHTTP) (m : Variables Loc) : Event Loc → Variables Loc
  | accept id => connContext m id
  | serve v => vinceHandler net m v

/-- The variables of a listener after a history, from the empty map `baseCtx` makes. -/
def variablesAfter (net : NetHTTP) (history : List (Event Loc)) : Variables Loc :=
  history.foldl (Event.apply net) Footprint.empty

/-- The names an event leaves bound. -/
def Event.Leaves (net : NetHTTP) (n : Text) : Event Loc → Prop
  | accept _ => n = vRequestID
  | serve v => Binds net v.request n ∨
      v.found.isSome ∧ (n = vRequestMatchKind ∨ v.request.ctx.logs ∧ n = vRequestTime)

theorem accessLog_assigns (ctx : RequestCtx) (took : Int) :
    Assigns (fun m : Variables Loc => accessLog ctx took m) {n | ctx.logs ∧ n = vRequestTime} := by
  by_cases logs : ctx.logs = true
  · simp only [accessLog, logs]
    exact (Assigns.single vRequestTime (Value.int took)).congr fun n => by simp
  · simp only [accessLog, logs]
    exact Assigns.nothing.congr fun n => by simp

theorem vinceHandler_assigns (net : NetHTTP) (v : Visit Loc) :
    Assigns (fun m => vinceHandler net m v) {n | (Event.serve v).Leaves net n} := by
  have own : Assigns (fun m : Variables Loc => setRequestVariables net v.hostname m v.request) _ :=
    setRequestVariables_assigns net v.hostname v.request
  simp only [Event.Leaves]
  cases found : v.found with
  | none =>
    simp only [vinceHandler, found]
    exact own.congr fun n => by simp
  | some l =>
    simp only [vinceHandler, found]
    have located := own.put vRequestMatchKind (.location l)
    refine (located.andThen (accessLog_assigns v.request.ctx v.took)).congr fun n => ?_
    simp only [Option.isSome_some, true_and, Set.mem_ofPred_eq, Set.mem_union, Set.mem_insert_iff]
    exact iff_of_eq (by ac_rfl)

theorem apply_assigns (net : NetHTTP) (e : Event Loc) :
    Assigns (fun m => e.apply net m) {n | e.Leaves net n} := by
  cases e with
  | accept id => exact Assigns.single vRequestID (Value.int id)
  | serve v => exact vinceHandler_assigns net v

/-- The map only grows: a name is bound as soon as some event of the history has bound it. -/
theorem variablesAfter_bound_iff (net : NetHTTP) (history : List (Event Loc)) (n : Text) :
    variablesAfter net history n ≠ none ↔ ∃ e ∈ history, e.Leaves net n := by
  have run := Assigns.foldl history fun e _ => apply_assigns net e
  exact run.bound_iff n

/-! ## What a request sees of the others -/

/-- The names and values a request sees are those it would see in a map of its own; the id is
that of the connection. -/
def SeesOwn (net : NetHTTP) (history : List (Event Loc)) (hostname : Text) (r : Request) : Prop :=
  ∀ n, n ≠ vRequestID → setRequestVariables net hostname (variablesAfter net history) r n =
    setRequestVariables net hostname Footprint.empty r n

/-- An earlier request leaves nothing that the request does not bind itself. -/
structure Covers (net : NetHTTP) (r : Request) (v : Visit Loc) : Prop where
  notLocated : v.found = none
  names : ∀ f : Family, f.names net v.request ⊆ f.names net r

theorem Covers.binds {net : NetHTTP} {r : Request} {v : Visit Loc} (covers : Covers net r v)
    {n : Text} (bound : Binds net v.request n) : Binds net r n := by
  rcases bound with fixed | ⟨f, k, member, rfl⟩
  · exact Or.inl fixed
  · exact Or.inr ⟨f, k, covers.names f member, rfl⟩

theorem not_binds_matchKind (net : NetHTTP) (r : Request) : ¬ Binds net r vRequestMatchKind := by
  intro binds
  obtain ⟨name, dollar, -⟩ := binds.name
  have first : vRequestMatchKind.head? = some '$' := by rw [dollar, List.head?_cons]
  exact absurd first (by decide)

theorem sees_own_iff (net : NetHTTP) (history : List (Event Loc)) (hostname : Text) (r : Request) :
    SeesOwn net history hostname r ↔ ∀ v, .serve v ∈ history → Covers net r v := by
  have own : Assigns (fun m : Variables Loc => setRequestVariables net hostname m r) _ :=
    setRequestVariables_assigns net hostname r
  constructor
  · intro sees v served
    -- a name the visit leaves bound shows through unless the request binds it
    have hidden : ∀ n, n ≠ vRequestID → (Event.serve v).Leaves net n → Binds net r n := by
      intro n notId leaves
      rcases (own.fresh_iff _ n).mp (sees n notId) with binds | unbound
      · exact binds
      · exact ((variablesAfter_bound_iff net history n).mpr ⟨_, served, leaves⟩ unbound).elim
    constructor
    · by_contra located
      have leaves : (Event.serve v).Leaves net vRequestMatchKind :=
        Or.inr ⟨Option.isSome_iff_ne_none.mpr located, Or.inl rfl⟩
      exact not_binds_matchKind net r (hidden _ (by decide) leaves)
    · intro f k member
      have notId : f.stem ++ '_' :: k ≠ vRequestID := fun same => f.stem_not_id ⟨_, same⟩
      have leaves : (Event.serve v).Leaves net (f.stem ++ '_' :: k) :=
        Or.inl (Or.inr ⟨f, k, member, rfl⟩)
      exact (binds_family_iff net r f k).mp (hidden _ notId leaves)
  · intro covers n notId
    apply (own.fresh_iff _ n).mpr
    by_contra shows
    push Not at shows
    obtain ⟨e, member, leaves⟩ := (variablesAfter_bound_iff net history n).mp shows.2
    cases e with
    | accept id => exact notId leaves
    | serve v =>
      rcases leaves with bound | ⟨located, -⟩
      · exact shows.1 ((covers v member).binds bound)
      · simp [(covers v member).notLocated] at located

private def oneQuery : NetHTTP where
  query raw := if raw = "a=1".toList then [(['a'], [['1']])] else []
  cookies _ := []

private def plainRequest (rawQuery : Text) : Request :=
  { url := ⟨rawQuery, '/' :: '?' :: rawQuery⟩, host := "h".toList, header := [], ctx := {} }

/-- After a request for `?a=1`, a request without a query sees `$arg_a`. -/
theorem query_name_leaks :
    let history : List (Event Unit) := [.accept 1, .serve ⟨plainRequest "a=1".toList, [], none, 0⟩]
    setRequestVariables oneQuery [] (variablesAfter oneQuery history) (plainRequest [])
      "$arg_a".toList = some (.str ['1']) ∧
    setRequestVariables oneQuery [] (Footprint.empty : Variables Unit) (plainRequest [])
      "$arg_a".toList = none ∧
    ¬ SeesOwn oneQuery history [] (plainRequest []) := by
  intro history
  have seen : setRequestVariables oneQuery [] (variablesAfter oneQuery history) (plainRequest [])
      "$arg_a".toList = some (.str ['1']) := by decide +kernel
  have fresh : setRequestVariables oneQuery [] (Footprint.empty : Variables Unit)
      (plainRequest []) "$arg_a".toList = none := by decide +kernel
  refine ⟨seen, fresh, fun sees => ?_⟩
  have same := sees "$arg_a".toList (by decide)
  rw [seen, fresh] at same
  cases same

end RequestVariables
