import Vince.LocationMatch
import Vince.ProxyOptions

/-!
# The address of a proxied request (`ngx_proxy_pass.go`)

The director replaces the URL of a request by that of the target. Only for a target whose path is
the root and a location that is a plain prefix does it add anything of the request to it, so that in
general the query and most of the path are lost. `url.Parse` is a parameter.
-/

namespace ProxyDirector

open GoText ConfigParse RequestVariables StringTemplate LocationMatch ProxyOptions
open ServerRules (Rule)

/-- `url.URL` with the parts that are read or sent on. -/
structure URL where
  scheme : Text
  host : Text
  path : Text
  rawQuery : Text
  deriving DecidableEq

variable (parse : Text → Option URL)

/-! ## Targets -/

def unixHost : Text := "unix:".toList

/-- An error gives a nil URL. -/
def parseProxyURL (s : Text) : Except Panic (Option URL) :=
  match parse s with
  | none => .ok none
  | some u =>
    if u.host ≠ unixHost then .ok (some u)
    else
      match u.path.splitOn ':' with
      | first :: second :: _ => .ok (some { u with host := u.host ++ first, path := second })
      | _ => .error (.fault .indexOutOfRange)

/-- A target with the path of a socket and a URI. -/
def unixTarget (s u : Text) : Text := "http://unix:".toList ++ s ++ ':' :: u

theorem splitOn_colon {s : Text} (plain : ':' ∉ s) (u : Text) :
    (s ++ ':' :: u).splitOn ':' = s :: u.splitOn ':' := by
  rw [List.splitOn_append_cons_self, List.splitOn_eq_singleton plain]
  rfl

/-- The first part of a text is what comes before its first colon. -/
theorem exists_splitOn (u : Text) :
    ∃ first rest, u.splitOn ':' = first :: rest ∧
      (first = u ↔ ':' ∉ u) ∧ (rest = [] ↔ ':' ∉ u) := by
  by_cases colon : ':' ∈ u
  · obtain ⟨s, t, rfl, plain⟩ := List.eq_append_cons_of_mem colon
    refine ⟨s, t.splitOn ':', splitOn_colon plain t, ?_, ?_⟩
    · exact iff_of_false (fun same => by simpa using congrArg List.length same) fun no => no colon
    · exact iff_of_false (List.splitOn_ne_nil ':' t) fun no => no colon
  · exact ⟨u, [], List.splitOn_eq_singleton colon, iff_of_true rfl colon, iff_of_true rfl colon⟩

/-- A target is a panic iff its host is that of a socket and its path has no colon. The URI of a
socket is taken up to its first colon. -/
theorem parse_proxy_url_iff :
    (∀ target, (∃ p, parseProxyURL parse target = .error p) ↔
      ∃ u, parse target = some u ∧ u.host = unixHost ∧ ':' ∉ u.path) ∧
    ∀ s u parsed, ':' ∉ s → parse (unixTarget s u) = some parsed → parsed.host = unixHost →
      parsed.path = s ++ ':' :: u →
        ∃ result, parseProxyURL parse (unixTarget s u) = .ok (some result) ∧
          result.host = unixHost ++ s ∧ (result.path = u ↔ ':' ∉ u) := by
  constructor
  · intro target
    rw [parseProxyURL]
    cases parse target with
    | none => simp
    | some u =>
      by_cases socket : u.host = unixHost
      · obtain ⟨first, rest, parts, -, alone⟩ := exists_splitOn u.path
        simp only [socket, ne_eq, not_true_eq_false, if_false, parts]
        cases rest with
        | nil => simp [socket, alone.mp rfl]
        | cons second more =>
          have colon : ¬ ':' ∉ u.path := fun no => by simpa using alone.mpr no
          simp [colon]
      · simp [socket]
  · intro s u parsed plain given host path
    obtain ⟨first, rest, parts, whole, -⟩ := exists_splitOn u
    refine ⟨{ parsed with host := parsed.host ++ s, path := first }, ?_, ?_, whole⟩
    · rw [parseProxyURL, given]
      dsimp only
      rw [if_neg (not_not.mpr host), path, splitOn_colon plain, parts]
    · rw [host]

/-- URLs of scheme, host, path and query. -/
private def plainParse (s : Text) : Option URL :=
  if "http://".toList.isPrefixOf s then
    let front := (s.drop 7).takeWhile (· ≠ '?')
    some ⟨"http".toList, front.takeWhile (· ≠ '/'), front.dropWhile (· ≠ '/'),
      ((s.drop 7).dropWhile (· ≠ '?')).drop 1⟩
  else none

theorem unix_target_sample :
    ∃ result, parseProxyURL plainParse (unixTarget "/s".toList "/a".toList) = .ok (some result) ∧
      result.host = "unix:/s".toList ∧ result.path = "/a".toList := by
  obtain ⟨result, ran, host, path⟩ := (parse_proxy_url_iff plainParse).2 "/s".toList "/a".toList
    ⟨"http".toList, unixHost, "/s:/a".toList, []⟩ (by decide) (by decide +kernel) rfl (by decide)
  exact ⟨result, ran, host, path.mpr (by decide)⟩

/-- A host without a path is a panic, and a colon in the URI cuts it off. -/
theorem unix_target_panics :
    parseProxyURL plainParse "http://unix:".toList = .error (.fault .indexOutOfRange) ∧
    parseProxyURL plainParse (unixTarget "/s".toList "/a:b".toList) =
      .ok (some ⟨"http".toList, "unix:/s".toList, "/a".toList, []⟩) := by
  decide +kernel

/-! ## The director -/

/-- `http.Request` with what the director sets. -/
structure Request (Body : Type) where
  method : Text
  url : URL
  body : Option Body

/-- The request that is sent on, whose URL may be nil. -/
structure Outgoing (Body : Type) where
  method : Text
  url : Option URL
  body : Option Body

def trimPrefix (start s : Text) : Text := if start.isPrefixOf s then s.drop start.length else s

/-- What a plain prefix adds to a target. -/
def extend (m : Match Rule) (path : Text) (u : URL) : Except Panic URL :=
  if u.path = ['/'] ∧ path ≠ ['/'] then
    match m.rule.args with
    | [] => .error (.fault .indexOutOfRange)
    | l :: _ => .ok { u with path := u.path ++ trimPrefix ['/'] (trimPrefix l path) }
  else .ok u

/-- The switch over the kind of the location. -/
def rewrite (m : Match Rule) (path : Text) (u : Option URL) : Except Panic (Option URL) :=
  match m.kind, u with
  | .matchPrefix, none => .error (.fault .nilDereference)
  | .matchPrefix, some u => (extend m path u).map some
  | _, u => .ok u

variable {Body : Type} {T : TextTemplate (Match Rule)}

/-- The URL that the request gets. -/
def targetURL (o : ProxyOption T) (v : Variables (Match Rule)) (path : Text) :
    Except Panic (Option URL) :=
  match o.pass.uri.valueIn v with
  | none => .error .template
  | some target => do
    let u ← parseProxyURL parse target
    match v vRequestMatchKind with
    | none => .ok u
    | some (.location m) => rewrite m path u
    | some _ => .error .assertion

def director (o : ProxyOption T) (v : Variables (Match Rule)) (r : Request Body) :
    Except Panic (Outgoing Body) := do
  let url ← targetURL parse o v r.url.path
  return {
    url
    body := if o.pass.body.set && !o.pass.body.value then none else r.body
    method := if o.pass.method.set then o.pass.method.value else r.method }

/-- A location for all paths that begin with a text. -/
inductive PrefixLocation (m : Match Rule) (l : Text) : Prop
  | plain (kind : m.kind = .matchPrefix) (args : m.rule.args = [l])
  | caret (kind : m.kind = .matchCaret) (args : m.rule.args = ["^~".toList, l])

/-- An empty path is sent as the root. -/
def sentPath (path : Text) : Text := if path = [] then ['/'] else path

/-- Where a request with the URL `r` should go. -/
structure Proxied (u : URL) (l : Text) (r sent : URL) : Prop where
  scheme : sent.scheme = u.scheme
  host : sent.host = u.host
  rawQuery : sent.rawQuery = r.rawQuery
  path : sentPath sent.path =
    if u.path = [] then sentPath r.path else u.path ++ r.path.drop l.length

/-- The path that is sent for a target. -/
def directedPath (m : Match Rule) (l path : Text) (u : URL) : Text :=
  if m.kind = .matchPrefix ∧ u.path = ['/'] ∧ path ≠ ['/'] then
    '/' :: trimPrefix ['/'] (path.drop l.length)
  else u.path

theorem trimPrefix_of_prefix {start s : Text} (begins : start <+: s) :
    trimPrefix start s = s.drop start.length :=
  if_pos (List.isPrefixOf_iff_prefix.mpr begins)

theorem rewrite_eq {m : Match Rule} {l path : Text} (location : PrefixLocation m l)
    (begins : l <+: path) (u : URL) :
    rewrite m path (some u) = .ok (some { u with path := directedPath m l path u }) := by
  cases location with
  | plain kind args =>
    simp only [rewrite, directedPath, kind, extend, args, true_and]
    by_cases added : u.path = ['/'] ∧ path ≠ ['/']
    · rw [if_pos added, if_pos added, trimPrefix_of_prefix begins, added.1]
      rfl
    · rw [if_neg added, if_neg added]
      rfl
  | caret kind args => simp [rewrite, directedPath, kind]

theorem cons_trimPrefix_iff (s : Text) :
    '/' :: trimPrefix ['/'] s = '/' :: s ↔ s.head? ≠ some '/' := by
  cases s with
  | nil => decide
  | cons c s =>
    by_cases slash : c = '/'
    · subst slash
      have shorter : trimPrefix ['/'] ('/' :: s) = s := trimPrefix_of_prefix ⟨s, rfl⟩
      rw [shorter]
      simp
    · have same : trimPrefix ['/'] (c :: s) = c :: s := by
        simp [trimPrefix, List.isPrefixOf, Ne.symm slash]
      rw [same]
      simp [slash]

/-- The path is the right one for a target without a path iff the request has none either, and
otherwise iff nothing of it is left behind the location, or if it is added to the root. -/
theorem directedPath_iff (m : Match Rule) (l path : Text) (u : URL) :
    sentPath (directedPath m l path u) =
        (if u.path = [] then sentPath path else u.path ++ path.drop l.length) ↔
      (u.path = [] → path = [] ∨ path = ['/']) ∧
      (u.path ≠ [] → path.drop l.length = [] ∨
        m.kind = .matchPrefix ∧ u.path = ['/'] ∧ path ≠ ['/'] ∧
          (path.drop l.length).head? ≠ some '/') := by
  by_cases empty : u.path = []
  · have directed : directedPath m l path u = [] := by
      rw [directedPath, if_neg (by simp [empty]), empty]
    simp only [empty, directed, if_true, sentPath, forall_const, ne_eq, not_true_eq_false,
      false_implies, and_true]
    by_cases none : path = []
    · simp [none]
    · simp [none, eq_comm]
  · simp only [empty, if_false, false_implies, true_and, ne_eq, not_false_eq_true, forall_const]
    by_cases added : m.kind = .matchPrefix ∧ u.path = ['/'] ∧ path ≠ ['/']
    · have directed : directedPath m l path u = '/' :: trimPrefix ['/'] (path.drop l.length) :=
        if_pos added
      rw [directed, sentPath, if_neg (List.cons_ne_nil _ _), added.2.1]
      refine (cons_trimPrefix_iff _).trans ⟨fun apart => ?_, ?_⟩
      · exact .inr ⟨added.1, rfl, added.2.2, apart⟩
      · rintro (nothing | ⟨-, -, -, apart⟩)
        · simp [nothing]
        · exact apart
    · have directed : directedPath m l path u = u.path := if_neg added
      rw [directed, sentPath, if_neg empty, List.self_eq_append_right]
      refine ⟨.inl, ?_⟩
      rintro (nothing | ⟨kind, root, other, -⟩)
      · exact nothing
      · exact absurd ⟨kind, root, other⟩ added

theorem director_ok {o : ProxyOption T} {v : Variables (Match Rule)} {r : Request Body}
    {url : Option URL}
    (target : targetURL parse o v r.url.path = .ok url) :
    ∃ out, director parse o v r = .ok out ∧ out.url = url := by
  rw [director, target]
  exact ⟨_, rfl, rfl⟩

/-- The director sends a request where it should iff the request has no query, and its path is one
of those above. -/
theorem director_sends_iff {o : ProxyOption T} {v : Variables (Match Rule)} {target l : Text}
    {u : URL} {m : Match Rule} (r : Request Body) (rendered : o.pass.uri.valueIn v = some target)
    (parsed : parseProxyURL parse target = .ok (some u)) (noQuery : u.rawQuery = [])
    (matched : v vRequestMatchKind = some (.location m)) (location : PrefixLocation m l)
    (begins : l <+: r.url.path) :
    ∃ out sent, director parse o v r = .ok out ∧ out.url = some sent ∧
      (Proxied u l r.url sent ↔
        r.url.rawQuery = [] ∧
        (u.path = [] → r.url.path = [] ∨ r.url.path = ['/']) ∧
        (u.path ≠ [] → r.url.path.drop l.length = [] ∨
          m.kind = .matchPrefix ∧ u.path = ['/'] ∧ r.url.path ≠ ['/'] ∧
            (r.url.path.drop l.length).head? ≠ some '/')) := by
  have url : targetURL parse o v r.url.path =
      .ok (some { u with path := directedPath m l r.url.path u }) := by
    rw [targetURL, rendered]
    dsimp only
    rw [parsed, matched]
    exact rewrite_eq location begins u
  obtain ⟨out, ran, sent⟩ := director_ok parse url
  refine ⟨out, _, ran, sent, ?_⟩
  rw [← directedPath_iff]
  constructor
  · intro proxied
    exact ⟨proxied.rawQuery.symm.trans noQuery, proxied.path⟩
  · rintro ⟨query, path⟩
    exact ⟨rfl, rfl, noQuery.trans query.symm, path⟩

/-! ## One location -/

private def apiMatch : Match Rule := ⟨.matchPrefix, ⟨"location".toList, ["/api/".toList], []⟩, []⟩

private def apiVariables : Variables (Match Rule) := fun name =>
  if name = vRequestMatchKind then some (.location apiMatch) else none

/-- Templates that are rendered as they stand. -/
private def noTemplates : TextTemplate (Match Rule) where
  Tpl := Text
  parse := some
  execute t m := match t with
    | '{' :: '{' :: '.' :: k => some (((m (k.take (k.length - 2))).map fun _ => []).getD [])
    | _ => none
  print _ := []
  noValue := []
  field k name := by
    refine ⟨_, rfl, fun m => ?_⟩
    simp

private def passTo (target : String) : ProxyOption noTemplates :=
  { pass := { uri := { value := target.toList, set := true } } }

private def get (path rawQuery : String) : Request Unit :=
  ⟨"GET".toList, ⟨[], [], path.toList, rawQuery.toList⟩, none⟩

theorem director_sends_sample :
    ∃ out sent, director plainParse (passTo "http://b/") apiVariables (get "/api/x" "") = .ok out ∧
      out.url = some sent ∧
      Proxied ⟨"http".toList, "b".toList, "/".toList, []⟩ "/api/".toList (get "/api/x" "").url
        sent := by
  obtain ⟨out, sent, ran, url, proxied⟩ := director_sends_iff plainParse
    (u := ⟨"http".toList, "b".toList, "/".toList, []⟩) (m := apiMatch) (l := "/api/".toList)
    (get "/api/x" "") (o := passTo "http://b/") (v := apiVariables) rfl (by decide +kernel) rfl rfl
    (.plain rfl rfl) (by decide)
  exact ⟨out, sent, ran, url, proxied.mpr (by decide)⟩

/-- To a target without a path goes neither the path of the request nor its query. -/
theorem director_drops_path :
    ∃ out, director plainParse (passTo "http://b") apiVariables (get "/api/x" "y=1") = .ok out ∧
      out.url = some ⟨"http".toList, "b".toList, [], []⟩ ∧
      ¬ Proxied ⟨"http".toList, "b".toList, [], []⟩ "/api/".toList (get "/api/x" "y=1").url
        ⟨"http".toList, "b".toList, [], []⟩ := by
  refine ⟨_, rfl, by decide +kernel, fun proxied => ?_⟩
  exact absurd proxied.rawQuery (by decide)

end ProxyDirector
