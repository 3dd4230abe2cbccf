import Mathlib.Data.List.TakeWhile
import Vince.OAuthAccess
import Vince.PathSegments

/-!
# Which redirect URIs are accepted (`oauth2_server.go`)

A redirect URI that passes is one of the registered URIs, or its path continues the path of one
with segments that are none of them `..`, so that it stays below it when dot segments are resolved.

The two endpoints read the separator of the registered URIs from different fields, of which `init`
sets one. Where the other one splits, the authorize endpoint takes the whole list for a URI.
-/

namespace OAuth

open GoText PathSegments Effects

variable {V : Type} {parse : Text → Option URL} {base redirect : URL}

/-! ## Paths -/

def isDot (s : Text) : Bool := s = [] || s = ['.']

def isDotDot (s : Text) : Bool := s = ['.', '.']

/-- The names that are left of the segments of a path. -/
def resolveDots (segments : List Text) : List Text := resolve isDot isDotDot segments

def resolvedPath (path : Text) : List Text := resolveDots (path.splitOn '/')

example : resolvedPath "/a//b/.././c/".toList = ["a".toList, "c".toList] := by decide

/-- The path begins with that of `base`, and whatever part of it comes after that is read, one is
below `base`. -/
def NeverClimbsOut (base path : Text) : Prop :=
  ∃ front more, path.splitOn '/' = front ++ more ∧ resolveDots front = resolvedPath base ∧
    ∀ part, part <+: more → resolvedPath base <+: resolveDots (front ++ part)

theorem NeverClimbsOut.resolved {base path : Text} (inside : NeverClimbsOut base path) :
    resolvedPath base <+: resolvedPath path := by
  obtain ⟨front, more, split, -, below⟩ := inside
  rw [resolvedPath.eq_def path, split]
  exact below more List.prefix_rfl

theorem neverClimbsOut_self (path : Text) : NeverClimbsOut path path := by
  refine ⟨path.splitOn '/', [], by simp, rfl, fun part begins => ?_⟩
  rw [List.prefix_nil.mp begins, List.append_nil]
  exact List.prefix_rfl

theorem exists_trimRight (path : Text) :
    ∃ n, path = trimRight '/' path ++ List.replicate n '/' := by
  have slashes : path.reverse.takeWhile (· = '/') =
      List.replicate (path.reverse.takeWhile (· = '/')).length '/' := by
    refine List.eq_replicate_iff.mpr ⟨rfl, fun c member => ?_⟩
    simpa using List.mem_takeWhile_imp member
  refine ⟨(path.reverse.takeWhile (· = '/')).length, ?_⟩
  calc path = (path.reverse.takeWhile (· = '/') ++ path.reverse.dropWhile (· = '/')).reverse := by
        rw [List.takeWhile_append_dropWhile, List.reverse_reverse]
    _ = trimRight '/' path ++ (path.reverse.takeWhile (· = '/')).reverse := List.reverse_append
    _ = _ := by rw [slashes, List.reverse_replicate, List.length_replicate]

theorem splitOn_slashes (path : Text) (n : Nat) :
    (path ++ List.replicate n '/').splitOn '/' = path.splitOn '/' ++ List.replicate n [] := by
  induction n with
  | zero => simp
  | succ n ih =>
    rw [List.replicate_succ', ← List.append_assoc, List.splitOn_append_cons_self, ih,
      List.splitOn_nil, List.append_assoc, ← List.replicate_succ']

/-- Slashes at the end do not count. -/
theorem resolvedPath_trimRight (path : Text) :
    resolvedPath (trimRight '/' path) = resolvedPath path := by
  obtain ⟨n, shape⟩ := exists_trimRight path
  have skipped : ∀ s ∈ List.replicate n ([] : Text), isDot s = true := by
    intro s member
    rw [List.eq_of_mem_replicate member]
    rfl
  calc resolvedPath (trimRight '/' path)
      = resolveDots ((trimRight '/' path).splitOn '/' ++ List.replicate n []) :=
        (resolve_append_skipped _ skipped).symm
    _ = resolvedPath (trimRight '/' path ++ List.replicate n '/') := by
        rw [resolvedPath, splitOn_slashes]
    _ = resolvedPath path := by rw [← shape]

/-- A path that continues another one without a `..`. -/
theorem neverClimbsOut_of_continues {base rest : Text}
    (level : ∀ s ∈ rest.splitOn '/', s ≠ ['.', '.']) :
    NeverClimbsOut base (trimRight '/' base ++ '/' :: rest) := by
  refine ⟨(trimRight '/' base).splitOn '/', rest.splitOn '/', List.splitOn_append_cons_self _ _,
    resolvedPath_trimRight base, fun part begins => ?_⟩
  have levels : ∀ s ∈ part, isDotDot s = false := by
    intro s member
    simpa [isDotDot] using level s (begins.subset member)
  rw [resolveDots, resolve_append_level _ levels]
  have front : resolve isDot isDotDot ((trimRight '/' base).splitOn '/') = resolvedPath base :=
    resolvedPath_trimRight base
  rw [front]
  exact List.prefix_append _ _

/-! ## Accepted redirect URIs -/

/-- The URIs of a client. -/
def registered (baseList sep : Text) : List Text :=
  if sep ≠ [] then split baseList sep else [baseList]

structure Below (base redirect : URL) : Prop where
  scheme : redirect.scheme = base.scheme
  host : redirect.host = base.host
  baseFragment : base.fragment = []
  fragment : redirect.fragment = []
  resolved : resolvedPath base.path <+: resolvedPath redirect.path
  inside : NeverClimbsOut base.path redirect.path

theorem below_of_path (fragments : ¬ (base.fragment ≠ [] ∨ redirect.fragment ≠ []))
    (scheme : ¬ base.scheme ≠ redirect.scheme) (host : ¬ base.host ≠ redirect.host)
    (inside : NeverClimbsOut base.path redirect.path) : Below base redirect := by
  rw [not_or, not_not, not_not] at fragments
  exact ⟨(not_not.mp scheme).symm, (not_not.mp host).symm, fragments.1, fragments.2,
    inside.resolved, inside⟩

theorem below_of_validateURI {item uri : Text} (accepted : validateURI parse item uri = true) :
    ∃ base redirect, parse item = some base ∧ parse uri = some redirect ∧ Below base redirect := by
  rw [validateURI] at accepted
  split at accepted
  · cases accepted
  · split at accepted
    · rename_i base redirect parsedBase parsed
      refine ⟨base, redirect, parsedBase, parsed, ?_⟩
      split at accepted
      · cases accepted
      · rename_i fragments
        split at accepted
        · cases accepted
        · rename_i scheme
          split at accepted
          · cases accepted
          · rename_i host
            refine below_of_path fragments scheme host ?_
            split at accepted
            · rename_i same
              rw [← same]
              exact neverClimbsOut_self base.path
            · dsimp only at accepted
              split at accepted
              · cases accepted
              · rename_i begins
                obtain ⟨rest, whole⟩ := List.isPrefixOf_iff_prefix.mp (not_not.mp begins)
                rw [← whole, List.drop_left] at accepted
                rw [← whole, List.append_assoc, List.singleton_append]
                refine neverClimbsOut_of_continues fun s member => ?_
                simpa using List.all_eq_true.mp accepted s member
    · cases accepted

/-- A redirect URI that is accepted stays below one of the registered URIs. -/
theorem accepted_redirect_below (parse : Text → Option URL) (baseList uri sep : Text)
    (accepted : validateURIList parse baseList uri sep = true) :
    ∃ item ∈ registered baseList sep, ∃ base redirect,
      parse item = some base ∧ parse uri = some redirect ∧ Below base redirect := by
  obtain ⟨item, listed, passed⟩ := List.any_eq_true.mp accepted
  exact ⟨item, listed, below_of_validateURI passed⟩

theorem accepted_redirect_below_sample :
    ∃ item ∈ registered "/a;/vince/../b/".toList ";".toList, ∃ base redirect,
      plainEnv.parse item = some base ∧
      plainEnv.parse "/vince/../b/.../..sub".toList = some redirect ∧ Below base redirect :=
  accepted_redirect_below plainEnv.parse "/a;/vince/../b/".toList
    "/vince/../b/.../..sub".toList ";".toList (by decide)

/-! ## The two endpoints -/

/-- A new server after `init`. The secret against forged requests is left out. -/
def configured (opts : Options) : Server := ⟨[], opts⟩

section Checks

variable (parse) (o : Server) (c : Client) (uri : Text)

/-- The check of `authorize`. -/
def authorizeAccepts : Bool :=
  c.redirectURL ≠ [] && validateURIList parse c.redirectURL (authorizeRedirect o c uri)
    o.redirectSeparator

/-- The check of `access` for an authorization code. -/
def accessAccepts : Bool :=
  validateURIList parse c.redirectURL
    (if uri = [] then firstURI c.redirectURL o.opts.redirectSeparator else uri)
    o.opts.redirectSeparator

end Checks

/-- At the authorize endpoint a redirect URI that does not pass is refused before anyone logs
in. -/
theorem authorizeClient_refuses (env : Env V) (o : Server) (r : Request) {c : Client}
    {requested : Text} (failed : authorizeAccepts env.parse o c requested = false) :
    authorizeClient env o r c requested = refuse env
      (if c.redirectURL = [] then .unauthorizedClient else .invalidRequest) (r.form .state) := by
  rw [authorizeClient]
  by_cases none : c.redirectURL = []
  · rw [if_pos none, if_pos none]
  · have invalid : validateURIList env.parse c.redirectURL (authorizeRedirect o c requested)
        o.redirectSeparator = false := by simpa [authorizeAccepts, none] using failed
    rw [if_neg none, if_neg none, if_pos (by simp [invalid])]

/-- A request with an authorization code comes to the redirect URI: the client has shown its secret,
and the code has led to a grant of the client that has not expired. -/
structure ComesToRedirect (env : Env V) (r : Request) (basic : BasicAuth) (w : World V) (c : Client)
    (g : Grant) (w₃ : World V) : Prop where
  given : r.form .code ≠ []
  found : ∃ w₁ w₂, clientWithSecret env basic w = .ok c w₁ ∧
    grantByClient env c (r.form .code) w₁ = .ok g w₂ ∧ expired env g w₂ = .ok false w₃

/-- At the access endpoint what is asked of the redirect URI decides whether tokens are issued. -/
theorem ComesToRedirect.apply {env : Env V} {r : Request} {basic : BasicAuth} {w w₃ : World V}
    {c : Client} {g : Grant} (comes : ComesToRedirect env r basic w c g w₃) (o : Server) :
    accessByCode env o r basic w =
      (if accessAccepts env.parse o c (r.form .redirectURL) then issue env o g []
        else refuse env .invalidRequest []) w₃ := by
  obtain ⟨w₁, w₂, shown, found, lives⟩ := comes.found
  rw [accessByCode, if_neg comes.given, withClient, bind_ok (attempt_ok shown)]
  show (attempt (grantByClient env c (r.form .code)) >>= _) _ = _
  rw [bind_ok (attempt_ok found)]
  show (expired env g >>= _) _ = _
  rw [bind_ok lives, if_neg Bool.false_ne_true]
  exact congrFun (ite_not _ _ _) w₃

theorem validateURI_nil (parse : Text → Option URL) (uri : Text) :
    validateURI parse [] uri = false := by
  rw [validateURI, if_pos (.inl rfl)]

/-- The separator that the authorize endpoint uses is empty. -/
theorem authorizeAccepts_iff (opts : Options) (c : Client) {uri : Text} (given : uri ≠ []) :
    authorizeAccepts parse (configured opts) c uri = true ↔
      validateURI parse c.redirectURL uri = true := by
  have same : authorizeRedirect (configured opts) c uri = uri := if_neg fun none => given none.1
  have whole : validateURIList parse c.redirectURL uri [] =
      validateURI parse c.redirectURL uri := Bool.or_false _
  rw [authorizeAccepts, same, Bool.and_eq_true, configured, whole]
  constructor
  · exact And.right
  · intro accepted
    refine ⟨decide_eq_true fun none => ?_, accepted⟩
    rw [none, validateURI_nil] at accepted
    cases accepted

theorem accessAccepts_iff (opts : Options) (c : Client) {uri : Text} (given : uri ≠ []) :
    accessAccepts parse (configured opts) c uri = true ↔
      ∃ item ∈ registered c.redirectURL opts.redirectSeparator,
        validateURI parse item uri = true := by
  rw [accessAccepts, if_neg given]
  exact List.any_eq_true

/-- A text without the separator is not split. -/
theorem splitFrom_apart {sep : Text} (word : Text) {s : Text} (apart : ¬ sep <:+: s) :
    splitFrom sep 0 word s = [word.reverse ++ s] := by
  induction s generalizing word with
  | nil => simp [splitFrom]
  | cons c rest ih =>
    have here : ¬ sep.isPrefixOf (c :: rest) = true := fun begins =>
      apart (List.isPrefixOf_iff_prefix.mp begins).isInfix
    have later : ¬ sep <:+: rest := fun inside =>
      apart (inside.trans (List.suffix_cons c rest).isInfix)
    rw [splitFrom, if_neg here, ih _ later, List.reverse_cons, List.append_assoc,
      List.singleton_append]

theorem split_apart {s sep : Text} (apart : ¬ sep <:+: s) : split s sep = [s] :=
  splitFrom_apart [] apart

/-- If the separator is empty or does not occur in what is registered, the endpoints agree on a
redirect URI. One that both refuse is answered with an error at either of them, and one that both
accept gets its tokens at the access endpoint. -/
theorem redirect_checks_agree (env : Env V) (opts : Options) (c : Client) (uri : Text)
    (given : uri ≠ [])
    (apart : opts.redirectSeparator = [] ∨ ¬ opts.redirectSeparator <:+: c.redirectURL) :
    (authorizeAccepts env.parse (configured opts) c uri = true ↔
      accessAccepts env.parse (configured opts) c uri = true) ∧
    (authorizeAccepts env.parse (configured opts) c uri = false → ∀ r,
      authorizeClient env (configured opts) r c uri = refuse env
        (if c.redirectURL = [] then .unauthorizedClient else .invalidRequest) (r.form .state)) ∧
    ∀ r basic w g w₃, ComesToRedirect env r basic w c g w₃ → r.form .redirectURL = uri →
      accessByCode env (configured opts) r basic w =
        (if accessAccepts env.parse (configured opts) c uri then issue env (configured opts) g []
          else refuse env .invalidRequest []) w₃ := by
  refine ⟨?_, fun failed r => authorizeClient_refuses env _ r failed, ?_⟩
  · have whole : registered c.redirectURL opts.redirectSeparator = [c.redirectURL] := by
      rw [registered]
      rcases apart with none | apart
      · rw [if_neg (not_not.mpr none)]
      · rw [split_apart apart, ite_self]
    rw [authorizeAccepts_iff opts c given, accessAccepts_iff opts c given, whole]
    simp
  · rintro r basic w g w₃ comes rfl
    exact comes.apply _

/-! ## A client with two redirect URIs -/

/-- Options with a separator. -/
private def listOptions : Options := { Options.init with redirectSeparator := [';'] }

private def listClient : Client := { sampleClient with redirectURL := "/a;/b".toList }

theorem redirect_checks_agree_sample :
    authorizeAccepts plainEnv.parse (configured listOptions) sampleClient "/a".toList = true ↔
      accessAccepts plainEnv.parse (configured listOptions) sampleClient "/a".toList = true :=
  (redirect_checks_agree plainEnv listOptions sampleClient "/a".toList (by decide)
    (.inr (by decide))).1

/-- The client, and a grant for its code. -/
private def listWorld : World Record where
  store key :=
    if key = clientPrefix ++ ['c'] then some (.client listClient)
    else if key = grantPrefix ++ ['k'] then
      some (.grant { Grant.zero with code := ['k'], clientID := ['c'], expiresIn := 1 })
    else none
  tick := 0
  log := []
  ctx := .init

/-- A request with the second of the registered URIs. -/
private def secondURI : Request :=
  sampleRequest .authorizationCode fun
    | .redirectURL => "/b".toList
    | .code => ['k']
    | _ => []

/-- The authorize endpoint refuses the redirect URI with which the access endpoint hands out a
token. -/
theorem second_uri_refused :
    authorizeAccepts plainEnv.parse (configured listOptions) listClient "/b".toList = false ∧
    accessAccepts plainEnv.parse (configured listOptions) listClient "/b".toList = true ∧
    (∃ resp w', authorize plainEnv (configured listOptions) secondURI listWorld = .ok resp w' ∧
      resp.data .error = some (.err .invalidRequest)) ∧
    ∃ resp w', access plainEnv (configured listOptions) secondURI listWorld = .ok resp w' ∧
      resp.data .accessToken ≠ none := by
  refine ⟨by decide, by decide, ⟨_, _, rfl, rfl⟩, _, _, rfl, ?_⟩
  exact nofun

end OAuth
