import Vince.OAuthErrors

/-!
# Redeeming refresh tokens

A refresh token is looked up as if it were the code of a grant. No request to the access endpoint
stores a grant under a code, so what is found there was there before the first request. When
something is found, the grant has to be of the client, it must not have a scope, and it has to be
one that can be removed.
-/

namespace OAuth

open GoText Effects

variable {V : Type} (env : Env V)

/-- Nothing fails from here on. -/
structure Steady (w : World V) : Prop where
  fault : ∀ n, w.tick ≤ n → env.fault n = none
  random : ∀ n, w.tick ≤ n → ∃ t, env.random n = some t

section Steadily

variable {env} {w : World V} {E : Failure Err → World V → Prop}

theorem Steady.later (steady : Steady env w) {w' : World V} (later : w'.tick = w.tick + 1) :
    Steady env w' where
  fault n passed := steady.fault n (by omega)
  random n passed := steady.random n (by omega)

theorem Steady.set (steady : Steady env w) {key : Text} {r : Record} {Q : Unit → World V → Prop}
    (holds : ∀ w', Steady env w' →
      w'.store = Function.update w.store key (some (env.encode r)) → Q () w') :
    Ends (OAuth.set env key r) w Q E := by
  rw [Ends, OAuth.set, steady.fault w.tick le_rfl]
  exact holds _ (steady.later rfl) rfl

theorem Steady.remove (steady : Steady env w) {key : Text} {Q : Unit → World V → Prop}
    (holds : ∀ w', Steady env w' → w'.store = Function.update w.store key none → Q () w') :
    Ends (OAuth.remove env key) w Q E := by
  rw [Ends, OAuth.remove, steady.fault w.tick le_rfl]
  exact holds _ (steady.later rfl) rfl

theorem Steady.now (steady : Steady env w) {Q : Time → World V → Prop}
    (holds : ∀ t w', Steady env w' → w'.store = w.store → Q t w') :
    Ends (OAuth.now env) w Q E :=
  holds _ _ (steady.later rfl) rfl

theorem Steady.generate (steady : Steady env w) {Q : Text → World V → Prop}
    (holds : ∀ t w', Steady env w' → w'.store = w.store → Q t w') :
    Ends (OAuth.generate env) w Q E := by
  obtain ⟨t, made⟩ := steady.random w.tick le_rfl
  rw [Ends, OAuth.generate, made]
  exact holds t _ (steady.later rfl) rfl

theorem Steady.find_ok (steady : Steady env w) {α : Type} {decode : V → Option α}
    {deletedAt : α → Time} {key : Text} {a : α} (found : Found decode deletedAt w.store key a) :
    OAuth.find env decode deletedAt key w = .ok a w.tock := by
  obtain ⟨v, stored, decoded⟩ := Option.bind_eq_some_iff.mp found.1
  have got : get env key w = .ok v w.tock := by
    rw [get, steady.fault w.tick le_rfl, stored]
  rw [OAuth.find, bind_ok got, decoded]
  simp only [found.2]
  rfl

theorem Steady.find (steady : Steady env w) {α : Type} {decode : V → Option α}
    {deletedAt : α → Time} {key : Text} {a : α} (found : Found decode deletedAt w.store key a)
    {Q : α → World V → Prop} (holds : ∀ w', Steady env w' → w'.store = w.store → Q a w') :
    Ends (OAuth.find env decode deletedAt key) w Q E := by
  rw [Ends, steady.find_ok found]
  exact holds _ (steady.later rfl) rfl

/-! ## `finalize` succeeds -/

/-- The tokens and the grants with a code are as before. -/
structure Lasting (store store' : Text → Option V) : Prop where
  tokens : ∀ id, store' (tokenPrefix ++ id) = store (tokenPrefix ++ id)
  grants : ∀ id, id ≠ [] → store' (grantPrefix ++ id) = store (grantPrefix ++ id)

theorem Lasting.trans {store store' store'' : Text → Option V} (first : Lasting store store')
    (second : Lasting store' store'') : Lasting store store'' where
  tokens id := (second.tokens id).trans (first.tokens id)
  grants id named := (second.grants id named).trans (first.grants id named)

theorem lasting_update {start : Text} (apart : Apart start) (store : Text → Option V) (key : Text)
    (v : Option V) : Lasting store (Function.update store (start ++ key) v) where
  tokens id := Function.update_of_ne
    (fun same => not_both_begin apart.tokens ⟨id, rfl⟩ ⟨key, same.symm⟩) _ _
  grants id _ := Function.update_of_ne
    (fun same => not_both_begin apart.grants ⟨id, rfl⟩ ⟨key, same.symm⟩) _ _

theorem lasting_unnamed (store : Text → Option V) (v : Option V) :
    Lasting store (Function.update store (grantPrefix ++ []) v) where
  tokens id := Function.update_of_ne
    (fun same => not_both_begin token_apart_grant ⟨id, rfl⟩ ⟨[], same.symm⟩) _ _
  grants _ named :=
    Function.update_of_ne (fun same => named (List.append_cancel_left same)) _ _

theorem Lasting.removable {store store' : Text → Option V} (lasting : Lasting store store')
    {id : Text} (named : id ≠ []) (removable : Removable env store id) :
    Removable env store' id := by
  have token : ∀ {key t}, LiveToken env store key t → LiveToken env store' key t := by
    intro key t live
    rwa [LiveToken, Found, lasting.tokens]
  obtain ⟨g, live, access, refresh⟩ := removable
  refine ⟨g, ?_, fun given => ?_, fun given => ?_⟩
  · rwa [LiveGrant, Found, lasting.grants id named]
  · obtain ⟨t, there⟩ := access given
    exact ⟨t, token there⟩
  · obtain ⟨⟨t, there⟩, two⟩ := refresh given
    exact ⟨⟨t, token there⟩, two⟩

theorem Steady.newToken (steady : Steady env w) (auth : Grant) :
    Ends (OAuth.newToken env auth) w (fun _ w' => Steady env w' ∧ Lasting w.store w'.store) E := by
  refine .bind (steady.generate fun code w₁ steady₁ store₁ => ?_)
  refine .bind (steady₁.now fun time w₂ steady₂ store₂ => ?_)
  refine .bind (steady₂.set fun w₃ steady₃ store₃ => .pure ⟨steady₃, ?_⟩)
  rw [store₃, store₂, store₁]
  exact lasting_update apart_client _ _ _

theorem Steady.saveIndex (steady : Steady env w) {start : Text} (apart : Apart start)
    (key : Text) (g : Grant) :
    Ends (OAuth.saveIndex env start key g) w
      (fun _ w' => Steady env w' ∧ Lasting w.store w'.store) E := by
  rw [OAuth.saveIndex]
  split
  · refine steady.set fun w₁ steady₁ store₁ => ⟨steady₁, ?_⟩
    rw [store₁]
    exact lasting_update apart _ _ _
  · exact .pure ⟨steady, fun _ => rfl, fun _ _ => rfl⟩

theorem Steady.saveGrant (steady : Steady env w) (g : Grant) (unnamed : g.code = []) :
    Ends (OAuth.saveGrant env g) w (fun _ w' => Steady env w' ∧ Lasting w.store w'.store) E := by
  refine .bind (steady.now fun time w₁ steady₁ store₁ => ?_)
  refine .bind ((steady₁.saveIndex apart_grantAccess _ _).mono (fun _ w₂ kept₂ => ?_)
    fun _ _ => id)
  refine .bind ((kept₂.1.saveIndex apart_grantRefresh _ _).mono (fun _ w₃ kept₃ => ?_)
    fun _ _ => id)
  refine .bind (kept₃.1.set fun w₄ steady₄ store₄ => .pure ⟨steady₄, ?_⟩)
  have last : Lasting w₃.store w₄.store := by
    rw [store₄, unnamed]
    exact lasting_unnamed _ _
  exact store₁ ▸ (kept₂.2.trans kept₃.2).trans last

/-- A token that is there is removed, and the others stay. -/
theorem Steady.removeIndex (steady : Steady env w) {start key : Text} (apart : Apart start)
    (there : key ≠ [] → ∃ t, LiveToken env w.store key t) :
    Ends (OAuth.removeIndex env start key) w
      (fun _ w' => Steady env w' ∧
        ∀ id, id ≠ key → w'.store (tokenPrefix ++ id) = w.store (tokenPrefix ++ id)) E := by
  rw [OAuth.removeIndex]
  split
  · rename_i given
    obtain ⟨t, live⟩ := there given
    refine .bind (steady.remove fun w₁ steady₁ store₁ => ?_)
    have lasting : Lasting w.store w₁.store := by
      rw [store₁]
      exact lasting_update apart _ _ _
    have live₁ : LiveToken env w₁.store key t := by
      rwa [LiveToken, Found, lasting.tokens]
    refine .bind (steady₁.find live₁ fun w₂ steady₂ store₂ => ?_)
    refine .bind (steady₂.now fun time w₃ steady₃ store₃ => ?_)
    refine steady₃.set fun w₄ steady₄ store₄ => ⟨steady₄, fun id other => ?_⟩
    rw [store₄, Function.update_of_ne fun same => other (List.append_cancel_left same), store₃,
      store₂, lasting.tokens]
  · exact .pure ⟨steady, fun _ _ => rfl⟩

theorem Steady.removeGrant (steady : Steady env w) {code : Text}
    (removable : Removable env w.store code) :
    Ends (OAuth.removeGrant env code) w (fun _ _ => True) E := by
  obtain ⟨g, live, access, refresh⟩ := removable
  refine .bind (steady.find live fun w₁ steady₁ store₁ => ?_)
  refine .bind (steady₁.now fun time w₂ steady₂ store₂ => ?_)
  have same₂ : w₂.store = w.store := store₂.trans store₁
  refine .bind ((steady₂.removeIndex apart_grantAccess fun given => ?_).mono
    (fun _ w₃ removed => ?_) fun _ _ => id)
  · rw [same₂]
    exact access given
  · obtain ⟨steady₃, others⟩ := removed
    refine .bind ((steady₃.removeIndex apart_grantRefresh fun given => ?_).mono
      (fun _ w₄ removed => ?_) fun _ _ => id)
    · obtain ⟨⟨t, there⟩, two⟩ := refresh given
      refine ⟨t, ?_⟩
      rwa [LiveToken, Found, others _ two, same₂]
    · exact removed.1.set fun _ _ _ => trivial

theorem Steady.finalize (steady : Steady env w) (o : Server) (auth : Grant)
    (removable : auth.code ≠ [] → Removable env w.store auth.code) :
    Ends (OAuth.finalize env o auth) w (fun _ _ => True) E := by
  refine .bind ((steady.newToken auth).mono (fun access w₁ made => ?_) fun _ _ => id)
  refine .bind ((made.1.newToken auth).mono (fun refresh w₂ made' => ?_) fun _ _ => id)
  have unnamed : (accessGrant o auth access.code refresh.code).code = [] := rfl
  refine .bind ((made'.1.saveGrant _ unnamed).mono (fun g w₃ saved => .bind ?_) fun _ _ => id)
  have lasting : Lasting w.store w₃.store := (made.2.trans made'.2).trans saved.2
  show Ends (if auth.code ≠ [] then _ else _) _ _ _
  split
  · rename_i named
    have steady₄ : Steady env
        { w₃ with ctx := { w₃.ctx with data := tokenData o g w₃.ctx.data } } :=
      ⟨saved.1.fault, saved.1.random⟩
    exact steady₄.removeGrant (lasting.removable named (removable named))
  · exact .pure trivial

end Steadily

/-! ## Redeeming -/

/-- The request of a client to redeem a refresh token, with its secret and without a scope. -/
structure Presents (r : Request) (store : Text → Option V) (c : Client) (rt : Text) : Prop where
  post : r.method = .post
  grantType : r.form .grantType = GrantType.refreshToken.name
  refreshToken : r.form .refreshToken = rt
  scope : r.form .scope = []
  secret : ∃ basic, r.basic = some basic ∧ Verified env basic store c

/-- The response to a request has an access token that was made for it. -/
def Succeeds (o : Server) (r : Request) (w : World V) : Prop :=
  ∃ resp w' t n, access env o r w = .ok resp w' ∧ resp.data .accessToken = some (.text t) ∧
    w.tick ≤ n ∧ env.random n = some t

/-- What the server does ask of a refresh token. -/
def Redeemable (store : Text → Option V) (c : Client) (rt : Text) : Prop :=
  ∃ g, LiveGrant env store rt g ∧ g.clientID = c.id ∧ extraScopes g.scope g.scope = false ∧
    (g.code ≠ [] → Removable env store g.code)

section Redeeming

variable {env} {o : Server} {r : Request} {w : World V} {c : Client} {rt : Text}

theorem Found.unique {α : Type} {decode : V → Option α} {deletedAt : α → Time}
    {store : Text → Option V} {key : Text} {a b : α} (first : Found decode deletedAt store key a)
    (second : Found decode deletedAt store key b) : a = b :=
  Option.some.inj (first.1.symm.trans second.1)

theorem Presents.type {store : Text → Option V} (presents : Presents env r store c rt) :
    GrantType.ofText (r.form .grantType) = some .refreshToken := by
  rw [presents.grantType]
  decide

theorem Presents.refreshScope {store : Text → Option V} (presents : Presents env r store c rt)
    (g : Grant) : refreshScope r g = g.scope :=
  if_pos presents.scope

theorem redeemable_of_token (presents : Presents env r w.store c rt) {resp : Response}
    {w' : World V} (ran : access env o r w = .ok resp w')
    (given : resp.data .accessToken ≠ none) :
    o.opts.accessAllowed (r.form .grantType) = true ∧ Redeemable env w.store c rt := by
  obtain ⟨c', g, w₁, granted, finalized, -⟩ := token_issued ran given
  obtain ⟨basic, presented, verified⟩ := presents.secret
  obtain ⟨basic', presented', verified'⟩ := granted.verified
  obtain rfl : basic = basic' := Option.some.inj (presented.symm.trans presented')
  obtain rfl : c = c' := verified.found.unique verified'.found
  have grantFor := granted.grant
  rw [GrantFor, presents.type] at grantFor
  obtain ⟨-, live, same, narrow⟩ := grantFor
  rw [presents.refreshToken] at live
  rw [presents.refreshScope] at narrow
  have removable := ((finalize_ends o w₁).of_ok finalized).2.2.2
  rw [granted.untouched.store] at removable
  exact ⟨granted.allowed, g, live, same, narrow, removable⟩

/-- A request that redeems comes to the grant that is stored under the refresh token. -/
theorem access_redeems (presents : Presents env r w.store c rt) (given : rt ≠ [])
    (steady : Steady env w) (allowed : o.opts.accessAllowed (r.form .grantType) = true) {g : Grant}
    (live : LiveGrant env w.store rt g) (same : g.clientID = c.id)
    (narrow : extraScopes g.scope g.scope = false) :
    access env o r w = issue env o g [] (World.tock (World.tock { w with ctx := .init })) := by
  obtain ⟨basic, presented, verified⟩ := presents.secret
  have begun : Steady env { w with ctx := .init } := ⟨steady.fault, steady.random⟩
  have shown : clientWithSecret env basic { w with ctx := .init } =
      .ok c (World.tock { w with ctx := .init }) := by
    rw [clientWithSecret, client, bind_ok (begun.find_ok verified.found), verified.secret]
    rfl
  have found : grant env rt (World.tock { w with ctx := .init }) =
      .ok g (World.tock (World.tock { w with ctx := .init })) :=
    (begun.later rfl).find_ok live
  have not_get : ¬ (r.method = .get ∧ o.opts.allowGetAccess = false) := by
    rw [presents.post]
    exact nofun
  have began : onContext (fun _ => .init) w = .ok () { w with ctx := .init } := rfl
  rw [access, bind_ok began, if_neg not_get, if_neg (not_not.mpr presents.post), presented]
  show accessBy env o r basic _ = _
  rw [accessBy, if_pos allowed, presents.type]
  show accessByRefresh env o r basic _ = _
  rw [accessByRefresh, presents.refreshToken, if_neg given, withClient,
    bind_ok (attempt_ok shown)]
  show (attempt (grant env rt) >>= _) _ = _
  rw [bind_ok (attempt_ok found)]
  show (if g.clientID ≠ c.id then _ else _ : M V Response) _ = _
  rw [if_neg (not_not.mpr same), presents.refreshScope, if_neg (Bool.eq_false_iff.mp narrow)]

/-- The tokens of the response to a request for which `finalize` went through. -/
theorem finalized_data {g : Grant} {w₁ w' : World V} (begun : w₁.ctx = .init)
    (finalized : finalize env o g w₁ = .ok () w') :
    ∃ token refresh n, env.random w₁.tick = some token ∧ env.random n = some refresh ∧
      (w'.ctx.commit env.parse).data .accessToken = some (.text token) ∧
      (w'.ctx.commit env.parse).data .refreshToken = some (.text refresh) := by
  obtain ⟨g', n, random, random', filled⟩ := (finalize_fills o g w₁).of_ok finalized
  rw [filled, begun]
  exact ⟨_, _, n, random, random', tokenData_apply o g' _ (by decide),
    tokenData_apply o g' _ (by decide)⟩

theorem succeeds_of_redeemable (presents : Presents env r w.store c rt) (given : rt ≠ [])
    (steady : Steady env w) (allowed : o.opts.accessAllowed (r.form .grantType) = true)
    (redeemable : Redeemable env w.store c rt) : Succeeds env o r w := by
  obtain ⟨g, live, same, narrow, removable⟩ := redeemable
  let w₁ : World V := World.tock (World.tock { w with ctx := .init })
  have ran : access env o r w = issue env o g [] w₁ :=
    access_redeems presents given steady allowed live same narrow
  have steady₁ : Steady env w₁ :=
    ⟨fun n passed => steady.fault n (Nat.le_of_add_right_le (k := 2) passed),
      fun n passed => steady.random n (Nat.le_of_add_right_le (k := 2) passed)⟩
  obtain ⟨⟨⟩, w', finalized, -⟩ := (steady₁.finalize o g removable).exists_ok
  obtain ⟨t, -, -, random, -, token, -⟩ := finalized_data rfl finalized
  have issued : issue env o g [] w₁ = .ok (w'.ctx.commit env.parse) w' := by
    rw [issue, bind_ok (attempt_ok finalized)]
    rfl
  exact ⟨_, w', t, w.tick + 2, ran.trans issued, token, Nat.le_add_right _ 2, random⟩

end Redeeming

/-! ## Runs -/

/-- A request whose response has a refresh token for a client. -/
structure HandsOut (o : Server) (r : Request) (w : World V) (c : Client) (rt : Text) : Prop where
  answered : ∃ resp w', access env o r w = .ok resp w' ∧ resp.data .accessToken ≠ none ∧
    resp.data .refreshToken = some (.text rt)
  client : ∃ basic c', r.basic = some basic ∧ Verified env basic w.store c' ∧ c'.id = c.id

/-- Grants with a code are none but old ones. -/
def OldGrants (w w' : World V) : Prop :=
  ∀ id g, id ≠ [] → LiveGrant env w'.store id g → LiveGrant env w.store id g

instance : Std.Refl (OldGrants env) := ⟨fun _ _ _ _ live => live⟩

instance : IsTrans (World V) (OldGrants env) :=
  ⟨fun _ _ _ first second id g named live => first id g named (second id g named live)⟩

section Runs

variable {env} {o : Server} {r : Request} {w w' w'' : World V} {c : Client} {rt : Text}

theorem Untouched.oldGrants (untouched : Untouched w w') : OldGrants env w w' := by
  intro id g _ live
  rwa [untouched.store] at live

theorem Issued.oldGrants {auth : Grant} (issued : Issued env auth w w') : OldGrants env w w' :=
  issued.old_grants

theorem access_oldGrants (o : Server) (r : Request) : Keeps (OldGrants env) (access env o r) := by
  have trans : ∀ {w w' w'' : World V}, OldGrants env w w' → OldGrants env w' w'' →
      OldGrants env w w'' := IsTrans.trans _ _ _
  intro w
  refine (access_ends env o r w).mono (fun resp w' answered => ?_) fun failure w' broken => ?_
  · rcases answered with ⟨untouched, -⟩ | ⟨c, g, w₁, granted, issued⟩
    · exact untouched.oldGrants
    · refine trans granted.untouched.oldGrants ?_
      rcases (issue_ends o g [] w₁).of_ok issued with ⟨-, w₂, issued, untouched⟩ | ⟨finalized, -⟩
      · exact trans issued.oldGrants untouched.oldGrants
      · exact ((finalize_ends o w₁).of_ok finalized).1.oldGrants
  · rcases broken with untouched | ⟨c, g, w₁, granted, issued⟩
    · exact untouched.oldGrants
    · exact trans granted.untouched.oldGrants ((issue_ends o g [] w₁).of_error issued).oldGrants

theorem HandsOut.given (handed : HandsOut env o r w c rt) : rt ≠ [] := by
  obtain ⟨resp, w', ran, token, refresh⟩ := handed.answered
  obtain ⟨c', g, w₁, granted, finalized, rfl⟩ := token_issued ran token
  obtain ⟨-, rt', n, -, random, -, refresh'⟩ := finalized_data granted.ctx finalized
  cases refresh.symm.trans refresh'
  exact env.random_ne n rt random

end Runs

/-- After any run in which a refresh token was handed out, and whatever came of the other requests:
its client can redeem it iff the store has a live grant with the refresh token as its code, and
such a grant is there only if it was there when the run began. -/
theorem refresh_redeems_iff {env : Env V} {o : Server} {w₀ w : World V}
    {earlier later : List Request} {first r : Request} {c : Client} {rt : Text}
    (ran : run (access env o) w₀ (earlier ++ first :: later) = w)
    (handed : HandsOut env o first (run (access env o) w₀ earlier) c rt)
    (presents : Presents env r w.store c rt) (steady : Steady env w) :
    (Succeeds env o r w ↔
      o.opts.accessAllowed GrantType.refreshToken.name = true ∧ Redeemable env w.store c rt) ∧
    (Redeemable env w.store c rt → ∃ g, LiveGrant env w₀.store rt g) := by
  rw [← presents.grantType]
  constructor
  · constructor
    · rintro ⟨resp, w', t, -, ended, token, -⟩
      refine redeemable_of_token presents ended ?_
      rw [token]
      exact nofun
    · rintro ⟨allowed, redeemable⟩
      exact succeeds_of_redeemable presents handed.given steady allowed redeemable
  · rintro ⟨g, live, -⟩
    have old : OldGrants env w₀ w := ran ▸ Keeps.run (access_oldGrants o) w₀ _
    exact ⟨g, old rt g handed.given live⟩

/-! ## A token and its redemption -/

/-- The refresh token that the first request gets in the plain surroundings. -/
def firstRefresh : Text := ['t', 't', 't', 't', 't']

def redemption : Request :=
  sampleRequest .refreshToken fun
    | .refreshToken => firstRefresh
    | _ => []

theorem plainEnv_steady (w : World Record) : Steady plainEnv w :=
  ⟨fun _ _ => rfl, fun _ _ => ⟨_, rfl⟩⟩

theorem sampleWorld_handsOut (grants : List (Text × Grant)) :
    HandsOut plainEnv sampleServer (sampleRequest .clientCredentials fun _ => [])
      (sampleWorld grants) sampleClient firstRefresh where
  answered := ⟨_, _, rfl, nofun, rfl⟩
  client := ⟨_, sampleClient, rfl, ⟨⟨rfl, rfl⟩, rfl⟩, rfl⟩

theorem redemption_presents (grants : List (Text × Grant)) :
    Presents plainEnv redemption (run (access plainEnv sampleServer) (sampleWorld grants)
      [sampleRequest .clientCredentials fun _ => []]).store sampleClient firstRefresh where
  post := rfl
  grantType := rfl
  refreshToken := rfl
  scope := rfl
  secret := ⟨_, rfl, ⟨rfl, rfl⟩, rfl⟩

/-- A grant of the client that happens to have the refresh token as its code. -/
theorem refresh_redeems_of_old_grant :
    Succeeds plainEnv sampleServer redemption (run (access plainEnv sampleServer)
      (sampleWorld [(grantPrefix ++ firstRefresh, { Grant.zero with clientID := ['c'] })])
      [sampleRequest .clientCredentials fun _ => []]) := by
  let w₀ := sampleWorld [(grantPrefix ++ firstRefresh, { Grant.zero with clientID := ['c'] })]
  have ran : run (access plainEnv sampleServer) w₀
      ([] ++ sampleRequest .clientCredentials (fun _ => []) :: []) = _ := rfl
  refine (refresh_redeems_iff ran (sampleWorld_handsOut _) (redemption_presents _)
    (plainEnv_steady _)).1.mpr ⟨rfl, ?_⟩
  exact ⟨{ Grant.zero with clientID := ['c'] }, ⟨rfl, rfl⟩, rfl, rfl, nofun⟩

/-- The client gets a refresh token, presents it at once, and is refused. -/
theorem refresh_token_refused :
    HandsOut plainEnv sampleServer (sampleRequest .clientCredentials fun _ => [])
        (sampleWorld []) sampleClient firstRefresh ∧
      Presents plainEnv redemption (run (access plainEnv sampleServer) (sampleWorld [])
        [sampleRequest .clientCredentials fun _ => []]).store sampleClient firstRefresh ∧
      ∃ resp w', access plainEnv sampleServer redemption (run (access plainEnv sampleServer)
          (sampleWorld []) [sampleRequest .clientCredentials fun _ => []]) = .ok resp w' ∧
        resp.data .error = some (.err .invalidGrant) ∧ resp.data .accessToken = none :=
  ⟨sampleWorld_handsOut [], redemption_presents [], _, _, rfl, rfl, rfl⟩

end OAuth
