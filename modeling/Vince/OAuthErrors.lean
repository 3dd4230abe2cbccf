import Vince.OAuthIssue
import Vince.OAuthWrites

/-!
# Responses with an error

`error` enters the data of a response in one place, which clears the rest first, and after which
the response is committed. So it is enough that nothing that goes on leaves an error behind.
-/

namespace OAuth

open GoText Effects

variable {V : Type} {env : Env V}

/-- Data that does not have an error together with a token or code. -/
def Clean (data : Data) : Prop := data .error = none ∨ Bare data

theorem clean_commit {parse : Text → Option URL} {ctx : Context} (clean : Clean ctx.data) :
    Clean (ctx.commit parse).data := by
  rw [Context.commit]
  split
  · split
    · exact clean
    · exact Or.inl rfl
  · exact clean

/-! ## What is done to the context -/

def SameContext (w w' : World V) : Prop := w'.ctx = w.ctx

instance : Std.Refl (SameContext (V := V)) := ⟨fun _ => rfl⟩

instance : IsTrans (World V) SameContext := ⟨fun _ _ _ first second => second.trans first⟩

/-- Nothing but `onContext` touches the context. -/
theorem sameContext_respects :
    Respects env (fun _ _ => True) (fun _ => True) SameContext where
  reads read := read.ctx
  set {key r} _ w := by
    rw [Ends, set]
    cases env.fault w.tick with
    | some e => rfl
    | none => rfl
  remove {key} _ w := by
    rw [Ends, remove]
    cases env.fault w.tick with
    | some e => rfl
    | none => rfl

theorem set_sameContext (key : Text) (r : Record) : Keeps SameContext (set env key r) :=
  sameContext_respects.set trivial

theorem saveIndex_sameContext (start key : Text) (g : Grant) :
    Keeps SameContext (saveIndex env start key g) :=
  sameContext_respects.saveIndex fun _ => trivial

theorem removeGrant_sameContext (id : Text) : Keeps SameContext (removeGrant env id) :=
  sameContext_respects.removeGrant (fun _ => ⟨trivial, trivial⟩) (fun _ _ _ _ => trivial)
    fun _ _ _ => trivial

theorem newToken_code (auth : Grant) (w : World V) :
    Ends (newToken env auth) w
      (fun t w' => env.random w.tick = some t.code ∧ SameContext w w') fun _ _ => True := by
  refine .bind ?_
  rw [Ends, generate]
  cases made : env.random w.tick with
  | none => trivial
  | some code =>
    refine .bind (.bind ?_)
    exact (set_sameContext _ _ _).mono (fun _ _ same => ⟨rfl, same⟩) fun _ _ _ => trivial

/-- What `finalize` has put into the response when it succeeds: the first random text it has asked
for is the access token, and a later one the refresh token. -/
theorem finalize_fills (o : Server) (auth : Grant) (w : World V) :
    Ends (finalize env o auth) w
      (fun _ w' => ∃ g n, env.random w.tick = some g.accessToken ∧
        env.random n = some g.refreshToken ∧
        w'.ctx = { w.ctx with data := tokenData o g w.ctx.data }) fun _ _ => True := by
  refine .bind ((newToken_code auth w).mono (fun access w₁ made => ?_) fun _ _ => id)
  obtain ⟨random, same₁⟩ := made
  refine .bind ((newToken_code auth w₁).mono (fun refresh w₂ made => ?_) fun _ _ => id)
  obtain ⟨random', same₂⟩ := made
  have saved : Ends (saveGrant env (accessGrant o auth access.code refresh.code)) w₂
      (fun g w₃ => g.accessToken = access.code ∧ g.refreshToken = refresh.code ∧
        SameContext w₂ w₃) fun _ _ => True := by
    refine .bind (.bind ((saveIndex_sameContext _ _ _ _).mono (fun _ w₃ same₃ => ?_)
      fun _ _ _ => trivial))
    refine .bind ((saveIndex_sameContext _ _ _ _).mono (fun _ w₄ same₄ => ?_) fun _ _ _ => trivial)
    refine .bind ((set_sameContext _ _ _).mono (fun _ w₅ same₅ => ?_) fun _ _ _ => trivial)
    exact .pure ⟨rfl, rfl, same₅.trans (same₄.trans same₃)⟩
  refine .bind (saved.mono (fun g w₃ saved => .bind ?_) fun _ _ => id)
  obtain ⟨access_eq, refresh_eq, same₃⟩ := saved
  have kept : w₃.ctx = w.ctx := same₃.trans (same₂.trans same₁)
  have filled :
      ({ w₃ with ctx := { w₃.ctx with data := tokenData o g w₃.ctx.data } } : World V).ctx =
        { w.ctx with data := tokenData o g w.ctx.data } := by
    rw [kept]
  rw [← access_eq] at random
  rw [← refresh_eq] at random'
  show Ends (if auth.code ≠ [] then _ else _) _ _ _
  split
  · exact (removeGrant_sameContext _ _).mono
      (fun _ w₅ same => ⟨g, w₁.tick, random, random', same.trans filled⟩) fun _ _ _ => trivial
  · exact .pure ⟨g, w₁.tick, random, random', filled⟩

/-! ## The endpoints -/

/-- A computation after which the response is clean, if there is one. -/
def AnswersClean (m : M V Response) (w : World V) : Prop :=
  Ends m w (fun resp _ => Clean resp.data) fun _ _ => True

theorem refuse_clean (key : ErrKey) (state : Text) (w : World V) :
    AnswersClean (refuse env key state) w :=
  (refuse_ends env key state w fun _ _ => True).mono (fun _ _ refused => Or.inr refused.2)
    fun _ _ => id

/-- There is no error in the data so far. -/
def NoError (w : World V) : Prop := w.ctx.data .error = none

theorem NoError.same {w w' : World V} (clean : NoError w) (same : SameContext w w') :
    NoError w' := by
  rwa [NoError, same]

theorem orServerError_clean {α : Type} {r : Request} {m : M V α} {next : α → M V Response}
    {w : World V} (keeps : ∀ a w', m w = .ok a w' → NoError w')
    (goes_on : ∀ a w', NoError w' → AnswersClean (next a) w') :
    AnswersClean (orServerError env r m next) w := by
  refine .attempt_bind (fun a w' ran => ?_) (fun e w' _ => ?_) fun _ _ => trivial
  · exact goes_on a w' (keeps a w' ran)
  · exact refuse_clean _ _ w'

theorem NoError.keeps {α : Type} {m : M V α} {w : World V} (clean : NoError w)
    (keeps : Keeps SameContext m) : ∀ a w', m w = .ok a w' → NoError w' :=
  fun _ _ ran => clean.same ((keeps w).of_ok ran)

theorem authorizeCode_clean (r : Request) (c : Client) (usr : User) {w : World V}
    (clean : NoError w) : AnswersClean (authorizeCode env r c usr) w := by
  refine orServerError_clean (clean.keeps sameContext_respects.generate) fun code w₁ clean₁ => ?_
  refine orServerError_clean (clean₁.keeps (sameContext_respects.saveGrant fun _ _ _ => trivial))
    fun g w₂ clean₂ => ?_
  refine orServerError_clean (clean₂.keeps (sameContext_respects.saveUser fun _ => trivial))
    fun _ w₃ clean₃ => ?_
  refine orServerError_clean (clean₃.keeps (sameContext_respects.saveClient fun _ _ => trivial))
    fun _ w₄ clean₄ => ?_
  exact clean_commit (Or.inl clean₄)

theorem authorizeToken_clean (o : Server) (r : Request) (c : Client) (usr : User)
    (redirectURI : Text) {w : World V} (clean : NoError w) :
    AnswersClean (authorizeToken env o r c usr redirectURI) w := by
  refine orServerError_clean (clean.keeps sameContext_respects.generate) fun code w₁ clean₁ => ?_
  refine .bind ?_
  refine orServerError_clean (fun _ w₂ ran => ?_) fun _ w₂ clean₂ => ?_
  · exact ((finalize_ends o _).of_ok ran).1.error.trans clean₁
  · refine clean_commit (Or.inl ?_)
    split
    · exact clean₂
    · exact clean₂

theorem login_clean (r : Request) (w : World V) :
    Ends (login env r) w (fun _ w' => SameContext w w') fun _ _ => True := by
  rw [login]
  split
  · refine .attempt_bind (fun u w' ran => ?_) (fun e w' ran => ?_) fun _ _ => trivial
    · exact ((valid_ends env _ _ w).of_ok ran).elim
    · exact .pure ((valid_ends env _ _ w).of_error ran).ctx
  · exact .pure rfl

theorem authorize_clean (env : Env V) (o : Server) (r : Request) (w : World V) :
    AnswersClean (authorize env o r) w := by
  refine .bind ?_
  have begun : NoError { w with ctx := .init } := rfl
  cases env.queryUnescape (r.form .redirectURL) with
  | none => exact refuse_clean _ _ _
  | some requested =>
    refine .attempt_bind (fun c w₁ ran => ?_) (fun e w₁ _ => refuse_clean _ _ w₁)
      fun _ _ => trivial
    have clean₁ := begun.same ((find_ends env _ _ _ _).of_ok ran).1.ctx
    show AnswersClean (authorizeClient env o r c requested) w₁
    rw [authorizeClient]
    split
    · exact refuse_clean _ _ w₁
    · split
      · exact refuse_clean _ _ w₁
      · refine .bind (.bind ((login_clean r _).mono (fun usr w₂ same => ?_) fun _ _ => id))
        have redirected : NoError
            { w₁ with ctx := w₁.ctx.setRedirect (authorizeRedirect o c requested) } := clean₁
        have clean₂ : NoError w₂ := redirected.same same
        cases usr with
        | none => exact Or.inl rfl
        | some usr =>
          show AnswersClean (if _ then _ else _) w₂
          split
          · exact authorizeCode_clean r c usr clean₂
          · split
            · exact authorizeToken_clean o r c usr _ clean₂
            · exact refuse_clean _ _ w₂

theorem access_clean (env : Env V) (o : Server) (r : Request) (w : World V) :
    AnswersClean (access env o r) w := by
  refine (access_ends env o r w).mono (fun resp w' answered => ?_) fun _ _ _ => trivial
  rcases answered with ⟨-, bare⟩ | ⟨c, g, w₁, granted, issued⟩
  · exact Or.inr bare
  · rcases (issue_ends o g [] w₁).of_ok issued with ⟨bare, -⟩ | ⟨finalized, rfl⟩
    · exact Or.inr bare
    · refine clean_commit (Or.inl ?_)
      rw [((finalize_ends o w₁).of_ok finalized).1.error, granted.ctx]
      rfl

/-- Whatever fails on the way, no endpoint answers with an error together with a credential. -/
theorem no_credential_with_error (env : Env V) (o : Server) (r : Request) (w : World V) :
    (∀ resp w', access env o r w = .ok resp w' → resp.data .error ≠ none →
      resp.data .accessToken = none ∧ resp.data .refreshToken = none ∧
        resp.data .code = none) ∧
    ∀ resp w', authorize env o r w = .ok resp w' → resp.data .error ≠ none →
      resp.data .accessToken = none ∧ resp.data .refreshToken = none ∧
        resp.data .code = none := by
  have bare_of_error : ∀ {data : Data}, Clean data → data .error ≠ none →
      data .accessToken = none ∧ data .refreshToken = none ∧ data .code = none := by
    rintro data (no_error | bare) error
    · exact absurd no_error error
    · exact ⟨bare.accessToken, bare.refreshToken, bare.code⟩
  constructor
  · intro resp w' ran
    exact bare_of_error ((access_clean env o r w).of_ok ran)
  · intro resp w' ran
    exact bare_of_error ((authorize_clean env o r w).of_ok ran)

/-- A grant with an access token that is not in the store. -/
def staleGrant : Grant :=
  { Grant.zero with code := ['k'], clientID := ['c'], accessToken := ['a'] }

/-- Such a grant cannot be removed. So `finalize` fails when it has put the new tokens into the
response, and they are not in what is committed. -/
theorem no_credential_after_failed_finalize :
    ∃ resp w', access plainEnv sampleServer (sampleRequest .refreshToken fun _ => ['k'])
        (sampleWorld [(grantPrefix ++ ['k'], staleGrant)]) = .ok resp w' ∧
      resp.data .error = some (.err .serverError) ∧
      resp.data .accessToken = none ∧ resp.data .refreshToken = none ∧
        resp.data .code = none := by
  obtain ⟨resp, w', ran, failed⟩ : ∃ resp w', access plainEnv sampleServer
      (sampleRequest .refreshToken fun _ => ['k'])
      (sampleWorld [(grantPrefix ++ ['k'], staleGrant)]) = .ok resp w' ∧
        resp.data .error = some (.err .serverError) := ⟨_, _, rfl, rfl⟩
  have error : resp.data .error ≠ none := by
    rw [failed]
    exact nofun
  exact ⟨resp, w', ran, failed,
    (no_credential_with_error plainEnv sampleServer _ _).1 resp w' ran error⟩

end OAuth
