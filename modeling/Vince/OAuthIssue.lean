import Vince.OAuthAccess

/-!
# What `finalize` leaves behind

All that `finalize` writes is new and bears the client of the grant it is given, or it is an old
record that is marked as deleted. So no token and no grant with a code is there afterwards that was
not there before, whether `finalize` fails on the way or not.
-/

namespace OAuth

open GoText Effects

variable {V : Type} (env : Env V)

def LiveToken (store : Text → Option V) (id : Text) (t : Token) : Prop :=
  Found env.toToken Token.deletedAt store (tokenPrefix ++ id) t

def LiveGrant (store : Text → Option V) (id : Text) (g : Grant) : Prop :=
  Found env.toGrant Grant.deletedAt store (grantPrefix ++ id) g

/-- A record for the client of a grant. -/
def BoundTo (auth : Grant) : Record → Prop
  | .token t => t.clientID = auth.clientID
  | .grant g => g.clientID = auth.clientID
  | _ => False

/-- A record whose tokens are those of one in the store. -/
def Known (store : Text → Option V) : Record → Prop
  | .token t => ∃ id old, LiveToken env store id old ∧ old.code = t.code
  | .grant g => ∃ id old, id ≠ [] ∧ LiveGrant env store id old ∧
      old.accessToken = g.accessToken ∧ old.refreshToken = g.refreshToken
  | _ => False

/-- What holds between the states before and after any part of `finalize`. -/
structure Issued (auth : Grant) (w w' : World V) : Prop where
  old_tokens : ∀ id t, LiveToken env w'.store id t → LiveToken env w.store id t
  old_grants : ∀ id g, id ≠ [] → LiveGrant env w'.store id g → LiveGrant env w.store id g
  log : ∃ new, w'.log = new ++ w.log ∧
    ∀ entry ∈ new, BoundTo auth entry.2 ∨ Known env w.store entry.2
  error : w'.ctx.data .error = w.ctx.data .error
  accessToken : w.ctx.data .accessToken ≠ none → w'.ctx.data .accessToken ≠ none
  kind : w'.ctx.kind = w.ctx.kind

section Relation

variable {env} {auth : Grant} {w w' w'' : World V}

theorem issued_of_same (store : w'.store = w.store) (log : w'.log = w.log)
    (ctx : w'.ctx = w.ctx) : Issued env auth w w' where
  old_tokens _ _ live := store ▸ live
  old_grants _ _ _ live := store ▸ live
  log := ⟨[], log, List.forall_mem_nil _⟩
  error := by rw [ctx]
  accessToken given := by rwa [ctx]
  kind := by rw [ctx]

theorem Reads.issued (reads : Reads w w') : Issued env auth w w' :=
  issued_of_same reads.store reads.log reads.ctx

theorem Issued.known (issued : Issued env auth w w') {r : Record} (known : Known env w'.store r) :
    Known env w.store r := by
  cases r with
  | token t =>
    obtain ⟨id, old, live, code⟩ := known
    exact ⟨id, old, issued.old_tokens id old live, code⟩
  | grant g =>
    obtain ⟨id, old, named, live, tokens⟩ := known
    exact ⟨id, old, named, issued.old_grants id old named live, tokens⟩
  | user u => exact known
  | client c => exact known

theorem Issued.trans (first : Issued env auth w w') (second : Issued env auth w' w'') :
    Issued env auth w w'' where
  old_tokens id t live := first.old_tokens id t (second.old_tokens id t live)
  old_grants id g named live := first.old_grants id g named (second.old_grants id g named live)
  log := by
    obtain ⟨new, log, bound⟩ := first.log
    obtain ⟨new', log', bound'⟩ := second.log
    refine ⟨new' ++ new, by rw [log', log, List.append_assoc], fun entry member => ?_⟩
    rcases List.mem_append.mp member with member | member
    · exact (bound' entry member).imp_right first.known
    · exact bound entry member
  error := second.error.trans first.error
  accessToken given := second.accessToken (first.accessToken given)
  kind := second.kind.trans first.kind

end Relation

instance (auth : Grant) : Std.Refl (Issued env auth) := ⟨fun _ => issued_of_same rfl rfl rfl⟩

instance (auth : Grant) : IsTrans (World V) (Issued env auth) :=
  ⟨fun _ _ _ first second => first.trans second⟩

/-! ## Writing -/

/-- A key and a record after which no lookup finds a new token or a new grant with a code. -/
structure Harmless (key : Text) (r : Record) : Prop where
  tokens : (¬ tokenPrefix <+: key) ∨ ∃ t, r = .token t ∧ t.deletedAt ≠ 0
  grants : (∀ id, id ≠ [] → key ≠ grantPrefix ++ id) ∨ ∃ g, r = .grant g ∧ g.deletedAt ≠ 0

section Writing

variable {env} {auth : Grant}

theorem token_apart_grant : ¬ tokenPrefix <+: grantPrefix ∧ ¬ grantPrefix <+: tokenPrefix := by
  decide

/-- A record that is marked as deleted is not found. -/
theorem not_found_update {α : Type} {decode : V → Option α} {deletedAt : α → Time}
    {store : Text → Option V} {key : Text} {v : V} {old : α} (decoded : decode v = some old)
    (deleted : deletedAt old ≠ 0) (a : α) :
    ¬ Found decode deletedAt (Function.update store key (some v)) key a := by
  rintro ⟨found, live⟩
  rw [Function.update_self, Option.bind_some, decoded] at found
  cases found
  exact deleted live

theorem found_of_update {α : Type} {decode : V → Option α} {deletedAt : α → Time}
    {store : Text → Option V} {key k : Text} {v : Option V} {a : α} (other : k ≠ key)
    (found : Found decode deletedAt (Function.update store key v) k a) :
    Found decode deletedAt store k a := by
  rwa [Found, Function.update_of_ne other] at found

theorem Issued.set {w w' : World V} (issued : Issued env auth w w') {key : Text} {r : Record}
    (harmless : Harmless key r) (written : BoundTo auth r ∨ Known env w.store r) :
    Ends (OAuth.set env key r) w' (fun _ => Issued env auth w) fun _ => Issued env auth w := by
  rw [Ends, OAuth.set]
  cases env.fault w'.tick with
  | some e => exact issued.trans (issued_of_same rfl rfl rfl)
  | none =>
    refine ⟨fun id t live => issued.old_tokens id t ?_,
      fun id g named live => issued.old_grants id g named ?_, ?_, issued.error,
      issued.accessToken, issued.kind⟩
    · by_cases same : tokenPrefix ++ id = key
      · rcases harmless.tokens with apart | ⟨t', rfl, deleted⟩
        · exact absurd ⟨id, same⟩ apart
        · subst same
          exact absurd live (not_found_update (env.toToken_encode t') deleted t)
      · exact found_of_update same live
    · by_cases same : grantPrefix ++ id = key
      · rcases harmless.grants with apart | ⟨g', rfl, deleted⟩
        · exact absurd same.symm (apart id named)
        · subst same
          exact absurd live (not_found_update (env.toGrant_encode g') deleted g)
      · exact found_of_update same live
    · obtain ⟨new, log, bound⟩ := issued.log
      refine ⟨(key, r) :: new, congrArg (List.cons (key, r)) log, fun entry member => ?_⟩
      rcases List.mem_cons.mp member with rfl | member
      · exact written
      · exact bound entry member

theorem remove_issued (auth : Grant) (key : Text) :
    Keeps (Issued env auth) (remove env key) := by
  intro w
  rw [Ends, remove]
  cases env.fault w.tick with
  | some e => exact issued_of_same rfl rfl rfl
  | none =>
    have old : ∀ {α : Type} {decode : V → Option α} {deletedAt : α → Time} {k : Text} {a : α},
        Found decode deletedAt (Function.update w.store key none) k a →
          Found decode deletedAt w.store k a := by
      intro α decode deletedAt k a found
      by_cases same : k = key
      · rw [Found, same, Function.update_self] at found
        cases found.1
      · exact found_of_update same found
    exact ⟨fun _ _ live => old live, fun _ _ _ live => old live, ⟨[], rfl, List.forall_mem_nil _⟩,
      rfl, id, rfl⟩

/-! ## Removing -/

theorem removeToken_ends (id : Text) (w : World V) :
    Ends (removeToken env id) w
      (fun _ w' => Issued env auth w w' ∧ (∃ t, LiveToken env w.store id t) ∧
        ∀ t, ¬ LiveToken env w'.store id t)
      fun _ => Issued env auth w := by
  refine .bind ((find_ends env _ _ _ w).mono (fun tok w₁ found => ?_) fun _ _ => Reads.issued)
  obtain ⟨reads, live⟩ := found
  refine now_bind env fun time w₂ reads' nonzero => ?_
  have known : Known env w.store (.token { tok with deletedAt := time }) := ⟨id, tok, live, rfl⟩
  have harmless : Harmless (tokenPrefix ++ id) (.token { tok with deletedAt := time }) := by
    refine ⟨Or.inr ⟨_, rfl, nonzero⟩, Or.inl fun id' _ same => ?_⟩
    exact not_both_begin token_apart_grant ⟨id, rfl⟩ ⟨id', same.symm⟩
  have before : Issued env auth w w₂ := reads.issued.trans reads'.issued
  have issued := before.set harmless (Or.inr known)
  refine .intro (fun a w₃ ran => ?_) fun e w₃ ran => issued.of_error ran
  refine ⟨issued.of_ok ran, ⟨tok, live⟩, ?_⟩
  rw [OAuth.set] at ran
  split at ran
  · cases ran
  · cases ran
    exact not_found_update (env.toToken_encode _) nonzero

theorem removeIndex_ends (start key : Text) (w : World V) :
    Ends (removeIndex env start key) w
      (fun _ w' => Issued env auth w w' ∧ (key ≠ [] → (∃ t, LiveToken env w.store key t) ∧
        ∀ t, ¬ LiveToken env w'.store key t))
      fun _ => Issued env auth w := by
  rw [removeIndex]
  split
  · refine .bind ((remove_issued auth (start ++ key) w).mono (fun _ w₁ issued => ?_)
      fun _ _ => id)
    refine (removeToken_ends key w₁).mono (fun _ w₂ removed => ?_) fun _ _ => issued.trans
    obtain ⟨issued', ⟨t, live⟩, gone⟩ := removed
    exact ⟨issued.trans issued', fun _ => ⟨⟨t, issued.old_tokens key t live⟩, gone⟩⟩
  · rename_i empty
    exact .pure ⟨issued_of_same rfl rfl rfl, fun given => absurd given empty⟩

end Writing

/-- What it takes to remove a grant: it is there, its tokens are there, and they are two. -/
def Removable (store : Text → Option V) (id : Text) : Prop :=
  ∃ g, LiveGrant env store id g ∧
    (g.accessToken ≠ [] → ∃ t, LiveToken env store g.accessToken t) ∧
    (g.refreshToken ≠ [] → (∃ t, LiveToken env store g.refreshToken t) ∧
      g.refreshToken ≠ g.accessToken)

section Removing

variable {env} {auth : Grant}

theorem Issued.removable {w w' : World V} (issued : Issued env auth w w') {id : Text}
    (named : id ≠ []) (removable : Removable env w'.store id) : Removable env w.store id := by
  obtain ⟨g, live, access, refresh⟩ := removable
  refine ⟨g, issued.old_grants id g named live, fun given => ?_, fun given => ?_⟩
  · obtain ⟨t, live⟩ := access given
    exact ⟨t, issued.old_tokens _ t live⟩
  · obtain ⟨⟨t, live⟩, two⟩ := refresh given
    exact ⟨⟨t, issued.old_tokens _ t live⟩, two⟩

theorem removeGrant_ends {id : Text} (named : id ≠ []) (w : World V) :
    Ends (removeGrant env id) w (fun _ w' => Issued env auth w w' ∧ Removable env w.store id)
      fun _ => Issued env auth w := by
  refine .bind ((find_ends env _ _ _ w).mono (fun g w₁ found => ?_) fun _ _ => Reads.issued)
  obtain ⟨reads, live⟩ := found
  refine now_bind env fun time w₂ reads' nonzero => ?_
  have to₂ : Issued env auth w w₂ := reads.issued.trans reads'.issued
  have store₂ : w₂.store = w.store := reads'.store.trans reads.store
  refine .bind ((removeIndex_ends _ _ w₂).mono (fun _ w₃ removed => ?_) fun _ _ => to₂.trans)
  obtain ⟨issued₃, access⟩ := removed
  have to₃ := to₂.trans issued₃
  refine .bind ((removeIndex_ends _ _ w₃).mono (fun _ w₄ removed => ?_) fun _ _ => to₃.trans)
  obtain ⟨issued₄, refresh⟩ := removed
  have to₄ := to₃.trans issued₄
  have removable : Removable env w.store id := by
    refine ⟨g, live, fun given => store₂ ▸ (access given).1, fun given => ?_⟩
    obtain ⟨t, live_t⟩ := (refresh given).1
    refine ⟨⟨t, to₃.old_tokens _ t live_t⟩, fun same => ?_⟩
    rw [same] at given live_t
    exact (access given).2 t live_t
  have known : Known env w.store (.grant { g with deletedAt := time }) :=
    ⟨id, g, named, live, rfl, rfl⟩
  have harmless : Harmless (grantPrefix ++ id) (.grant { g with deletedAt := time }) := by
    refine ⟨Or.inl fun begins => ?_, Or.inr ⟨_, rfl, nonzero⟩⟩
    exact not_both_begin token_apart_grant begins ⟨id, rfl⟩
  exact (to₄.set harmless (Or.inr known)).mono (fun _ _ issued => ⟨issued, removable⟩)
    fun _ _ issued => issued

end Removing

/-! ## Issuing -/

/-- The log has a token with a random code for the client of the grant. -/
def LogsToken (auth : Grant) (w w' : World V) : Prop :=
  ∃ new, w'.log = new ++ w.log ∧ ∃ entry ∈ new, ∃ t n, entry.2 = .token t ∧
    env.random n = some t.code ∧ t.clientID = auth.clientID

section Issuing

variable {env} {auth : Grant}

/-- A family of keys that is neither that of tokens nor that of grants. -/
structure Apart (start : Text) : Prop where
  tokens : ¬ tokenPrefix <+: start ∧ ¬ start <+: tokenPrefix
  grants : ¬ grantPrefix <+: start ∧ ¬ start <+: grantPrefix

theorem Apart.harmless {start : Text} (apart : Apart start) (key : Text) (r : Record) :
    Harmless (start ++ key) r where
  tokens := Or.inl fun begins => not_both_begin apart.tokens begins ⟨key, rfl⟩
  grants := Or.inl fun id _ same => not_both_begin apart.grants ⟨id, same.symm⟩ ⟨key, rfl⟩

theorem apart_client : Apart clientPrefix := ⟨by decide, by decide⟩

theorem apart_grantAccess : Apart grantAccessPrefix := ⟨by decide, by decide⟩

theorem apart_grantRefresh : Apart grantRefreshPrefix := ⟨by decide, by decide⟩

theorem harmless_unnamed (r : Record) : Harmless (grantPrefix ++ []) r where
  tokens := Or.inl (by decide)
  grants := Or.inl fun _ named same => named (List.append_cancel_left same).symm

/-- A new token has a random code and the client of the grant, and it is in the log. -/
theorem newToken_ends (w : World V) :
    Ends (newToken env auth) w
      (fun t w' => Issued env auth w w' ∧ (∃ n, env.random n = some t.code) ∧
        t.clientID = auth.clientID ∧ ∃ key, w'.log = (key, .token t) :: w.log)
      fun _ => Issued env auth w := by
  have generated : Ends (generate env) w
      (fun code w' => Reads w w' ∧ ∃ n, env.random n = some code) fun _ => Issued env auth w := by
    rw [Ends, generate]
    cases made : env.random w.tick with
    | none => exact issued_of_same rfl rfl rfl
    | some code => exact ⟨reads_tock w, w.tick, made⟩
  refine .bind (generated.mono (fun code w₁ made => ?_) fun _ _ issued => issued)
  refine now_bind env fun time w₂ reads _ => .bind ?_
  have before : Issued env auth w w₂ := made.1.issued.trans reads.issued
  have issued := before.set (apart_client.harmless code
    (.token ⟨code, auth.clientID, auth.userID, 0, 0, time, 0⟩)) (Or.inl rfl)
  refine .intro (fun _ w₃ ran => ?_) fun _ w₃ ran => issued.of_error ran
  refine .pure ⟨issued.of_ok ran, made.2, rfl, clientPrefix ++ code, ?_⟩
  rw [OAuth.set] at ran
  split at ran
  · cases ran
  · cases ran
    rw [← made.1.log, ← reads.log]

theorem saveIndex_ends {w w' : World V} (issued : Issued env auth w w') {start : Text}
    (apart : Apart start) (key : Text) (g : Grant)
    (bound : g.clientID = auth.clientID) :
    Ends (saveIndex env start key g) w' (fun _ => Issued env auth w)
      fun _ => Issued env auth w := by
  rw [saveIndex]
  split
  · exact issued.set (apart.harmless key _) (Or.inl bound)
  · exact .pure issued

/-- A grant without a code is saved under its tokens and under no code. -/
theorem saveGrant_ends (g : Grant) (unnamed : g.code = []) (bound : g.clientID = auth.clientID)
    (w : World V) :
    Ends (saveGrant env g) w (fun _ => Issued env auth w) fun _ => Issued env auth w := by
  refine now_bind env fun time w₁ reads _ => ?_
  refine .bind (Ends.mono
    (saveIndex_ends reads.issued apart_grantAccess _ { g with updatedAt := time } bound)
    (fun _ w₂ issued => ?_) fun _ _ issued => issued)
  refine .bind ((saveIndex_ends issued apart_grantRefresh _ { g with updatedAt := time } bound).mono
    (fun _ w₃ issued => ?_) fun _ _ issued => issued)
  have harmless : Harmless (grantPrefix ++ g.code) (.grant { g with updatedAt := time }) := by
    rw [unnamed]
    exact harmless_unnamed _
  exact .bind ((issued.set harmless (Or.inl bound)).mono (fun _ w₄ issued => .pure issued)
    fun _ _ issued => issued)

/-- The fields of a token response besides the scope. -/
theorem tokenData_apply (o : Server) (g : Grant) (data : Data) {p : Param} (other : p ≠ .scope) :
    tokenData o g data p = match p with
      | .accessToken => some (.text g.accessToken)
      | .tokenType => some (.text o.opts.tokenType)
      | .expiresIn => some (.int g.expiresIn)
      | .refreshToken => some (.text g.refreshToken)
      | _ => data p := by
  have without_scope : tokenData o g data p =
      (((data.put .accessToken (.text g.accessToken)).put .tokenType (.text o.opts.tokenType)).put
        .expiresIn (.int g.expiresIn)).put .refreshToken (.text g.refreshToken) p := by
    rw [tokenData]
    split
    · exact Function.update_of_ne other _ _
    · rfl
  rw [without_scope]
  cases p <;> rfl

theorem finalize_ends (o : Server) (w : World V) :
    Ends (finalize env o auth) w
      (fun _ w' => Issued env auth w w' ∧ LogsToken env auth w w' ∧
        w'.ctx.data .accessToken ≠ none ∧ (auth.code ≠ [] → Removable env w.store auth.code))
      fun _ => Issued env auth w := by
  refine .bind ((newToken_ends w).mono (fun access w₁ made => ?_) fun _ _ issued => issued)
  obtain ⟨to₁, ⟨n, random⟩, bound, key, log₁⟩ := made
  refine .bind ((newToken_ends w₁).mono (fun refresh w₂ made' => ?_) fun _ _ => to₁.trans)
  have from₁ : Issued env auth w₁ w₂ := made'.1
  have bound₃ : (accessGrant o auth access.code refresh.code).clientID = auth.clientID := rfl
  refine .bind ((saveGrant_ends _ rfl bound₃ w₂).mono (fun g w₃ saved => ?_)
    fun _ _ issued => to₁.trans (from₁.trans issued))
  refine .bind ?_
  let w₄ : World V := { w₃ with ctx := { w₃.ctx with data := tokenData o g w₃.ctx.data } }
  have given : w₄.ctx.data .accessToken ≠ none := by
    show tokenData o g w₃.ctx.data .accessToken ≠ none
    rw [tokenData_apply o g _ (by decide)]
    exact nofun
  have filled : Issued env auth w₃ w₄ :=
    ⟨fun _ _ => id, fun _ _ _ => id, ⟨[], rfl, List.forall_mem_nil _⟩,
      tokenData_apply o g w₃.ctx.data (by decide), fun _ => given, rfl⟩
  have from₁₄ : Issued env auth w₁ w₄ := (from₁.trans saved).trans filled
  have logs : ∀ {w'}, Issued env auth w₁ w' → LogsToken env auth w w' := by
    intro w' issued
    obtain ⟨new, log, -⟩ := issued.log
    refine ⟨new ++ [(key, .token access)], by rw [log, log₁, List.append_assoc]; rfl, ?_⟩
    exact ⟨_, List.mem_append_right _ List.mem_cons_self, access, n, rfl, random, bound⟩
  show Ends (if auth.code ≠ [] then _ else _) w₄ _ _
  split
  · rename_i named
    refine (removeGrant_ends named w₄).mono (fun _ w₅ removed => ?_)
      fun _ _ issued => to₁.trans (from₁₄.trans issued)
    have from₁₅ := from₁₄.trans removed.1
    exact ⟨to₁.trans from₁₅, logs from₁₅, removed.1.accessToken given,
      fun _ => (to₁.trans from₁₄).removable named removed.2⟩
  · rename_i unnamed
    exact .pure ⟨to₁.trans from₁₄, logs from₁₄, given, fun named => absurd named unnamed⟩

/-- Either something failed and the response is bare, or `finalize` went through. -/
theorem issue_ends (o : Server) (auth : Grant) (state : Text) (w : World V) :
    Ends (issue env o auth state) w
      (fun resp w' => (Bare resp.data ∧ ∃ w₁, Issued env auth w w₁ ∧ Untouched w₁ w') ∨
        finalize env o auth w = .ok () w' ∧ resp = w'.ctx.commit env.parse)
      fun _ => Issued env auth w := by
  have ends : Ends (finalize env o auth) w _ _ := finalize_ends o w
  refine .attempt_bind (fun _ w₁ ran => ?_) (fun _ w₁ ran => ?_) fun w₁ ran => ends.of_error ran
  · exact Or.inr ⟨ran, rfl⟩
  · exact (refuse_ends env .serverError state w₁ fun _ _ => False).mono
      (fun _ w₂ refused => Or.inl ⟨refused.2, w₁, ends.of_error ran, refused.1⟩) nofun

/-- A response with a token comes from a `finalize` that went through. -/
theorem token_issued {o : Server} {r : Request} {w w' : World V} {resp : Response}
    (ran : access env o r w = .ok resp w') (success : resp.data .accessToken ≠ none) :
    ∃ c g w₁, Granted env o r w c g w₁ ∧ finalize env o g w₁ = .ok () w' ∧
      resp = w'.ctx.commit env.parse := by
  rcases (access_ends env o r w).of_ok ran with ⟨-, bare⟩ | ⟨c, g, w₁, granted, issued⟩
  · exact absurd bare.accessToken success
  · rcases (issue_ends o g [] w₁).of_ok issued with ⟨bare, -⟩ | ⟨finalized, committed⟩
    · exact absurd bare.accessToken success
    · exact ⟨c, g, w₁, granted, finalized, committed⟩

end Issuing

/-! ## Whose tokens they are -/

def Record.tokens : Record → List Text
  | .token t => [t.code]
  | .grant g => [g.accessToken, g.refreshToken]
  | _ => []

def Record.clientID : Record → Option Text
  | .token t => some t.clientID
  | .grant g => some g.clientID
  | _ => none

/-- A token that some live record of the store has. -/
def Used (store : Text → Option V) (t : Text) : Prop :=
  (∃ id old, LiveToken env store id old ∧ old.code = t) ∨
    ∃ id old, LiveGrant env store id old ∧ (old.accessToken = t ∨ old.refreshToken = t)

/-- When the grant a branch comes to is one of the client. -/
def BindsClient (r : Request) (store : Text → Option V) (c : Client) : Prop :=
  match GrantType.ofText (r.form .grantType) with
  | some .authorizationCode => ∀ g, LiveGrant env store (r.form .code) g → g.clientID = c.id
  | some .assertion => c.id = []
  | _ => True

section Binding

variable {env} {o : Server} {r : Request} {store : Text → Option V} {c : Client} {g : Grant}

theorem GrantFor.bound_iff (grantFor : GrantFor env o r store c g) :
    g.clientID = c.id ↔ BindsClient env r store c := by
  rw [GrantFor] at grantFor
  rw [BindsClient]
  cases type : GrantType.ofText (r.form .grantType) with
  | none =>
    rw [type] at grantFor
    exact grantFor.elim
  | some t =>
    rw [type] at grantFor
    cases t with
    | authorizationCode =>
      constructor
      · rintro same g' ⟨found, -⟩
        have unique : some g' = some g := found.symm.trans grantFor.1
        cases unique
        exact same
      · intro all
        exact all g grantFor
    | refreshToken => exact iff_true_intro grantFor.2.2.1
    | password => exact grantFor.elim
    | clientCredentials => exact iff_true_intro (by rw [grantFor])
    | assertion =>
      rw [grantFor]
      exact eq_comm

theorem BoundTo.clientID {rec : Record} (bound : BoundTo g rec) :
    rec.clientID = some g.clientID := by
  cases rec with
  | token t => exact congrArg some bound
  | grant g' => exact congrArg some bound
  | user u => exact bound.elim
  | client c => exact bound.elim

theorem Known.used {rec : Record} (known : Known env store rec) :
    ∀ t ∈ rec.tokens, Used env store t := by
  cases rec with
  | token t =>
    obtain ⟨id, old, live, code⟩ := known
    intro t' member
    exact Or.inl ⟨id, old, live, code.trans (List.mem_singleton.mp member).symm⟩
  | grant g =>
    obtain ⟨id, old, -, live, access, refresh⟩ := known
    intro t member
    rcases List.mem_cons.mp member with rfl | member
    · exact Or.inr ⟨id, old, live, Or.inl access⟩
    · exact Or.inr ⟨id, old, live, Or.inr (refresh.trans (List.mem_singleton.mp member).symm)⟩
  | user u => exact known.elim
  | client c => exact known.elim

end Binding

/-- The records with new tokens that a successful request writes are all of the client that showed
its secret iff the grant of the request is. Random tokens are taken to be unused. -/
theorem issued_to_client_iff {env : Env V} {o : Server} {r : Request} {w w' : World V}
    {resp : Response} (ran : access env o r w = .ok resp w')
    (success : resp.data .accessToken ≠ none)
    (unused : ∀ n t, env.random n = some t → ¬ Used env w.store t) :
    ∃ basic c new, r.basic = some basic ∧ Verified env basic w.store c ∧
      w'.log = new ++ w.log ∧
      ((∀ entry ∈ new, (∃ t ∈ entry.2.tokens, ¬ Used env w.store t) →
        entry.2.clientID = some c.id) ↔ BindsClient env r w.store c) := by
  obtain ⟨c, g, w₁, granted, finalized, -⟩ := token_issued ran success
  obtain ⟨basic, presented, verified⟩ := granted.verified
  obtain ⟨traced, ⟨new, log, entry, member, t, n, token, random, bound⟩, -⟩ :=
    (finalize_ends o w₁).of_ok finalized
  obtain ⟨new', log', written⟩ := traced.log
  obtain rfl : new' = new := List.append_cancel_right (log'.symm.trans log)
  rw [granted.untouched.log] at log
  rw [granted.untouched.store] at written
  refine ⟨basic, c, new', presented, verified, log, ?_⟩
  rw [← granted.grant.bound_iff]
  constructor
  · intro all
    have fresh : ∃ t ∈ entry.2.tokens, ¬ Used env w.store t := by
      rw [token]
      exact ⟨t.code, List.mem_cons_self, unused n t.code random⟩
    have same := all entry member fresh
    rw [token] at same
    exact bound.symm.trans (Option.some.inj same)
  · intro same entry' member' fresh
    obtain ⟨t', carried, not_used⟩ := fresh
    rcases written entry' member' with bound' | known
    · rw [bound'.clientID, same]
    · exact absurd (known.used t' carried) not_used

theorem sampleWorld_unused (t : Text) : ¬ Used plainEnv (sampleWorld []).store t := by
  have only_client : ∀ key v, (sampleWorld []).store key = some v → v = .client sampleClient := by
    intro key v stored
    simp only [sampleWorld] at stored
    split at stored
    · exact (Option.some.inj stored).symm
    · cases stored
  rintro (⟨id, old, ⟨found, -⟩, -⟩ | ⟨id, old, ⟨found, -⟩, -⟩)
  all_goals
    obtain ⟨v, stored, decoded⟩ := Option.bind_eq_some_iff.mp found
    rw [only_client _ v stored] at decoded
    cases decoded

theorem issued_to_client_of_sample :
    ∃ resp w', access plainEnv sampleServer (sampleRequest .clientCredentials fun _ => [])
        (sampleWorld []) = .ok resp w' ∧
      resp.data .accessToken ≠ none ∧
      ∃ basic c new, (sampleRequest .clientCredentials fun _ => []).basic = some basic ∧
        Verified plainEnv basic (sampleWorld []).store c ∧ w'.log = new ++ [] ∧
        ((∀ entry ∈ new, (∃ t ∈ entry.2.tokens, ¬ Used plainEnv (sampleWorld []).store t) →
          entry.2.clientID = some c.id) ↔
          BindsClient plainEnv (sampleRequest .clientCredentials fun _ => [])
            (sampleWorld []).store c) := by
  obtain ⟨resp, w', ran, given⟩ : ∃ resp w', access plainEnv sampleServer
      (sampleRequest .clientCredentials fun _ => []) (sampleWorld []) = .ok resp w' ∧
        resp.data .accessToken = some (.text ['t', 't']) := ⟨_, _, rfl, rfl⟩
  have success : resp.data .accessToken ≠ none := by
    rw [given]
    exact nofun
  exact ⟨resp, w', ran, success,
    issued_to_client_iff ran success fun _ t _ => sampleWorld_unused t⟩

/-- The client `c` presents an assertion, and its new tokens are nobody's. -/
theorem assertion_tokens_of_nobody :
    ∃ resp w', access plainEnv sampleServer (sampleRequest .assertion fun _ => ['x'])
        (sampleWorld []) = .ok resp w' ∧
      resp.data .accessToken = some (.text ['t', 't']) ∧
      w'.log.getLast? =
        some (clientPrefix ++ ['t', 't'], .token ⟨['t', 't'], [], [], 0, 0, 3, 0⟩) ∧
      ¬ Used plainEnv (sampleWorld []).store ['t', 't'] ∧ sampleClient.id = ['c'] :=
  ⟨_, _, rfl, rfl, rfl, sampleWorld_unused _, rfl⟩

end OAuth
