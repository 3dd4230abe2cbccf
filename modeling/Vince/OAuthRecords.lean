import Vince.OAuthStore

/-!
# Reading back what was saved

A save writes its record under some keys and a lookup reads one key, so everything is decided by
which keys meet. The keys of different families never meet; but tokens are saved under the keys of
clients, and grants are looked up by access token where those with a refresh token are.
-/

namespace OAuth

open GoText Effects

variable {V : Type} (env : Env V)

inductive Kind where
  | user
  | client
  | token
  | grant
  deriving DecidableEq

namespace Record

def kind : Record → Kind
  | user _ => .user
  | client _ => .client
  | token _ => .token
  | grant _ => .grant

def deletedAt : Record → Time
  | user u => u.deletedAt
  | client c => c.deletedAt
  | token t => t.deletedAt
  | grant g => g.deletedAt

/-- The record without the time of its last update. -/
def content : Record → Record
  | user u => user { u with updatedAt := 0 }
  | client c => client { c with updatedAt := 0 }
  | token t => token { t with updatedAt := 0 }
  | grant g => grant { g with updatedAt := 0 }

/-- The keys a saved record is written under. -/
def keys : Record → List Text
  | user u => [userPrefix ++ u.email]
  | client c => [clientPrefix ++ c.id]
  | token t => [clientPrefix ++ t.code]
  | grant g =>
    (if g.accessToken ≠ [] then [grantAccessPrefix ++ g.accessToken] else []) ++
      (if g.refreshToken ≠ [] then [grantRefreshPrefix ++ g.refreshToken] else []) ++
      [grantPrefix ++ g.code]

end Record

def save : Record → M V Record
  | .user u => .user <$> saveUser env u
  | .client c => .client <$> saveClient env c
  | .token t => .token <$> saveToken env t
  | .grant g => .grant <$> saveGrant env g

inductive Lookup where
  | user (email : Text)
  | client (id : Text)
  | token (id : Text)
  | grant (id : Text)
  | grantByAccess (accessToken : Text)
  | grantByRefresh (refreshToken : Text)
  deriving DecidableEq

namespace Lookup

def kind : Lookup → Kind
  | user _ => .user
  | client _ => .client
  | token _ => .token
  | grant _ | grantByAccess _ | grantByRefresh _ => .grant

def run : Lookup → M V (Option Record)
  | user email => (·.map .user) <$> OAuth.user env email
  | client id => (some <| .client ·) <$> OAuth.client env id
  | token id => (some <| .token ·) <$> OAuth.token env id
  | grant id => (some <| .grant ·) <$> OAuth.grant env id
  | grantByAccess t => (some <| .grant ·) <$> OAuth.grantByAccess env t
  | grantByRefresh t => (some <| .grant ·) <$> OAuth.grantByRefresh env t

/-- The key a lookup reads. -/
def key : Lookup → Text
  | user email => userPrefix ++ email
  | client id => clientPrefix ++ id
  | token id => tokenPrefix ++ id
  | grant id => grantPrefix ++ id
  | grantByAccess t => grantRefreshPrefix ++ t
  | grantByRefresh t => grantRefreshPrefix ++ t

/-- What a lookup makes of a value. -/
def read (v : Option V) : Lookup → Except Err (Option Record)
  | user _ => (seen env.toUser User.deletedAt v).map fun _ => none
  | client _ => (seen env.toClient Client.deletedAt v).map (some <| .client ·)
  | token _ => (seen env.toToken Token.deletedAt v).map (some <| .token ·)
  | grant _ | grantByAccess _ | grantByRefresh _ =>
    (seen env.toGrant Grant.deletedAt v).map (some <| .grant ·)

end Lookup

/-- The lookups that should find a saved record. -/
def Record.lookups : Record → List Lookup
  | user u => [.user u.email]
  | client c => [.client c.id]
  | token t => [.token t.code]
  | grant g =>
    [.grant g.code] ++ (if g.accessToken ≠ [] then [.grantByAccess g.accessToken] else []) ++
      (if g.refreshToken ≠ [] then [.grantByRefresh g.refreshToken] else [])

/-! ## Lookups read one key -/

section Reliably

variable {env} (reliable : Reliable env)
include reliable

theorem outcome_find_map {α : Type} (decode : V → Option α) (deletedAt : α → Time) (key : Text)
    (f : α → Option Record) (w : World V) :
    outcome (f <$> find env decode deletedAt key) w =
      ((seen decode deletedAt (w.store key)).map f).mapError .error := by
  have found := find_apply reliable decode deletedAt key w
  rw [map_eq_pure_bind, outcome, bind_apply, found]
  cases seen decode deletedAt (w.store key) with
  | error e => rfl
  | ok a => rfl

theorem outcome_lookup (l : Lookup) (w : World V) :
    outcome (l.run env) w = (l.read env (w.store l.key)).mapError .error := by
  cases l with
  | user email =>
    rw [Lookup.run, OAuth.user, bind_pure_comp, Functor.map_map]
    exact outcome_find_map reliable _ _ _ (fun _ => none) w
  | client id => exact outcome_find_map reliable _ _ _ _ w
  | token id => exact outcome_find_map reliable _ _ _ _ w
  | grant id => exact outcome_find_map reliable _ _ _ _ w
  | grantByAccess t => exact outcome_find_map reliable _ _ _ _ w
  | grantByRefresh t => exact outcome_find_map reliable _ _ _ _ w

end Reliably

/-! ## Saves write some keys -/

/-- The record a save of `r` gives back: the same but for the time of its update and the id a
client may lack. -/
structure SavedAs (r saved : Record) : Prop where
  kind : saved.kind = r.kind
  deletedAt : saved.deletedAt = r.deletedAt
  content : (∀ c, r = .client c → c.id ≠ []) → saved.content = r.content

/-- The store after a value was written under some keys. -/
def Written (before : Text → Option V) (keys : List Text) (v : V) (w : World V) : Prop :=
  ∀ k, w.store k = if k ∈ keys then some v else before k

section Reliably

variable {env} (reliable : Reliable env)
include reliable

theorem ends_set_written {before : Text → Option V} {keys : List Text} {key : Text} {r : Record}
    {w : World V} {E : Failure Err → World V → Prop}
    (written : Written before keys (env.encode r) w) :
    Ends (set env key r) w (fun _ => Written before (keys ++ [key]) (env.encode r)) E := by
  refine ends_set reliable fun k => ?_
  show Function.update w.store key _ k = _
  rw [Function.update_apply, written k]
  by_cases same : k = key
  · simp [same]
  · simp [same]

theorem ends_saveIndex {before : Text → Option V} {keys : List Text} {start key : Text}
    {g : Grant} {w : World V} {E : Failure Err → World V → Prop}
    (written : Written before keys (env.encode (.grant g)) w) :
    Ends (saveIndex env start key g) w (fun _ => Written before
      (keys ++ if key ≠ [] then [start ++ key] else []) (env.encode (.grant g))) E := by
  rw [saveIndex]
  split
  · exact ends_set_written reliable written
  · refine .pure ?_
    rwa [List.append_nil]

theorem ends_save (r : Record) (w : World V) :
    Ends (save env r) w (fun saved w' => SavedAs r saved ∧
      Written w.store saved.keys (env.encode saved) w') fun _ _ => False := by
  have untouched : ∀ v w', w'.store = w.store → Written w.store [] v w' := by
    intro v w' same k
    rw [same]
    simp
  cases r with
  | user u =>
    refine .map (.bind (.bind ?_))
    exact (ends_set_written reliable (untouched _ w.tock rfl)).mono
      (fun _ w' written => .pure ⟨⟨rfl, rfl, fun _ => rfl⟩, written⟩) fun _ _ => id
  | client c =>
    have named : Ends (ensureID env c) w
        (fun id w' => w'.store = w.store ∧ (c.id ≠ [] → id = c.id)) fun _ _ => False := by
      rw [ensureID]
      split
      · rename_i unnamed
        obtain ⟨t, random⟩ := reliable.random w.tick
        rw [Ends, createClientID, random]
        exact ⟨rfl, fun named => absurd unnamed named⟩
      · exact .pure ⟨rfl, fun _ => rfl⟩
    refine .map (.bind (named.mono (fun _ w' step => ?_) fun _ _ => id))
    refine .bind (.bind ?_)
    refine (ends_set_written reliable (untouched _ w'.tock step.1)).mono
      (fun _ w'' written => .pure ⟨⟨rfl, rfl, fun named => ?_⟩, written⟩) fun _ _ => id
    rw [step.2 (named c rfl)]
    rfl
  | token t =>
    refine .map (.bind (.bind ?_))
    exact (ends_set_written reliable (untouched _ w.tock rfl)).mono
      (fun _ w' written => .pure ⟨⟨rfl, rfl, fun _ => rfl⟩, written⟩) fun _ _ => id
  | grant g =>
    refine .map (.bind (.bind ?_))
    refine (ends_saveIndex reliable (untouched _ w.tock rfl)).mono (fun _ _ written => ?_)
      fun _ _ => id
    refine .bind ((ends_saveIndex reliable written).mono (fun _ _ written => ?_) fun _ _ => id)
    refine .bind ((ends_set_written reliable written).mono (fun _ _ written => ?_) fun _ _ => id)
    exact .pure ⟨⟨rfl, rfl, fun _ => rfl⟩, written⟩

end Reliably

/-! ## Keys of different families -/

theorem mem_keys_grant {g : Grant} {k : Text} : k ∈ (Record.grant g).keys ↔
    g.accessToken ≠ [] ∧ k = grantAccessPrefix ++ g.accessToken ∨
      g.refreshToken ≠ [] ∧ k = grantRefreshPrefix ++ g.refreshToken ∨
      k = grantPrefix ++ g.code := by
  rw [Record.keys, List.mem_append, List.mem_append, List.mem_singleton, or_assoc]
  apply or_congr
  · split <;> simp_all
  · apply or_congr_left
    split <;> simp_all

/-- The prefixes of the keys that are read for a kind. -/
def Kind.read : Kind → List Text
  | user => [userPrefix]
  | client => [clientPrefix]
  | token => [tokenPrefix]
  | grant => [grantPrefix, grantRefreshPrefix]

/-- The prefixes of the keys that are written for a kind. -/
def Kind.written : Kind → List Text
  | user => [userPrefix]
  | client => [clientPrefix]
  | token => [clientPrefix]
  | grant => [grantAccessPrefix, grantRefreshPrefix, grantPrefix]

theorem Lookup.key_begins (l : Lookup) : ∃ p ∈ l.kind.read, p <+: l.key := by
  cases l with
  | user email => exact ⟨userPrefix, by simp [kind, Kind.read], email, rfl⟩
  | client id => exact ⟨clientPrefix, by simp [kind, Kind.read], id, rfl⟩
  | token id => exact ⟨tokenPrefix, by simp [kind, Kind.read], id, rfl⟩
  | grant id => exact ⟨grantPrefix, by simp [kind, Kind.read], id, rfl⟩
  | grantByAccess t => exact ⟨grantRefreshPrefix, by simp [kind, Kind.read], t, rfl⟩
  | grantByRefresh t => exact ⟨grantRefreshPrefix, by simp [kind, Kind.read], t, rfl⟩

theorem Record.keys_begin {r : Record} {k : Text} (member : k ∈ r.keys) :
    ∃ p ∈ r.kind.written, p <+: k := by
  cases r with
  | user u =>
    exact ⟨userPrefix, by simp [kind, Kind.written], u.email, (List.mem_singleton.mp member).symm⟩
  | client c =>
    exact ⟨clientPrefix, by simp [kind, Kind.written], c.id, (List.mem_singleton.mp member).symm⟩
  | token t =>
    exact ⟨clientPrefix, by simp [kind, Kind.written], t.code, (List.mem_singleton.mp member).symm⟩
  | grant g =>
    rcases mem_keys_grant.mp member with ⟨-, rfl⟩ | ⟨-, rfl⟩ | rfl
    · exact ⟨grantAccessPrefix, by simp [kind, Kind.written], _, rfl⟩
    · exact ⟨grantRefreshPrefix, by simp [kind, Kind.written], _, rfl⟩
    · exact ⟨grantPrefix, by simp [kind, Kind.written], _, rfl⟩

theorem prefixes_apart {a b : Kind} (other : a ≠ b) (not_both : ¬ (a = .client ∧ b = .token)) :
    ∀ p ∈ a.read, ∀ q ∈ b.written, ¬ p <+: q ∧ ¬ q <+: p := by
  cases a <;> cases b <;>
    first
    | exact absurd rfl other
    | exact absurd ⟨rfl, rfl⟩ not_both
    | decide

/-- A lookup reads no key of a record of another kind, but for clients and tokens. -/
theorem key_notMem {l : Lookup} {saved : Record} (other : l.kind ≠ saved.kind)
    (not_both : ¬ (l.kind = .client ∧ saved.kind = .token)) : l.key ∉ saved.keys := by
  intro member
  obtain ⟨p, read, begins⟩ := l.key_begins
  obtain ⟨q, written, begins'⟩ := Record.keys_begin member
  exact not_both_begin (prefixes_apart other not_both p read q written) begins begins'

/-! ## Reading back -/

/-- A lookup returns a record, the time of its update apart. -/
def ReadsBack (l : Lookup) (r : Record) (w : World V) : Prop :=
  ∃ found, outcome (l.run env) w = .ok (some found) ∧ found.content = r.content

/-- Where a saved record is found by a lookup that should find it, from what was there before. -/
def FindsSaved (saved : Record) (before : World V) : Lookup → Prop
  | .user _ => False
  | .client _ | .grant _ | .grantByRefresh _ => True
  | .token id => ReadsBack env (.token id) saved before
  | .grantByAccess t =>
    (∃ g, saved = .grant g ∧ g.refreshToken = t) ∨ ReadsBack env (.grantByAccess t) saved before

/-- A saved token is where the client with its code as id would be. That lookup is the same as
before only if it gave before what it makes of the token. -/
def Undisturbed (saved : Record) (before : World V) : Lookup → Prop
  | .client id => ∀ t, saved = .token t → t.code = id → outcome (Lookup.run env (.client id)) before
      = (Lookup.read env (some (env.encode saved)) (.client id)).mapError .error
  | _ => True

variable {env}

/-- A lookup reads the JSON of a live record of its kind as that record. -/
theorem read_encode {saved : Record} {l : Lookup} (same : l.kind = saved.kind)
    (not_user : l.kind ≠ .user) (live : saved.deletedAt = 0) :
    l.read env (some (env.encode saved)) = .ok (some saved) := by
  have seen_live : ∀ {α : Type} {decode : V → Option α} {deletedAt : α → Time} {v : V} {a : α},
      decode v = some a → deletedAt a = 0 → seen decode deletedAt (some v) = .ok a := by
    intro α decode deletedAt v a decoded live
    rw [seen, decoded]
    exact if_neg (not_not.mpr live)
  cases saved with
  | user u => exact absurd same not_user
  | client c =>
    cases l with
    | client id => rw [Lookup.read, seen_live (env.toClient_encode c) live]; rfl
    | _ => cases same
  | token t =>
    cases l with
    | token id => rw [Lookup.read, seen_live (env.toToken_encode t) live]; rfl
    | _ => cases same
  | grant g =>
    cases l with
    | grant id => rw [Lookup.read, seen_live (env.toGrant_encode g) live]; rfl
    | grantByAccess t => rw [Lookup.read, seen_live (env.toGrant_encode g) live]; rfl
    | grantByRefresh t => rw [Lookup.read, seen_live (env.toGrant_encode g) live]; rfl
    | _ => cases same

section Reading

variable (reliable : Reliable env) {saved : Record} {w w' : World V}
  (written : Written w.store saved.keys (env.encode saved) w')
include reliable written

theorem outcome_of_mem {l : Lookup} (member : l.key ∈ saved.keys) :
    outcome (l.run env) w' = (l.read env (some (env.encode saved))).mapError .error := by
  rw [outcome_lookup reliable, written, if_pos member]

theorem readsBack_of_mem {l : Lookup} (same : l.kind = saved.kind) (not_user : l.kind ≠ .user)
    (live : saved.deletedAt = 0) (member : l.key ∈ saved.keys) : ReadsBack env l saved w' := by
  refine ⟨saved, ?_, rfl⟩
  rw [outcome_of_mem reliable written member, read_encode same not_user live]
  rfl

theorem outcome_of_notMem {l : Lookup} (apart : l.key ∉ saved.keys) :
    outcome (l.run env) w' = outcome (l.run env) w := by
  rw [outcome_lookup reliable, outcome_lookup reliable, written, if_neg apart]

theorem readsBack_iff_of_notMem {l : Lookup} (apart : l.key ∉ saved.keys) :
    ReadsBack env l saved w' ↔ ReadsBack env l saved w := by
  rw [ReadsBack, ReadsBack, outcome_of_notMem reliable written apart]

/-- Which of the lookups find the record. -/
theorem readsBack_iff (live : saved.deletedAt = 0) {l : Lookup} (own : l ∈ saved.lookups) :
    ReadsBack env l saved w' ↔ FindsSaved env saved w l := by
  cases saved with
  | user u =>
    cases List.mem_singleton.mp own
    refine iff_false_intro ?_
    rintro ⟨found, returned, -⟩
    rw [outcome_lookup reliable, Lookup.read] at returned
    generalize seen env.toUser User.deletedAt (w'.store (Lookup.user u.email).key) = value
      at returned
    cases value with
    | error e => cases returned
    | ok a => cases returned
  | client c =>
    cases List.mem_singleton.mp own
    exact iff_true_intro (readsBack_of_mem reliable written rfl nofun live List.mem_cons_self)
  | token t =>
    cases List.mem_singleton.mp own
    refine readsBack_iff_of_notMem reliable written fun member => ?_
    have apart : ¬ clientPrefix <+: tokenPrefix ∧ ¬ tokenPrefix <+: clientPrefix := by decide
    exact not_both_begin apart ⟨t.code, (List.mem_singleton.mp member).symm⟩ ⟨t.code, rfl⟩
  | grant g =>
    rw [Record.lookups, List.mem_append, List.mem_append] at own
    rcases own with (own | own) | own
    · cases List.mem_singleton.mp own
      refine iff_true_intro (readsBack_of_mem reliable written rfl nofun live ?_)
      exact mem_keys_grant.mpr (Or.inr (Or.inr rfl))
    · split at own
      · rename_i has_access
        cases List.mem_singleton.mp own
        by_cases same : g.refreshToken = g.accessToken
        · refine iff_of_true (readsBack_of_mem reliable written rfl nofun live ?_)
            (Or.inl ⟨g, rfl, same⟩)
          exact mem_keys_grant.mpr (Or.inr (Or.inl ⟨same ▸ has_access, by rw [same]; rfl⟩))
        · have other : ¬ ∃ g', Record.grant g = .grant g' ∧ g'.refreshToken = g.accessToken := by
            rintro ⟨g', ⟨⟩, refresh⟩
            exact same refresh
          rw [FindsSaved, or_iff_right other]
          refine readsBack_iff_of_notMem reliable written fun member => ?_
          rcases mem_keys_grant.mp member with ⟨-, key⟩ | ⟨-, key⟩ | key
          · have apart : ¬ grantAccessPrefix <+: grantRefreshPrefix ∧
                ¬ grantRefreshPrefix <+: grantAccessPrefix := by decide
            exact not_both_begin apart ⟨_, key.symm⟩ ⟨_, rfl⟩
          · exact same (List.append_cancel_left key).symm
          · have apart : ¬ grantPrefix <+: grantRefreshPrefix ∧
                ¬ grantRefreshPrefix <+: grantPrefix := by decide
            exact not_both_begin apart ⟨_, key.symm⟩ ⟨_, rfl⟩
      · cases own
    · split at own
      · rename_i has_refresh
        cases List.mem_singleton.mp own
        refine iff_true_intro (readsBack_of_mem reliable written rfl nofun live ?_)
        exact mem_keys_grant.mpr (Or.inr (Or.inl ⟨has_refresh, rfl⟩))
      · cases own

theorem outcome_same_iff {l : Lookup} (other : l.kind ≠ saved.kind) :
    outcome (l.run env) w' = outcome (l.run env) w ↔ Undisturbed env saved w l := by
  by_cases both : l.kind = .client ∧ saved.kind = .token
  · cases l with
    | client id =>
      cases saved with
      | token t =>
        by_cases same : t.code = id
        · subst same
          have member : (Lookup.client t.code).key ∈ (Record.token t).keys := List.mem_cons_self
          rw [outcome_of_mem reliable written member]
          constructor
          · rintro before t' ⟨⟩ -
            exact before.symm
          · intro before
            exact (before t rfl rfl).symm
        · have apart : (Lookup.client id).key ∉ (Record.token t).keys := by
            intro member
            exact same (List.append_cancel_left (List.mem_singleton.mp member)).symm
          refine iff_of_true (outcome_of_notMem reliable written apart) ?_
          rintro t' ⟨⟩ code
          exact absurd code same
      | _ => cases both.2
    | _ => cases both.1
  · refine iff_of_true (outcome_of_notMem reliable written (key_notMem other both)) ?_
    cases l with
    | client id =>
      rintro t rfl -
      exact absurd ⟨rfl, rfl⟩ both
    | _ => trivial

end Reading

/-- After a save, which lookups of the record find it, and which lookups of other kinds are as
they were. -/
theorem save_reads_back_iff (reliable : Reliable env) (r : Record) (live : r.deletedAt = 0)
    (w : World V) :
    ∃ saved w', save env r w = .ok saved w' ∧ SavedAs r saved ∧
      (∀ l ∈ saved.lookups, (ReadsBack env l saved w' ↔ FindsSaved env saved w l)) ∧
      ∀ l : Lookup, l.kind ≠ saved.kind →
        (outcome (l.run env) w' = outcome (l.run env) w ↔ Undisturbed env saved w l) := by
  obtain ⟨saved, w', ran, savedAs, written⟩ := (ends_save reliable r w).exists_ok
  refine ⟨saved, w', ran, savedAs, fun l own => ?_, fun l other => ?_⟩
  · exact readsBack_iff reliable written (savedAs.deletedAt.trans live) own
  · exact outcome_same_iff reliable written other

def sampleToken : Token := ⟨['x'], ['c'], ['u'], 0, 0, 0, 0⟩

theorem save_reads_back_of_token :
    (Record.token sampleToken).deletedAt = 0 ∧
      ∃ saved w', save plainEnv (.token sampleToken) emptyWorld = .ok saved w' ∧
        SavedAs (.token sampleToken) saved ∧
        ∀ l ∈ saved.lookups, (ReadsBack plainEnv l saved w' ↔
          FindsSaved plainEnv saved emptyWorld l) := by
  obtain ⟨saved, w', ran, savedAs, finds, -⟩ :=
    save_reads_back_iff plainEnv_reliable (.token sampleToken) rfl emptyWorld
  exact ⟨rfl, saved, w', ran, savedAs, finds⟩

/-- A token that was saved is not found, and there is a client under its code. -/
theorem saved_token_not_found :
    ∃ saved w', save plainEnv (.token sampleToken) emptyWorld = .ok saved w' ∧
      outcome (token plainEnv ['x']) w' = .error (.error .keyNotFound) ∧
      outcome (client plainEnv ['x']) emptyWorld = .error (.error .keyNotFound) ∧
      outcome (client plainEnv ['x']) w' = .ok ⟨[], ['u'], [], [], [], [], [], 0, 1, 0⟩ :=
  ⟨_, _, rfl, rfl, rfl, rfl⟩

end OAuth
