import Vince.RateLimit

/-!
# Callers that set up limiters at the same time (`rateLimiterManager.setup`)

The manager keeps a map of zones, and each zone is a map of limiters. A call looks for the zone,
then for the limiter, and stores what it did not find; between these steps other callers have
theirs. So two of them may both store a limiter, or a whole zone, and one is lost. Once nobody is in
a call for the zone, a limiter that is there stays.

Maps and limiters are numbered in the order in which they are made.
-/

namespace LimiterRaces

open GoText Function
open RateLimit (Leaky Time)

/-- Where a caller is. -/
inductive Phase where
  | outside
  | entered (key zone : Text) (rate : Int)
  /-- the zone was found -/
  | inZone (map : ℕ) (key zone : Text) (rate : Int)
  /-- the zone has no limiter for the key; a new one is about to be stored -/
  | missedKey (map : ℕ) (limiter : ℕ) (key zone : Text)
  /-- there is no zone; a new one, with a new limiter, is about to be stored -/
  | newZone (map : ℕ) (limiter : ℕ) (key zone : Text)
  deriving DecidableEq

/-- The zone that a caller works on. -/
def Phase.zone : Phase → Option Text
  | .outside => none
  | .entered _ zone _ => some zone
  | .inZone _ _ zone _ => some zone
  | .missedKey _ _ _ zone => some zone
  | .newZone _ _ _ zone => some zone

structure Return where
  key : Text
  zone : Text
  limiter : ℕ
  deriving DecidableEq

/-- The manager, the maps and limiters that have been made, the callers, and what calls have
returned, the last one first. -/
structure State (ι : Type) where
  zones : Text → Option ℕ := fun _ => none
  maps : List (Text → Option ℕ) := []
  limiters : List Leaky := []
  callers : ι → Phase := fun _ => .outside
  returned : List Return := []

inductive Action (ι : Type) where
  | enter (t : ι) (key zone : Text) (rate : Int)
  /-- the next step of a caller, with the clock -/
  | go (t : ι) (now : Time)

variable {ι : Type} [DecidableEq ι]

def State.move (s : State ι) (t : ι) (p : Phase) : State ι :=
  { s with callers := update s.callers t p }

def State.return (s : State ι) (t : ι) (key zone : Text) (limiter : ℕ) : State ι :=
  { s.move t .outside with returned := ⟨key, zone, limiter⟩ :: s.returned }

def step (s : State ι) : Action ι → Option (State ι)
  | .enter t key zone rate =>
    match s.callers t with
    | .outside => some (s.move t (.entered key zone rate))
    | _ => none
  | .go t now =>
    match s.callers t with
    | .outside => none
    | .entered key zone rate =>
      match s.zones zone with
      | some map => some (s.move t (.inZone map key zone rate))
      | none => some
          ({ s with
              limiters := s.limiters ++ [Leaky.zero]
              maps := s.maps ++ [update (fun _ => none) key (some s.limiters.length)] }.move t
            (.newZone s.maps.length s.limiters.length key zone))
    | .inZone map key zone rate =>
      match (s.maps[map]?).bind (· key) with
      | some limiter => some (s.return t key zone limiter)
      | none => some
          ({ s with limiters := s.limiters ++ [Leaky.new rate now] }.move t
            (.missedKey map s.limiters.length key zone))
    | .missedKey map limiter key zone =>
      some ({ s with maps := s.maps.modify map (update · key (some limiter)) }.return t key zone
        limiter)
    | .newZone map limiter key zone =>
      some ({ s with zones := update s.zones zone (some map) }.return t key zone limiter)

def run (s : State ι) (actions : List (Action ι)) : Option (State ι) := actions.foldlM step s

/-- The limiter that is kept for a key of a zone. -/
def State.holds (s : State ι) (key zone : Text) : Option ℕ :=
  (s.zones zone).bind fun map => (s.maps[map]?).bind (· key)

/-- Nobody is in a call for the zone. -/
def Quiet (s : State ι) (zone : Text) : Prop := ∀ t, (s.callers t).zone ≠ some zone

/-- What a step can do. -/
inductive Step (s : State ι) : State ι → Prop
  | enter {t : ι} (key zone : Text) (rate : Int) (here : s.callers t = .outside) :
    Step s (s.move t (.entered key zone rate))
  | zoneFound {t : ι} {key zone : Text} {rate : Int} {map : ℕ}
      (here : s.callers t = .entered key zone rate) (found : s.zones zone = some map) :
    Step s (s.move t (.inZone map key zone rate))
  | zoneMissed {t : ι} {key zone : Text} {rate : Int}
      (here : s.callers t = .entered key zone rate) (missed : s.zones zone = none) :
    Step s ({ s with
        limiters := s.limiters ++ [Leaky.zero]
        maps := s.maps ++ [update (fun _ => none) key (some s.limiters.length)] }.move t
      (.newZone s.maps.length s.limiters.length key zone))
  | keyFound {t : ι} {key zone : Text} {rate : Int} {map limiter : ℕ}
      (here : s.callers t = .inZone map key zone rate)
      (found : (s.maps[map]?).bind (· key) = some limiter) :
    Step s (s.return t key zone limiter)
  | keyMissed {t : ι} {key zone : Text} {rate : Int} {map : ℕ} (now : Time)
      (here : s.callers t = .inZone map key zone rate)
      (missed : (s.maps[map]?).bind (· key) = none) :
    Step s ({ s with limiters := s.limiters ++ [Leaky.new rate now] }.move t
      (.missedKey map s.limiters.length key zone))
  | storeKey {t : ι} {key zone : Text} {map limiter : ℕ}
      (here : s.callers t = .missedKey map limiter key zone) :
    Step s ({ s with maps := s.maps.modify map (update · key (some limiter)) }.return t key zone
      limiter)
  | storeZone {t : ι} {key zone : Text} {map limiter : ℕ}
      (here : s.callers t = .newZone map limiter key zone) :
    Step s ({ s with zones := update s.zones zone (some map) }.return t key zone limiter)

variable {s s' : State ι}

theorem Step.of_step {a : Action ι} (stepped : step s a = some s') : Step s s' := by
  unfold step at stepped
  split at stepped
  next t key zone rate =>
    split at stepped
    next here =>
      cases stepped
      exact .enter key zone rate here
    next => cases stepped
  next t now =>
    split at stepped
    next => cases stepped
    next key zone rate here =>
      split at stepped
      next map found =>
        cases stepped
        exact .zoneFound here found
      next missed =>
        cases stepped
        exact .zoneMissed here missed
    next map key zone rate here =>
      split at stepped
      next limiter found =>
        cases stepped
        exact .keyFound here found
      next missed =>
        cases stepped
        exact .keyMissed now here missed
    next map limiter key zone here =>
      cases stepped
      exact .storeKey here
    next map limiter key zone here =>
      cases stepped
      exact .storeZone here

/-- What every step keeps, a run keeps. -/
theorem run_induction {I : State ι → Prop} (kept : ∀ {s s'}, I s → Step s s' → I s')
    {actions : List (Action ι)} (holds : I s) (ran : run s actions = some s') : I s' := by
  induction actions generalizing s with
  | nil =>
    cases ran
    exact holds
  | cons a actions ih =>
    obtain ⟨next, stepped, rest⟩ := Option.bind_eq_some_iff.mp ran
    exact ih (kept holds (Step.of_step stepped)) rest

/-! ## Every map belongs to one zone -/

/-- The map that a caller works on. -/
def Phase.map : Phase → Option ℕ
  | .outside => none
  | .entered _ _ _ => none
  | .inZone map _ _ _ => some map
  | .missedKey map _ _ _ => some map
  | .newZone map _ _ _ => some map

structure Owned (owner : ℕ → Text) (s : State ι) : Prop where
  zones : ∀ zone map, s.zones zone = some map → owner map = zone ∧ map < s.maps.length
  callers : ∀ t map, (s.callers t).map = some map →
    (s.callers t).zone = some (owner map) ∧ map < s.maps.length

/-- A caller moves on, and the maps are as many as before. -/
theorem Owned.move {owner : ℕ → Text} {t : ι} {p : Phase} (owned : Owned owner s)
    (zones : ∀ zone map, s'.zones zone = some map →
      s.zones zone = some map ∨ (s.callers t).map = some map ∧ (s.callers t).zone = some zone)
    (maps : s'.maps.length = s.maps.length) (callers : s'.callers = update s.callers t p)
    (moved : ∀ map, p.map = some map → p.zone = some (owner map) ∧ map < s.maps.length) :
    Owned owner s' := by
  refine ⟨fun zone map stored => ?_, fun t' map working => ?_⟩
  · rw [maps]
    rcases zones zone map stored with old | ⟨mine, here⟩
    · exact owned.zones zone map old
    · obtain ⟨same, inside⟩ := owned.callers t map mine
      rw [here, Option.some_inj] at same
      exact ⟨same.symm, inside⟩
  · rw [maps]
    rw [callers] at working ⊢
    by_cases same : t' = t
    · subst same
      rw [update_self] at working ⊢
      exact moved map working
    · rw [update_of_ne same] at working ⊢
      exact owned.callers t' map working

theorem Owned.step {owner : ℕ → Text} (owned : Owned owner s) (stepped : Step s s') :
    ∃ owner', Owned owner' s' := by
  cases stepped with
  | enter key zone rate here =>
    exact ⟨owner, owned.move (fun _ _ => .inl) rfl rfl (by simp [Phase.map])⟩
  | @zoneFound t key zone rate map here found =>
    refine ⟨owner, owned.move (fun _ _ => .inl) rfl rfl ?_⟩
    intro map' same
    cases same
    obtain ⟨rfl, inside⟩ := owned.zones zone map found
    exact ⟨rfl, inside⟩
  | @zoneMissed t key zone rate here missed =>
    refine ⟨update owner s.maps.length zone, fun zone' map stored => ?_, fun t' map working => ?_⟩
    · obtain ⟨same, inside⟩ := owned.zones zone' map stored
      have other : map ≠ s.maps.length := by omega
      rw [update_of_ne other]
      refine ⟨same, ?_⟩
      simp [State.move]
      omega
    · simp only [State.move, List.length_append, List.length_singleton] at working ⊢
      by_cases same : t' = t
      · subst same
        rw [update_self] at working ⊢
        cases working
        rw [update_self]
        exact ⟨rfl, by omega⟩
      · rw [update_of_ne same] at working ⊢
        obtain ⟨owns, inside⟩ := owned.callers t' map working
        have other : map ≠ s.maps.length := by omega
        rw [update_of_ne other]
        exact ⟨owns, by omega⟩
  | keyFound here found =>
    exact ⟨owner, owned.move (fun _ _ => .inl) rfl rfl (by simp [Phase.map])⟩
  | @keyMissed t key zone rate map now here missed =>
    refine ⟨owner, owned.move (fun _ _ => .inl) rfl rfl ?_⟩
    intro map' same
    cases same
    have working := owned.callers t map (by rw [here]; rfl)
    rw [here] at working
    exact working
  | storeKey here =>
    exact ⟨owner, owned.move (fun _ _ => .inl) (List.length_modify _ _ _) rfl (by simp [Phase.map])⟩
  | @storeZone t key zone map limiter here =>
    refine ⟨owner, owned.move (fun zone' map' stored => ?_) rfl rfl (by simp [Phase.map])⟩
    by_cases same : zone' = zone
    · subst same
      have stored' : some map = some map' := by
        simpa [State.return, State.move] using stored
      rw [here]
      exact .inr ⟨stored', rfl⟩
    · have stored' : s.zones zone' = some map' := by
        simpa [State.return, State.move, same] using stored
      exact .inl stored'

/-! ## Limiters that stay -/

/-- A caller that will not store over the limiter of the key in this map, and will not return
another one for it. -/
def Phase.Harmless (map : ℕ) (key zone : Text) : Phase → Prop
  | .outside => True
  | .entered _ _ _ => True
  | .inZone map' _ zone' _ => zone' = zone → map' = map
  | .missedKey map' _ key' zone' => key' = key → map' ≠ map ∧ zone' ≠ zone
  | .newZone _ _ _ zone' => zone' ≠ zone

/-- The limiter of a key is in place, all that was returned for it since is this one, and nobody is
about to change that. -/
structure Settled (before : List Return) (map : ℕ) (key zone : Text) (limiter : ℕ) (s : State ι) :
    Prop where
  stored : s.zones zone = some map
  found : (s.maps[map]?).bind (· key) = some limiter
  harmless : ∀ t, (s.callers t).Harmless map key zone
  returned : ∃ new, s.returned = new ++ before ∧
    ∀ r ∈ new, r.key = key → r.zone = zone → r.limiter = limiter

variable {before : List Return} {map limiter : ℕ} {key zone : Text}

theorem harmless_update {p : Phase} {t : ι} (harmless : ∀ t, (s.callers t).Harmless map key zone)
    (moved : p.Harmless map key zone) (t' : ι) :
    (update s.callers t p t').Harmless map key zone := by
  by_cases same : t' = t
  · subst same
    rwa [update_self]
  · rw [update_of_ne same]
    exact harmless t'

theorem get_append {key : Text} {maps : List (Text → Option ℕ)}
    (found : (maps[map]?).bind (· key) = some limiter) (more : List (Text → Option ℕ)) :
    ((maps ++ more)[map]?).bind (· key) = some limiter := by
  have inside : map < maps.length := by
    by_contra outside
    rw [List.getElem?_eq_none (not_lt.mp outside)] at found
    cases found
  rwa [List.getElem?_append_left inside]

theorem get_modify {maps : List (Text → Option ℕ)} {map' limiter' : ℕ} {key' : Text}
    (found : (maps[map]?).bind (· key) = some limiter) (other : key' = key → map' ≠ map) :
    ((maps.modify map' (update · key' (some limiter')))[map]?).bind (· key) = some limiter := by
  rw [List.getElem?_modify]
  by_cases same : map' = map
  · have apart : key ≠ key' := fun h => other h.symm same
    cases stored : maps[map]? with
    | none =>
      rw [stored] at found
      cases found
    | some f =>
      rw [stored, Option.bind_some] at found
      simp [same, apart, found]
  · simpa [same] using found

omit [DecidableEq ι] in
theorem returned_cons (settled : Settled before map key zone limiter s) {r : Return}
    (mine : r.key = key → r.zone = zone → r.limiter = limiter) :
    ∃ new, r :: s.returned = new ++ before ∧
      ∀ r ∈ new, r.key = key → r.zone = zone → r.limiter = limiter := by
  obtain ⟨new, split, all⟩ := settled.returned
  refine ⟨r :: new, by rw [split]; rfl, ?_⟩
  intro r' member
  rcases List.mem_cons.mp member with rfl | member
  · exact mine
  · exact all r' member

theorem Settled.step (settled : Settled before map key zone limiter s) (stepped : Step s s') :
    Settled before map key zone limiter s' := by
  cases stepped with
  | enter key' zone' rate here =>
    exact ⟨settled.stored, settled.found, harmless_update settled.harmless trivial,
      settled.returned⟩
  | zoneFound here found =>
    refine ⟨settled.stored, settled.found, harmless_update settled.harmless ?_, settled.returned⟩
    rintro rfl
    exact Option.some_inj.mp (found.symm.trans settled.stored)
  | zoneMissed here missed =>
    refine ⟨settled.stored, get_append settled.found _, harmless_update settled.harmless ?_,
      settled.returned⟩
    rintro rfl
    rw [settled.stored] at missed
    cases missed
  | @keyFound t key' zone' rate map' limiter' here found =>
    refine ⟨settled.stored, settled.found, harmless_update settled.harmless trivial,
      returned_cons settled ?_⟩
    rintro rfl rfl
    have same := settled.harmless t
    rw [here] at same
    rw [same rfl, settled.found] at found
    exact (Option.some_inj.mp found).symm
  | @keyMissed t key' zone' rate map' now here missed =>
    refine ⟨settled.stored, settled.found, harmless_update settled.harmless ?_, settled.returned⟩
    rintro rfl
    have same := settled.harmless t
    rw [here] at same
    refine ⟨?_, ?_⟩
    · rintro rfl
      rw [settled.found] at missed
      cases missed
    · intro inside
      rw [same inside, settled.found] at missed
      cases missed
  | @storeKey t key' zone' map' limiter' here =>
    have apart := settled.harmless t
    rw [here] at apart
    refine ⟨settled.stored, get_modify settled.found fun same => (apart same).1,
      harmless_update settled.harmless trivial, returned_cons settled ?_⟩
    intro same inside
    exact absurd inside (apart same).2
  | @storeZone t key' zone' map' limiter' here =>
    have apart := settled.harmless t
    rw [here] at apart
    refine ⟨?_, settled.found, harmless_update settled.harmless trivial, returned_cons settled ?_⟩
    · show update s.zones zone' (some map') zone = some map
      rw [update_of_ne (Ne.symm apart), settled.stored]
    · intro _ inside
      exact absurd inside apart

omit [DecidableEq ι] in
/-- In a quiet moment, a limiter that is in place is settled. -/
theorem Quiet.settled {owner : ℕ → Text} (owned : Owned owner s) (quiet : Quiet s zone)
    (kept : s.holds key zone = some limiter) :
    ∃ map, Settled s.returned map key zone limiter s := by
  obtain ⟨map, stored, found⟩ := Option.bind_eq_some_iff.mp kept
  refine ⟨map, stored, found, fun t => ?_, [], rfl, by simp⟩
  have away := quiet t
  have working := owned.callers t
  have mine := (owned.zones zone map stored).1
  cases here : s.callers t with
  | outside => trivial
  | entered key' zone' rate => trivial
  | inZone map' key' zone' rate =>
    rw [here] at away
    intro same
    exact absurd (congrArg some same) away
  | missedKey map' limiter' key' zone' =>
    rw [here] at away working
    have apart : zone' ≠ zone := fun same => away (congrArg some same)
    refine fun _ => ⟨?_, apart⟩
    rintro rfl
    have owns := Option.some_inj.mp (working map' rfl).1
    exact apart (owns.trans mine)
  | newZone map' limiter' key' zone' =>
    rw [here] at away
    exact fun same => away (congrArg some same)

omit [DecidableEq ι] in
theorem owned_start : Owned (fun _ => []) ({} : State ι) := by
  refine ⟨fun zone map stored => ?_, fun t map working => ?_⟩
  · cases stored
  · cases working

/-- Whatever has happened before: once nobody is in a call for the zone, the limiter that is kept
for a key of it is kept for ever, and no later call for it returns another one, in any order of
steps. -/
theorem limiter_kept_once_quiet (before actions : List (Action ι)) (s s' : State ι)
    (key zone : Text) (limiter : ℕ) (started : run {} before = some s) (quiet : Quiet s zone)
    (kept : s.holds key zone = some limiter) (ran : run s actions = some s') :
    s'.holds key zone = some limiter ∧ ∃ new, s'.returned = new ++ s.returned ∧
      ∀ r ∈ new, r.key = key → r.zone = zone → r.limiter = limiter := by
  obtain ⟨owner, owned⟩ : ∃ owner, Owned owner s :=
    run_induction (I := fun s => ∃ owner, Owned owner s)
      (fun holds stepped => holds.elim fun _ owned => owned.step stepped)
      ⟨_, owned_start⟩ started
  obtain ⟨map, settled⟩ := quiet.settled owned kept
  have stays := run_induction (fun settled stepped => settled.step stepped) settled ran
  refine ⟨?_, stays.returned⟩
  rw [State.holds, stays.stored, Option.bind_some, stays.found]

/-- Two callers make the same zone, and the first one's limiter is lost. -/
def race : List (Action Bool) :=
  [.enter true ['k'] ['z'] 1, .go true 0, .enter false ['k'] ['z'] 1, .go false 0, .go true 0,
    .go false 0]

theorem limiter_kept_once_quiet_race :
    ∃ s s' : State Bool, run {} race = some s ∧
      s.returned = [⟨['k'], ['z'], 1⟩, ⟨['k'], ['z'], 0⟩] ∧
      run s [.enter true ['k'] ['z'] 1, .go true 0, .go true 0] = some s' ∧
      s'.holds ['k'] ['z'] = some 1 := by
  have quiet : ∀ s, run {} race = some s → Quiet s ['z'] := by
    rintro s ⟨⟩ (_ | _) <;> decide
  exact ⟨_, _, rfl, rfl, rfl, (limiter_kept_once_quiet race
    [.enter true ['k'] ['z'] 1, .go true 0, .go true 0] _ _ ['k'] ['z'] 1 rfl (quiet _ rfl) rfl
    rfl).1⟩

end LimiterRaces
