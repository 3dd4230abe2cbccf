import Vince.RoundRobinWeights
import Vince.UpstreamServer

/-!
# The balancer of an upstream (`upstreamConfig.next`)

The servers of an upstream are handed to a balancer at the first call of `next`. The balancer's
field `rw` is never given a value, `add` does not give the lock back, and what is added is a server
where `next` expects a text.
-/

namespace UpstreamBalance

open GoText
open Effects (Failure bind_eq_ok)
open ProxyOptions (Setting)
open ServerRules (Rule)
open Upstream (UpstreamServer ParamError)
open RoundRobinWeights (RRW)
open Rotation (run)

/-- How a call ends. A call that waits for a lock nobody gives back does not. -/
inductive Outcome (α : Type) where
  | returns (a : α)
  | panics
  | blocks
  deriving DecidableEq

/-- The types that are stored as `interface{}`. -/
inductive Item where
  | server (s : UpstreamServer)
  | text (t : Text)

structure RoundRobinWeighted where
  locked : Bool := false
  rw : Option (RRW Item) := none

def RoundRobinWeighted.add (r : RoundRobinWeighted) (s : Item) (w : ℤ) :
    Outcome Unit × RoundRobinWeighted :=
  if r.locked then (.blocks, r)
  else
    match r.rw with
    | none => (.panics, { r with locked := true })
    | some rw =>
      match rw.add s w with
      | none => (.blocks, { r with locked := true })
      | some rw' => (.returns (), ⟨true, some rw'⟩)

def RoundRobinWeighted.next (r : RoundRobinWeighted) : Outcome Text × RoundRobinWeighted :=
  if r.locked then (.blocks, r)
  else
    match r.rw with
    | none => (.panics, { r with locked := true })
    | some rw =>
      match rw.next with
      | (.item (.text t), rw') => (.returns t, { r with rw := some rw' })
      | (.item (.server _), rw') => (.panics, { r with rw := some rw' })
      | (.nil, rw') => (.panics, { r with rw := some rw' })
      | (.endless, rw') => (.blocks, ⟨true, some rw'⟩)

/-- The `sync.Once` of an upstream: `f` counts as done when it has panicked, too. -/
inductive Once where
  | fresh
  | inside
  | done

structure UpstreamHashConfig where
  set : Bool := false
  consistent : Setting Bool := ⟨false, false⟩
  key : Text := []

structure UpstreamConfig where
  name : Text := []
  servers : List UpstreamServer := []
  state : Setting Text := ⟨false, []⟩
  hash : UpstreamHashConfig := {}
  balancer : Option RoundRobinWeighted := none
  once : Once := .fresh

inductive LoadError where
  /-- `vince:not upstream server directive` -/
  | notUpstream
  | server (e : ParamError)

/-- `r.args[i]`. -/
def arg (r : Rule) (i : ℕ) : Except (Failure LoadError) Text :=
  match r.args[i]? with
  | none => .error .panic
  | some a => .ok a

def loadServer (c : Rule) : Except (Failure LoadError) UpstreamServer :=
  (Upstream.init c.args).mapError fun
    | .error e => .error (.server e)
    | .panic => .panic

/-- One round of the loop of `load`. -/
def loadChild (u : UpstreamConfig) (c : Rule) : Except (Failure LoadError) UpstreamConfig :=
  if c.name = "server".toList then do
    let s ← loadServer c
    pure { u with servers := u.servers ++ [s] }
  else if c.name = "state".toList then do
    let v ← arg c 0
    pure { u with state := ⟨true, v⟩ }
  else if c.name = "hash".toList then do
    let key ← arg c 0
    -- there is an argument, so the second one is looked at
    let second ← arg c 1
    pure { u with hash := {
      set := true
      key := key
      consistent := if second = "consistent".toList then ⟨true, true⟩ else u.hash.consistent } }
  else pure u

/-- The method `load` of a new upstream. -/
def load (r : Rule) : Except (Failure LoadError) UpstreamConfig :=
  if r.name = "upstream".toList then do
    let name ← arg r 0
    r.children.foldlM loadChild { name := name }
  else .error (.error .notUpstream)

/-- The servers that `init` hands to the balancer. -/
def active (s : UpstreamServer) : Bool := !(s.down.value || s.backup.value)

def addServers (w : RoundRobinWeighted) : List UpstreamServer → Outcome RoundRobinWeighted
  | [] => .returns w
  | s :: rest =>
    if active s then
      match w.add (.server s) s.weight.value with
      | (.returns (), w') => addServers w' rest
      | (.panics, _) => .panics
      | (.blocks, _) => .blocks
    else addServers w rest

def init (u : UpstreamConfig) : Outcome UpstreamConfig :=
  match addServers {} u.servers with
  | .returns w => .returns { u with balancer := some w }
  | .panics => .panics
  | .blocks => .blocks

def balancerNext (u : UpstreamConfig) : Outcome Text × UpstreamConfig :=
  match u.balancer with
  | none => (.panics, u)
  | some b => (b.next.1, { u with balancer := some b.next.2 })

def next (u : UpstreamConfig) : Outcome Text × UpstreamConfig :=
  match u.once with
  | .inside => (.blocks, u)
  | .done => balancerNext u
  | .fresh =>
    match init u with
    | .returns u' => balancerNext { u' with once := .done }
    | .panics => (.panics, { u with once := .done })
    | .blocks => (.blocks, { u with once := .inside })

/-! ## What is loaded -/

/-- The directives of one name. -/
def named (name : String) (r : Rule) : List Rule := r.children.filter (·.name = name.toList)

/-- One round either adds the server it has loaded, or leaves the servers as they are. -/
theorem loadChild_ok {u u' : UpstreamConfig} {c : Rule} (ran : loadChild u c = .ok u') :
    (u'.balancer = u.balancer ∧ u'.once = u.once) ∧
      if c.name = "server".toList then
        ∃ s, Upstream.init c.args = .ok s ∧ u'.servers = u.servers ++ [s]
      else u'.servers = u.servers := by
  unfold loadChild at ran
  split at ran
  next server =>
    rw [if_pos server]
    cases loaded : Upstream.init c.args with
    | error e => simp [loadServer, loaded, Except.mapError, bind, Except.bind] at ran
    | ok s =>
      simp only [loadServer, loaded, Except.mapError, bind, Except.bind, pure, Except.pure,
        Except.ok.injEq] at ran
      subst ran
      exact ⟨⟨rfl, rfl⟩, s, rfl, rfl⟩
  next other =>
    rw [if_neg other]
    split at ran
    next =>
      obtain ⟨v, -, stored⟩ := bind_eq_ok ran
      cases stored
      exact ⟨⟨rfl, rfl⟩, rfl⟩
    next =>
      split at ran
      next =>
        obtain ⟨key, -, rest⟩ := bind_eq_ok ran
        obtain ⟨second, -, stored⟩ := bind_eq_ok rest
        cases stored
        exact ⟨⟨rfl, rfl⟩, rfl⟩
      next =>
        cases ran
        exact ⟨⟨rfl, rfl⟩, rfl⟩

/-- The servers are loaded in the order in which they are written. -/
theorem loadChildren_ok {children : List Rule} {u u' : UpstreamConfig}
    (ran : children.foldlM loadChild u = .ok u') :
    (u'.balancer = u.balancer ∧ u'.once = u.once) ∧
      ∃ servers, u'.servers = u.servers ++ servers ∧
        List.Forall₂ (fun c s => Upstream.init c.args = .ok s)
          (children.filter (·.name = "server".toList)) servers := by
  induction children generalizing u with
  | nil =>
    cases ran
    exact ⟨⟨rfl, rfl⟩, [], by simp, .nil⟩
  | cons c children ih =>
    rw [List.foldlM_cons] at ran
    obtain ⟨v, first, rest⟩ := bind_eq_ok ran
    obtain ⟨same, added⟩ := loadChild_ok first
    obtain ⟨same', servers, all, each⟩ := ih rest
    refine ⟨⟨same'.1.trans same.1, same'.2.trans same.2⟩, ?_⟩
    by_cases server : c.name = "server".toList
    · rw [if_pos server] at added
      obtain ⟨s, loaded, appended⟩ := added
      refine ⟨s :: servers, ?_, ?_⟩
      · rw [all, appended, List.append_assoc]
        rfl
      · rw [List.filter_cons_of_pos (by simpa using server)]
        exact .cons loaded each
    · rw [if_neg server] at added
      refine ⟨servers, ?_, ?_⟩
      · rw [all, added]
      · rwa [List.filter_cons_of_neg (by simpa using server)]

theorem load_ok {r : Rule} {u : UpstreamConfig} (ran : load r = .ok u) :
    (u.balancer = none ∧ u.once = .fresh) ∧
      List.Forall₂ (fun c s => Upstream.init c.args = .ok s) (named "server" r) u.servers := by
  unfold load at ran
  split at ran
  next =>
    obtain ⟨name, -, rest⟩ := bind_eq_ok ran
    obtain ⟨same, servers, all, each⟩ := loadChildren_ok rest
    rw [List.nil_append] at all
    rw [all]
    exact ⟨same, each⟩
  next => cases ran

/-! ## Calls -/

/-- The first server that is handed over ends the method `init`. -/
theorem addServers_nil (servers : List UpstreamServer) :
    addServers {} servers = if servers.any active then .panics else .returns {} := by
  induction servers with
  | nil => rfl
  | cons s servers ih =>
    unfold addServers
    by_cases on : active s
    · simp [on, RoundRobinWeighted.add]
    · simp [on, ih]

theorem run_panics {u : UpstreamConfig} (balancer : u.balancer = none) (once : u.once = .done)
    (n : ℕ) : (run next n u).1 = List.replicate n .panics := by
  have called : next u = (.panics, u) := by
    simp [next, once, balancerNext, balancer]
  induction n with
  | zero => rfl
  | succ n ih => simp only [run, called, ih, List.replicate_succ]

theorem run_blocks {u : UpstreamConfig} {b : RoundRobinWeighted} (balancer : u.balancer = some b)
    (locked : b.locked) (once : u.once = .done) (n : ℕ) :
    (run next n u).1 = List.replicate n .blocks := by
  have called : next u = (.blocks, u) := by
    have waits : b.next = (.blocks, b) := by simp [RoundRobinWeighted.next, locked]
    simp only [next, once, balancerNext, balancer, waits]
    cases u
    simp_all
  induction n with
  | zero => rfl
  | succ n ih => simp only [run, called, ih, List.replicate_succ]

/-- The servers of an upstream are those of its lines, in their order, but no call of `next` ever
returns one. -/
theorem upstream_never_answers (r : Rule) (u : UpstreamConfig) (loaded : load r = .ok u) (n : ℕ) :
    List.Forall₂ (fun c s => Upstream.init c.args = .ok s) (named "server" r) u.servers ∧
      (run next (n + 1) u).1 =
        .panics :: List.replicate n (if u.servers.any active then .panics else .blocks) := by
  obtain ⟨⟨balancer, once⟩, servers⟩ := load_ok loaded
  refine ⟨servers, ?_⟩
  by_cases some : u.servers.any active
  · have first : next u = (.panics, { u with once := .done }) := by
      simp [next, once, init, addServers_nil, some]
    rw [if_pos some]
    have rest := run_panics (u := { u with once := .done }) balancer rfl n
    simp only [run, first, rest]
  · have first : next u =
        (.panics, { u with balancer := Option.some { locked := true }, once := .done }) := by
      simp [next, once, init, addServers_nil, some, balancerNext, RoundRobinWeighted.next]
    rw [if_neg some]
    simp only [run, first]
    rw [run_blocks rfl rfl rfl]

def lone (params : List Text) : Rule :=
  ⟨"upstream".toList, ["a".toList], [⟨"server".toList, "b".toList :: params, []⟩]⟩

/-- An upstream with a server, and one whose only server is down. -/
theorem upstream_never_answers_lone :
    (∃ u, load (lone []) = .ok u ∧ (run next 3 u).1 = [.panics, .panics, .panics]) ∧
      ∃ u, load (lone ["down".toList]) = .ok u ∧
        (run next 3 u).1 = [.panics, .blocks, .blocks] :=
  ⟨⟨_, rfl, (upstream_never_answers (lone []) _ rfl 2).2⟩,
    ⟨_, rfl, (upstream_never_answers (lone ["down".toList]) _ rfl 2).2⟩⟩

end UpstreamBalance
