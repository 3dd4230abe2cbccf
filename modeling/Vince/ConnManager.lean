import Vince.Census
import Vince.Transitions

/-!
# Connections and their counters (`ngx_http_core_conn_manager.go`)

The manager hears of each connection what `net/http` reports: `connContext` when it is accepted,
then its states, and `CloseConn` from whoever hijacked it. One event is one step here; calls of
`Close` and `graceful`, which end all connections at once, are left out. The counters are `int64`
in the source and do not come near their bounds.
-/

namespace ConnManager

open Census Function Relation

/-- `http.ConnState`; `new` is its zero value. -/
inductive ConnState where
  | new
  | active
  | idle
  | hijacked
  | closed
  deriving DecidableEq, Repr

structure ConnInfo where
  id : Nat
  state : ConnState

/-- `httpConnStatus`. -/
structure Status where
  opened : Int
  active : Int
  idle : Int
  hijacked : Int
  deriving DecidableEq, Repr

def Status.zero : Status := ⟨0, 0, 0, 0⟩

/-- `httpConnStatus.Add`. -/
def Status.add (c other : Status) : Status where
  opened := c.opened + other.opened
  active := c.active + other.active
  idle := c.idle + other.idle
  hijacked := c.hijacked + other.hijacked

/-- `Reset`: what it returns and what it leaves. The fourth counter is not swapped. -/
def Status.reset (c : Status) : Status × Status :=
  (⟨c.opened, c.active, c.idle, 0⟩, ⟨0, 0, 0, c.hijacked⟩)

def Status.track (c : Status) (state : ConnState) (n : Int) : Status :=
  match state with
  | .new => { c with opened := c.opened + n }
  | .active => { c with active := c.active + n }
  | .idle => { c with idle := c.idle + n }
  | .hijacked => { c with hijacked := c.hijacked + n }
  | .closed => c

def Status.inc (c : Status) (state : ConnState) : Status := c.track state 1

def Status.dec (c : Status) (state : ConnState) : Status := c.track state (-1)

/-- `connManager`; `serial` is the counter behind `nextID`. -/
structure Manager (Conn : Type) where
  conns : Conn → Option ConnInfo
  status : Status
  serial : Nat

variable {Conn : Type} [DecidableEq Conn]

namespace Manager

def nextID (m : Manager Conn) : Nat × Manager Conn :=
  (m.serial + 1, { m with serial := m.serial + 1 })

def store (m : Manager Conn) (conn : Conn) (info : ConnInfo) : Manager Conn :=
  { m with conns := update m.conns conn (some info) }

def delete (m : Manager Conn) (conn : Conn) : Manager Conn :=
  { m with conns := update m.conns conn none }

def inc (m : Manager Conn) (state : ConnState) : Manager Conn :=
  { m with status := m.status.inc state }

/-- `changeState` with a function that also works on the counters. -/
def changeState (m : Manager Conn) (conn : Conn) (fn : ConnInfo → Status → ConnInfo × Status) :
    Manager Conn :=
  match m.conns conn with
  | none => m
  | some info =>
    let (info, status) := fn info m.status
    { m with conns := update m.conns conn (some info), status := status }

def connContext (m : Manager Conn) (conn : Conn) : Manager Conn :=
  let (id, m) := m.nextID
  m.store conn ⟨id, .new⟩

/-- The branches for idle and hijacked connections. -/
def moveTo (m : Manager Conn) (conn : Conn) (state : ConnState) : Manager Conn :=
  (m.changeState conn fun i status => ({ i with state := state }, status.dec i.state)).inc state

def manageConnState (m : Manager Conn) (conn : Conn) : ConnState → Manager Conn
  | .new =>
    let m := match m.conns conn with
      | some _ => m
      | none =>
        let (id, m) := m.nextID
        m.store conn ⟨id, .new⟩
    (m.changeState conn fun i status => ({ i with state := .new }, status)).inc .new
  | .active =>
    -- a connection that was new stays counted as open
    (m.changeState conn fun i status =>
      ({ i with state := .active }, if i.state ≠ .new then status.dec i.state else status)).inc
      .active
  | .idle => m.moveTo conn .idle
  | .hijacked => m.moveTo conn .hijacked
  | .closed =>
    (m.changeState conn fun i status =>
      let status := status.dec i.state
      ({ i with state := .closed }, if i.state ≠ .new then status.dec .new else status)).delete
      conn

def closeConn (m : Manager Conn) (conn : Conn) : Manager Conn :=
  match m.conns conn with
  | none => m
  | some s =>
    if s.state = .hijacked then
      { m with status := (m.status.dec s.state).dec .new }.delete conn
    else m

def getStatus (m : Manager Conn) : Status × Manager Conn :=
  (m.status.reset.1, { m with status := m.status.reset.2 })

end Manager

/-! ## Lifecycles -/

/-- How far a connection has come, by the events it had. -/
inductive Phase where
  | unseen
  | accepted
  | new
  | active
  | idle
  | hijacked
  | closed
  deriving DecidableEq, Repr

inductive Event where
  | accept
  | state (state : ConnState)
  | closeConn

/-- The legal lifecycle: what an event makes of a connection, if it may have it. -/
def Phase.next : Phase → Event → Option Phase
  | .unseen, .accept => some .accepted
  | .accepted, .state .new => some .new
  | .new, .state .active => some .active
  | .new, .state .closed => some .closed
  | .active, .state .idle => some .idle
  | .active, .state .hijacked => some .hijacked
  | .active, .state .closed => some .closed
  | .idle, .state .active => some .active
  | .idle, .state .closed => some .closed
  | .hijacked, .closeConn => some .closed
  | _, _ => none

/-- The connection passed `StateNew` and is not yet closed. -/
def Phase.Counted : Phase → Prop
  | .unseen | .accepted | .closed => False
  | _ => True

/-- The connection was accepted and is not yet closed. -/
def Phase.Alive : Phase → Prop
  | .unseen | .closed => False
  | _ => True

instance : DecidablePred Phase.Counted
  | .unseen | .accepted | .closed => isFalse id
  | .new | .active | .idle | .hijacked => isTrue trivial

/-- The state the manager should have on record. -/
def Phase.recorded : Phase → Option ConnState
  | .unseen | .closed => none
  | .accepted | .new => some .new
  | .active => some .active
  | .idle => some .idle
  | .hijacked => some .hijacked

def Manager.handle (m : Manager Conn) (conn : Conn) : Event → Manager Conn
  | .accept => m.connContext conn
  | .state state => m.manageConnState conn state
  | .closeConn => m.closeConn conn

/-- The connections with their phases, the manager, and what its snapshots add up to. -/
structure World (Conn : Type) where
  phase : Conn → Phase
  manager : Manager Conn
  total : Status

def World.start (Conn : Type) (serial : Nat) : World Conn :=
  ⟨fun _ => .unseen, ⟨fun _ => none, .zero, serial⟩, .zero⟩

def World.after (w : World Conn) (conn : Conn) (event : Event) (p : Phase) : World Conn :=
  { w with phase := update w.phase conn p, manager := w.manager.handle conn event }

/-- `GetStatus`, its result added to the total. -/
def World.snapshot (w : World Conn) : World Conn :=
  { w with manager := w.manager.getStatus.2, total := w.total.add w.manager.getStatus.1 }

/-- Some connection has a legal event. -/
inductive Happens : World Conn → World Conn → Prop where
  | event (w : World Conn) (conn : Conn) (event : Event) (p : Phase)
      (legal : (w.phase conn).next event = some p) : Happens w (w.after conn event p)

inductive Step : World Conn → World Conn → Prop where
  | happens {w w' : World Conn} (event : Happens w w') : Step w w'
  | snapshot (w : World Conn) : Step w w.snapshot

/-! ## What one event does -/

/-- One if the phase is of the given kind. -/
def mark (P : Phase → Prop) [DecidablePred P] (p : Phase) : Int := if P p then 1 else 0

omit [DecidableEq Conn] in
theorem record_inv {m : Manager Conn} {conn : Conn} {s : ConnState}
    (recorded : (m.conns conn).map (·.state) = some s) :
    ∃ id, m.conns conn = some ⟨id, s⟩ := by
  obtain ⟨⟨id, state⟩, found, same⟩ := Option.map_eq_some_iff.mp recorded
  exact ⟨id, by rw [found, ← same]⟩

theorem changeState_of {m : Manager Conn} {conn : Conn} {info : ConnInfo}
    (found : m.conns conn = some info) (fn : ConnInfo → Status → ConnInfo × Status) :
    m.changeState conn fn = { m with
      conns := update m.conns conn (some (fn info m.status).1)
      status := (fn info m.status).2 } := by
  rw [Manager.changeState, found]

/-- A legal event moves the record of its connection and the counters from the old phase to the
new one. -/
theorem handle_legal {m : Manager Conn} {conn : Conn} {event : Event} {p q : Phase}
    (legal : p.next event = some q) (recorded : (m.conns conn).map (·.state) = p.recorded) :
    ∃ id serial, m.handle conn event = ⟨update m.conns conn (q.recorded.map (ConnInfo.mk id)),
      ⟨m.status.opened + (mark Phase.Counted q - mark Phase.Counted p),
        m.status.active + (mark (· = .active) q - mark (· = .active) p),
        m.status.idle + (mark (· = .idle) q - mark (· = .idle) p),
        m.status.hijacked + (mark (· = .hijacked) q - mark (· = .hijacked) p)⟩, serial⟩ := by
  unfold Phase.next at legal
  split at legal
  -- the first case has no record yet, the last is no legal event
  case h_1 =>
    cases legal
    refine ⟨m.serial + 1, m.serial + 1, ?_⟩
    simp [Manager.handle, Manager.connContext, Manager.nextID, Manager.store, mark,
      Phase.Counted, Phase.recorded]
  case h_11 => cases legal
  all_goals
    cases legal
    obtain ⟨id, found⟩ := record_inv recorded
    refine ⟨id, m.serial, ?_⟩
    simp [Manager.handle, Manager.manageConnState, Manager.moveTo, Manager.closeConn, found,
      changeState_of, Manager.inc, Manager.delete, Status.inc, Status.dec, Status.track, mark,
      Phase.Counted, Phase.recorded]

/-! ## What a run keeps -/

/-- The records fit the phases, and the counters with what was drained from them are the numbers
of connections. -/
structure Inv (w : World Conn) : Prop where
  recorded : ∀ conn, (w.manager.conns conn).map (·.state) = (w.phase conn).recorded
  nearly : Nearly w.phase .unseen
  opened : w.total.opened + w.manager.status.opened = tally Phase.Counted w.phase
  active : w.total.active + w.manager.status.active = tally (· = .active) w.phase
  idle : w.total.idle + w.manager.status.idle = tally (· = .idle) w.phase
  hijacked : w.manager.status.hijacked = tally (· = .hijacked) w.phase
  undrained : w.total.hijacked = 0

omit [DecidableEq Conn] in
theorem inv_start (serial : Nat) : Inv (World.start Conn serial) where
  recorded _ := rfl
  nearly := nearly_const _
  opened := by
    have none : tally Phase.Counted (fun _ : Conn => Phase.unseen) = 0 := tally_const id
    simp [World.start, Status.zero, none]
  active := by simp [World.start, Status.zero, tally_const]
  idle := by simp [World.start, Status.zero, tally_const]
  hijacked := by simp [World.start, Status.zero, tally_const]
  undrained := rfl

theorem tally_after {w : World Conn} {P : Phase → Prop} [DecidablePred P]
    (nearly : Nearly w.phase .unseen) (excluded : ¬ P .unseen) (conn : Conn) (event : Event)
    (q : Phase) :
    (tally P (w.after conn event q).phase : Int) =
      tally P w.phase + (mark P q - mark P (w.phase conn)) := by
  rw [World.after, tally_update nearly excluded, mark, mark]
  omega

theorem inv_after {w : World Conn} {conn : Conn} {event : Event} {q : Phase} (inv : Inv w)
    (legal : (w.phase conn).next event = some q) : Inv (w.after conn event q) := by
  obtain ⟨id, serial, handled⟩ := handle_legal legal (inv.recorded conn)
  have tallied {P : Phase → Prop} [DecidablePred P] (excluded : ¬ P .unseen) :=
    tally_after inv.nearly excluded conn event q
  refine ⟨fun c => ?_, inv.nearly.update conn q, ?_, ?_, ?_, ?_, inv.undrained⟩
  · simp only [World.after, handled]
    by_cases same : c = conn
    · subst same
      simp [Option.map_map, Function.comp_def]
    · rw [update_of_ne same, update_of_ne same]
      exact inv.recorded c
  · rw [tallied (by simp [Phase.Counted]), ← inv.opened]
    simp only [World.after, handled]
    omega
  · rw [tallied (by simp), ← inv.active]
    simp only [World.after, handled]
    omega
  · rw [tallied (by simp), ← inv.idle]
    simp only [World.after, handled]
    omega
  · rw [tallied (by simp), ← inv.hijacked]
    simp only [World.after, handled]

omit [DecidableEq Conn] in
theorem snapshot_eq (w : World Conn) : w.snapshot =
    ⟨w.phase, { w.manager with status := ⟨0, 0, 0, w.manager.status.hijacked⟩ },
      ⟨w.total.opened + w.manager.status.opened, w.total.active + w.manager.status.active,
        w.total.idle + w.manager.status.idle, w.total.hijacked⟩⟩ := by
  simp [World.snapshot, Manager.getStatus, Status.reset, Status.add]

omit [DecidableEq Conn] in
theorem inv_snapshot {w : World Conn} (inv : Inv w) : Inv w.snapshot := by
  rw [snapshot_eq]
  refine ⟨inv.recorded, inv.nearly, ?_, ?_, ?_, inv.hijacked, inv.undrained⟩
  · simpa using inv.opened
  · simpa using inv.active
  · simpa using inv.idle

theorem inv_run {serial : Nat} {w : World Conn}
    (run : ReflTransGen Step (World.start Conn serial) w) : Inv w := by
  refine Transitions.kept_by_run ?_ (inv_start serial) run
  intro w w' inv step
  cases step with
  | happens event =>
    cases event with
    | event conn event p legal => exact inv_after inv legal
  | snapshot => exact inv_snapshot inv

/-- Without snapshots nothing is drained. -/
theorem total_run {serial : Nat} {w : World Conn}
    (run : ReflTransGen Happens (World.start Conn serial) w) : w.total = .zero := by
  refine Transitions.kept_by_run (I := fun w => w.total = .zero) ?_ rfl run
  intro w w' undrained event
  cases event with
  | event conn event p legal => exact undrained

theorem step_run {w w' : World Conn} (run : ReflTransGen Happens w w') :
    ReflTransGen Step w w' :=
  run.lift id fun _ _ => Step.happens

/-- In every state that legal events lead to, the counters are the numbers of connections in the
states they stand for, and the connections on record are those alive. -/
theorem counters_exact (serial : Nat) (w : World Conn)
    (run : ReflTransGen Happens (World.start Conn serial) w) :
    w.manager.status.opened = tally Phase.Counted w.phase ∧
    w.manager.status.active = tally (· = .active) w.phase ∧
    w.manager.status.idle = tally (· = .idle) w.phase ∧
    w.manager.status.hijacked = tally (· = .hijacked) w.phase ∧
    (∀ conn, (w.manager.conns conn).isSome ↔ (w.phase conn).Alive) ∧
    0 ≤ w.manager.status.opened ∧ 0 ≤ w.manager.status.active ∧
    0 ≤ w.manager.status.idle ∧ 0 ≤ w.manager.status.hijacked := by
  have inv := inv_run (step_run run)
  obtain ⟨recorded, -, opened, active, idle, hijacked, -⟩ := inv
  rw [total_run run] at opened active idle
  simp only [Status.zero, Int.zero_add] at opened active idle
  refine ⟨opened, active, idle, hijacked, fun conn => ?_, ?_, ?_, ?_, ?_⟩
  · have same := congrArg Option.isSome (recorded conn)
    rw [Option.isSome_map] at same
    rw [same]
    cases w.phase conn <;> simp [Phase.recorded, Phase.Alive]
  all_goals omega

/-- The events of the sample connection up to its being active. -/
private def activeWorld : World Unit :=
  (((World.start Unit 0).after () .accept .accepted).after () (.state .new) .new).after ()
    (.state .active) .active

private theorem activeWorld_run : ReflTransGen Happens (World.start Unit 0) activeWorld :=
  ((ReflTransGen.single (Happens.event _ () .accept .accepted rfl)).tail
    (Happens.event _ () (.state .new) .new rfl)).tail
    (Happens.event _ () (.state .active) .active rfl)

/-- One connection that was accepted and has become active. -/
theorem counters_exact_sample :
    activeWorld.manager.status = ⟨1, 1, 0, 0⟩ ∧
      activeWorld.manager.status.active = tally (· = .active) activeWorld.phase :=
  ⟨rfl, (counters_exact 0 activeWorld activeWorld_run).2.1⟩

/-! ## Snapshots -/

/-- Right after a call of `GetStatus`, the sum of all snapshots is the numbers of connections in
each state exactly when no connection is hijacked at that moment. -/
theorem snapshots_exact_iff (serial : Nat) (w : World Conn)
    (run : ReflTransGen Step (World.start Conn serial) w) :
    (w.snapshot.total.opened = tally Phase.Counted w.snapshot.phase ∧
      w.snapshot.total.active = tally (· = .active) w.snapshot.phase ∧
      w.snapshot.total.idle = tally (· = .idle) w.snapshot.phase ∧
      w.snapshot.total.hijacked = tally (· = .hijacked) w.snapshot.phase) ↔
    ∀ conn, w.phase conn ≠ .hijacked := by
  have inv := inv_run run
  have nobody : tally (· = .hijacked) w.phase = 0 ↔ ∀ conn, w.phase conn ≠ .hijacked :=
    tally_eq_zero_iff inv.nearly (by simp)
  have undrained := inv.undrained
  rw [← nobody, snapshot_eq]
  constructor
  · rintro ⟨-, -, -, hijacked⟩
    simp only at hijacked
    omega
  · intro none
    refine ⟨inv.opened, inv.active, inv.idle, ?_⟩
    simp only
    omega

/-- With the one connection active, a snapshot is exact. -/
theorem snapshots_exact_sample :
    activeWorld.snapshot.total.hijacked = tally (· = .hijacked) activeWorld.snapshot.phase :=
  ((snapshots_exact_iff 0 activeWorld (step_run activeWorld_run)).mpr (by decide)).2.2.2

/-- Once it is hijacked, the snapshot says that no connection is. -/
theorem hijacked_snapshot_lost :
    let w := activeWorld.after () (.state .hijacked) .hijacked
    ReflTransGen Step (World.start Unit 0) w ∧ w.snapshot.phase () = .hijacked ∧
      w.snapshot.total = ⟨1, 0, 0, 0⟩ ∧ tally (· = .hijacked) w.snapshot.phase = 1 := by
  refine ⟨step_run
    (activeWorld_run.tail (Happens.event _ () (.state .hijacked) .hijacked rfl)), rfl, rfl, ?_⟩
  have all : {conn : Unit | (activeWorld.after () (.state .hijacked) .hijacked).snapshot.phase
      conn = .hijacked} = {()} := by
    ext conn
    exact iff_of_true rfl rfl
  rw [tally, all, Set.ncard_singleton]

end ConnManager
