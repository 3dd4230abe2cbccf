import Mathlib.Data.Nat.Notation
import Vince.RequestReply

/-!
# Transactions of the policy store (`opa_backend_store.go`)

A transaction is a goroutine that runs `manage` inside `db.Update` or `db.View` and takes events
from any number of calls of `send`. An action is one step of a call, a rendezvous on one of the two
channels, or a step of the goroutine alone. Badger commits an update iff `manage` returned no error,
and a transaction of `db.View` refuses to write.
-/

namespace OpaTxn

open RequestReply Relation

abbrev Bytes := List (Fin 256)

abbrev Content := Bytes → Option Bytes

inductive TxnError where
  | readOnlyTxn
  | emptyKey
  | keyNotFound
  /-- Another refusal of badger: a reserved key or a size limit. -/
  | refused (why : ℕ)
  | contextDone
  deriving DecidableEq

/-- What is left open of badger. -/
structure Badger where
  setError : Bytes → Bytes → Option TxnError
  /-- `Item.ValueSize` of a key and its value. -/
  valueSize : Bytes → Bytes → ℕ
  readTs : ℕ

inductive Event where
  | read (key : Bytes)
  | write (key value : Bytes)
  | id
  | commit
  | abort
  /-- An event under any other name. -/
  | other
  deriving DecidableEq

inductive Reply where
  | error (err : TxnError)
  | value (v : Bytes)
  | written
  | id (n : ℕ)
  deriving DecidableEq

structure Params where
  write : Bool := false
  deriving DecidableEq

structure State where
  params : Params
  db : Content
  /-- What the transaction sees, its own writes included. -/
  txn : Content
  id : ℕ
  err : Option TxnError
  /-- What `manage` returned, until `start` has dealt with it. -/
  returned : Option (Option TxnError)
  board : Board ℕ Event Reply TxnError

/-- The parameters are not kept. -/
def newTxn (db : Content) (_params : Params) : State :=
  { params := {}, db, txn := db, id := 0, err := none, returned := none, board := .init }

def get (txn : Content) (key : Bytes) : Except TxnError Bytes :=
  if key = [] then .error .emptyKey
  else match txn key with
    | none => .error .keyNotFound
    | some v => .ok v

/-- `ValueCopy` into a slice of the given size; a longer value goes into a slice that is dropped. -/
def valueCopy (size : ℕ) (val : Bytes) : Bytes :=
  if val.length ≤ size then val ++ List.replicate (size - val.length) ⟨0, by decide⟩
  else List.replicate size ⟨0, by decide⟩

namespace State

variable (b : Badger)

def set (s : State) (key value : Bytes) : Except TxnError State :=
  if s.params.write then
    match b.setError key value with
    | some err => .error err
    | none => .ok { s with txn := Function.update s.txn key (some value) }
  else .error .readOnlyTxn

/-- `otxn.output <- r` after the event of a call was taken. -/
def output (s : State) (c : ℕ) (e : Event) (r : Reply) : State :=
  { s with board := s.board.reply c e r }

/-- One round of `manage` with an event. -/
def manage (s : State) (c : ℕ) (e : Event) : State :=
  match e with
  | .read key => match get s.txn key with
    | .error err => s.output c e (.error err)
    | .ok v => s.output c e (.value (valueCopy (b.valueSize key v) v))
  | .write key value => match s.set b key value with
    | .error err => s.output c e (.error err)
    | .ok s' => s'.output c e .written
  | .id =>
    let id := if s.id = 0 then b.readTs else s.id
    { s with id }.output c e (.id id)
  | .abort | .commit => { s with returned := some none, board := s.board.close c e }
  | .other => { s with board := s.board.setCall c (.waiting e) }

/-- The end of `start`. -/
def finish (s : State) (result : Option TxnError) : State :=
  { s with
    returned := none
    err := result <|> s.err
    db := if s.params.write ∧ result = none then s.txn else s.db }

end State

inductive Action where
  /-- A call of `send` begins. -/
  | call (c : ℕ) (e : Event)
  /-- `manage` takes the event of a call. -/
  | receive (c : ℕ)
  /-- A call takes a reply. -/
  | deliver (c : ℕ)
  /-- `manage` sees that its context is done. -/
  | done
  | finish
  /-- `getID` keeps the id it was sent. -/
  | keepID (c : ℕ)
  deriving DecidableEq

def perform (b : Badger) (s : State) : Action → Option State
  | .call c e => match s.board.calls c with
    | .idle => match s.err with
      | some err => some { s with board := s.board.setCall c (.failed err) }
      | none => some { s with board := s.board.setCall c (.sending e) }
    | _ => none
  | .receive c => match s.board.loop, s.board.calls c with
    | .running, .sending e => some (s.manage b c e)
    | _, _ => none
  | .deliver c => match s.board.loop, s.board.calls c with
    | .replying r, .waiting e => some { s with board := s.board.deliver c e r }
    | _, _ => none
  | .done => match s.board.loop with
    | .running => some { s with returned := some (some .contextDone), board := s.board.quit }
    | _ => none
  | .finish => s.returned.map s.finish
  | .keepID c => match s.board.calls c with
    | .answered .id (.id n) => some { s with id := n }
    | _ => none

def run (b : Badger) (s : State) (actions : List Action) : Option State :=
  actions.foldlM (perform b) s

/-! ## Replies -/

section Replies

variable {b : Badger} {s t : State} {a : Action}

/-- What a round does to the channels. -/
theorem manage_board (s : State) (c : ℕ) (e : Event) :
    (∃ r, (s.manage b c e).board = s.board.reply c e r) ∨
      (s.manage b c e).board = s.board.close c e ∨
      e = .other ∧ (s.manage b c e).board = s.board.setCall c (.waiting e) := by
  cases e with
  | read key =>
    rw [State.manage]
    cases get s.txn key with
    | error err => exact Or.inl ⟨_, rfl⟩
    | ok v => exact Or.inl ⟨_, rfl⟩
  | write key value =>
    rw [State.manage, State.set]
    split
    · exact Or.inl ⟨_, rfl⟩
    · rename_i s' stored
      split at stored
      · split at stored
        · cases stored
        · cases stored
          exact Or.inl ⟨_, rfl⟩
      · cases stored
  | id => exact Or.inl ⟨_, rfl⟩
  | commit => exact Or.inr (Or.inl rfl)
  | abort => exact Or.inr (Or.inl rfl)
  | other => exact Or.inr (Or.inr ⟨rfl, rfl⟩)

/-- An action is a move of the protocol or leaves the channels alone, unless an event is taken
that `manage` does not know. -/
theorem perform_board (performed : perform b s a = some t)
    (known : ∀ c, s.board.calls c ≠ .sending .other) :
    t.board = s.board ∨ Move s.board t.board := by
  cases a with
  | call c e =>
    rw [perform] at performed
    split at performed
    · rename_i idle
      split at performed
      · cases performed
        exact Or.inr (.refuse _ idle)
      · cases performed
        exact Or.inr (.call e idle)
    · cases performed
  | receive c =>
    rw [perform] at performed
    split at performed
    · rename_i e running sends
      cases performed
      rcases manage_board (b := b) s c e with ⟨r, board⟩ | board | ⟨rfl, -⟩
      · exact Or.inr (board ▸ .reply r running sends)
      · exact Or.inr (board ▸ .close running sends)
      · exact absurd sends (known c)
    · cases performed
  | deliver c =>
    rw [perform] at performed
    split at performed
    · rename_i r e replying waits
      cases performed
      exact Or.inr (.deliver replying waits)
    · cases performed
  | done =>
    rw [perform] at performed
    split at performed
    · rename_i running
      cases performed
      exact Or.inr (.quit running)
    · cases performed
  | finish =>
    obtain ⟨result, -, rfl⟩ := Option.map_eq_some_iff.mp performed
    exact Or.inl rfl
  | keepID c =>
    rw [perform] at performed
    split at performed
    · cases performed
      exact Or.inl rfl
    · cases performed

theorem sending_of_update {calls : ℕ → Phase Event Reply TxnError} {c d : ℕ} {e : Event}
    {p : Phase Event Reply TxnError} (sends : Function.update calls d p c = .sending e)
    (not_new : p ≠ .sending e) : calls c = .sending e := by
  by_cases same : c = d
  · subst same
    rw [Function.update_self] at sends
    exact absurd sends not_new
  · rwa [Function.update_of_ne same] at sends

/-- A call sends the event it began with. -/
theorem perform_sending (performed : perform b s a = some t) {c : ℕ} {e : Event}
    (sends : t.board.calls c = .sending e) : s.board.calls c = .sending e ∨ a = .call c e := by
  cases a with
  | call d f =>
    rw [perform] at performed
    split at performed
    · split at performed
      · cases performed
        exact Or.inl (sending_of_update sends nofun)
      · cases performed
        by_cases same : c = d
        · subst same
          rw [Board.setCall_calls_self] at sends
          cases sends
          exact Or.inr rfl
        · rw [Board.setCall_calls_of_ne _ same] at sends
          exact Or.inl sends
    · cases performed
  | receive d =>
    rw [perform] at performed
    split at performed
    · rename_i f _ _
      cases performed
      left
      rcases manage_board (b := b) s d f with ⟨r, board⟩ | board | ⟨-, board⟩
      all_goals
        rw [board] at sends
        exact sending_of_update sends nofun
    · cases performed
  | deliver d =>
    rw [perform] at performed
    split at performed
    · cases performed
      exact Or.inl (sending_of_update sends nofun)
    · cases performed
  | done =>
    rw [perform] at performed
    split at performed
    · cases performed
      exact Or.inl sends
    · cases performed
  | finish =>
    obtain ⟨result, -, rfl⟩ := Option.map_eq_some_iff.mp performed
    exact Or.inl sends
  | keepID d =>
    rw [perform] at performed
    split at performed
    · cases performed
      exact Or.inl sends
    · cases performed

theorem run_paired (paired : Paired s.board) (known : ∀ c, s.board.calls c ≠ .sending .other)
    {actions : List Action} (known_calls : ∀ c, .call c .other ∉ actions)
    (ran : run b s actions = some t) : Paired t.board := by
  induction actions generalizing s with
  | nil =>
    cases ran
    exact paired
  | cons a actions ih =>
    rw [run, List.foldlM_cons] at ran
    obtain ⟨s', performed, ran⟩ := Option.bind_eq_some_iff.mp ran
    refine ih ?_ ?_ (fun c member => known_calls c (List.mem_cons_of_mem _ member)) ran
    · rcases perform_board performed known with same | move
      · rw [same]
        exact paired
      · exact paired.move move
    · intro c sends
      rcases perform_sending performed sends with sends | rfl
      · exact known c sends
      · exact known_calls c List.mem_cons_self

/-- Whatever the interleaving, a `send` that returns an event returns the reply to its own event,
and no event is answered twice. The names of all events must be known to `manage`. -/
theorem send_returns_own_reply (fresh : s.board = .init) {actions : List Action}
    (known : ∀ c, .call c .other ∉ actions) (ran : run b s actions = some t) (c : ℕ) :
    (∀ e r, t.board.calls c = .answered e r → t.board.computed c = [(e, r)]) ∧
      (t.board.computed c).length ≤ 1 ∧ (t.board.delivered c).length ≤ 1 := by
  have paired : Paired s.board := fresh ▸ paired_init
  have none_sends : ∀ c, s.board.calls c ≠ .sending .other := by
    rw [fresh]
    exact nofun
  exact (run_paired paired none_sends known ran).own_reply c

end Replies

def plainBadger : Badger := ⟨fun _ _ => none, fun _ v => v.length, 7⟩

/-- The second call overtakes the first. -/
theorem send_returns_own_reply_of_two :
    ∃ t, run plainBadger (newTxn (fun _ => none) ⟨false⟩)
        [.call 0 (.read [1]), .call 1 .id, .receive 1, .deliver 1, .receive 0, .deliver 0] =
          some t ∧
      t.board.computed 0 = [(.read [1], .error .keyNotFound)] ∧
      t.board.computed 1 = [(.id, .id 7)] := by
  have known : ∀ c, Action.call c .other ∉ [.call 0 (.read [1]), .call 1 .id, .receive 1,
      .deliver 1, .receive 0, .deliver 0] := by simp
  refine ⟨_, rfl, ?_, ?_⟩
  · exact (send_returns_own_reply (b := plainBadger) (s := newTxn (fun _ => none) ⟨false⟩) rfl
      known rfl 0).1 _ _ rfl
  · exact (send_returns_own_reply (b := plainBadger) (s := newTxn (fun _ => none) ⟨false⟩) rfl
      known rfl 1).1 _ _ rfl

/-! ## Commit and abort -/

/-- One client works through a list of events, each after the reply to the one before. -/
def Allowed (script : List Event) (s : State) : Action → Prop
  | .call c e => script[c]? = some e ∧ ∀ d < c, ∃ f r, s.board.calls d = .answered f r
  | _ => True

def Next (b : Badger) (script : List Event) (s t : State) : Prop :=
  ∃ a, Allowed script s a ∧ perform b s a = some t

def script (writes : List (Bytes × Bytes)) (ending : Event) : List Event :=
  writes.map (fun kv => .write kv.1 kv.2) ++ [ending]

/-- The content the writes should leave. -/
def written (db : Content) (writes : List (Bytes × Bytes)) : Content :=
  writes.foldl (fun db kv => Function.update db kv.1 (some kv.2)) db

section Endings

variable {b : Badger} {events : List Event} {s t : State} {k : ℕ}

/-- The client is about to send its event number `k`. -/
structure Ready (s : State) (k : ℕ) : Prop where
  running : s.board.loop = .running
  no_error : s.err = none
  answered : ∀ d < k, ∃ f r, s.board.calls d = .answered f r
  idle : ∀ d ≥ k, s.board.calls d = .idle

theorem ready_newTxn (db : Content) (params : Params) : Ready (newTxn db params) 0 where
  running := rfl
  no_error := rfl
  answered := nofun
  idle _ _ := rfl

theorem Ready.call (ready : Ready s k) {e : Event} (next : events[k]? = some e) :
    Next b events s { s with board := s.board.setCall k (.sending e) } := by
  refine ⟨.call k e, ⟨next, ready.answered⟩, ?_⟩
  rw [perform, ready.idle k (Nat.le_refl k), ready.no_error]

theorem manage_write (s : State) (c : ℕ) (key value : Bytes) :
    ∃ txn r, s.manage b c (.write key value) =
      { s with txn, board := s.board.reply c (.write key value) r } := by
  rw [State.manage, State.set]
  split
  · exact ⟨s.txn, _, rfl⟩
  · rename_i s' stored
    split at stored
    · split at stored
      · cases stored
      · cases stored
        exact ⟨_, _, rfl⟩
    · cases stored

theorem perform_receive {c : ℕ} {e : Event} (running : s.board.loop = .running)
    (sends : s.board.calls c = .sending e) :
    perform b s (.receive c) = some (s.manage b c e) := by
  rw [perform, running, sends]

/-- A write is answered, one way or the other, and the client goes on. -/
theorem Ready.write (ready : Ready s k) {key value : Bytes}
    (next : events[k]? = some (.write key value)) :
    ∃ t, ReflTransGen (Next b events) s t ∧ Ready t (k + 1) := by
  let sending : State := { s with board := s.board.setCall k (.sending (.write key value)) }
  obtain ⟨txn, r, managed⟩ := manage_write (b := b) sending k key value
  let replied : State :=
    { sending with txn, board := sending.board.reply k (.write key value) r }
  let t : State := { replied with board := replied.board.deliver k (.write key value) r }
  have called : Next b events s sending := ready.call next
  have received : Next b events sending replied := by
    refine ⟨.receive k, trivial, ?_⟩
    rw [perform_receive (s := sending) ready.running (Board.setCall_calls_self _ _ _), managed]
  have delivered : Next b events replied t := by
    refine ⟨.deliver k, trivial, ?_⟩
    have waits : replied.board.calls k = .waiting (.write key value) :=
      Function.update_self _ _ _
    have replying : replied.board.loop = .replying r := rfl
    rw [perform, waits, replying]
  refine ⟨t, .tail (.tail (.single called) received) delivered, rfl, ready.no_error, ?_, ?_⟩
  · intro d before
    by_cases same : d = k
    · subst same
      exact ⟨_, r, Function.update_self _ _ _⟩
    · obtain ⟨f, r', answered⟩ := ready.answered d (by omega)
      refine ⟨f, r', ?_⟩
      rw [← answered]
      simp [t, replied, sending, Board.deliver, Board.reply, Board.setCall, same]
  · intro d from_next
    have other : d ≠ k := by omega
    rw [← ready.idle d (by omega)]
    simp [t, replied, sending, Board.deliver, Board.reply, Board.setCall, other]

/-- The client works through any number of writes. -/
theorem Ready.writes (ready : Ready s k) {writes : List (Bytes × Bytes)} {rest : List Event}
    (next : events.drop k = writes.map (fun kv => .write kv.1 kv.2) ++ rest) :
    ∃ t, ReflTransGen (Next b events) s t ∧ Ready t (k + writes.length) := by
  induction writes generalizing s k with
  | nil => exact ⟨s, .refl, ready⟩
  | cons kv writes ih =>
    have head : events[k]? = some (.write kv.1 kv.2) := by
      have := congrArg (·[0]?) next
      simpa using this
    have tail : events.drop (k + 1) = writes.map (fun kv => .write kv.1 kv.2) ++ rest := by
      rw [← List.drop_drop, next]
      rfl
    obtain ⟨s', first, ready'⟩ := ready.write (b := b) head
    obtain ⟨t, path, ready_t⟩ := ih ready' tail
    refine ⟨t, first.trans path, ?_⟩
    rw [List.length_cons, Nat.add_comm writes.length 1, ← Nat.add_assoc]
    exact ready_t

/-- Nobody replies to the event that ends the transaction. -/
theorem Ready.ending (ready : Ready s k) {ending : Event}
    (ends : ending = .commit ∨ ending = .abort) (next : events[k]? = some ending) :
    ∃ t, ReflTransGen (Next b events) s t ∧ t.board.calls k = .waiting ending ∧
      t.board.loop = .stopped ∧ t.returned = none := by
  let sending : State := { s with board := s.board.setCall k (.sending ending) }
  let closed : State :=
    { sending with returned := some none, board := sending.board.close k ending }
  have called : Next b events s sending := ready.call next
  have received : Next b events sending closed := by
    refine ⟨.receive k, trivial, ?_⟩
    rw [perform_receive (s := sending) ready.running (Board.setCall_calls_self _ _ _)]
    rcases ends with rfl | rfl
    · rfl
    · rfl
  have finished : Next b events closed (closed.finish none) := ⟨.finish, trivial, rfl⟩
  exact ⟨_, .tail (.tail (.single called) received) finished, Function.update_self _ _ _, rfl,
    rfl⟩

theorem manage_frame (s : State) (c : ℕ) (e : Event) :
    (s.manage b c e).params = s.params ∧ (s.manage b c e).db = s.db := by
  cases e with
  | read key =>
    rw [State.manage]
    cases get s.txn key with
    | error err => exact ⟨rfl, rfl⟩
    | ok v => exact ⟨rfl, rfl⟩
  | write key value =>
    obtain ⟨txn, r, managed⟩ := manage_write (b := b) s c key value
    rw [managed]
    exact ⟨rfl, rfl⟩
  | _ => exact ⟨rfl, rfl⟩

/-- Without `Write` nothing reaches the database. -/
theorem perform_readOnly {a : Action} (readOnly : s.params.write = false)
    (performed : perform b s a = some t) : t.params.write = false ∧ t.db = s.db := by
  cases a with
  | finish =>
    obtain ⟨result, -, rfl⟩ := Option.map_eq_some_iff.mp performed
    refine ⟨readOnly, if_neg fun commits => ?_⟩
    rw [readOnly] at commits
    exact Bool.false_ne_true commits.1
  | receive c =>
    rw [perform] at performed
    split at performed
    · rename_i e _ _
      cases performed
      obtain ⟨params, db⟩ := manage_frame (b := b) s c e
      exact ⟨params ▸ readOnly, db⟩
    · cases performed
  | call c e =>
    rw [perform] at performed
    split at performed
    · split at performed <;> cases performed <;> exact ⟨readOnly, rfl⟩
    · cases performed
  | _ =>
    rw [perform] at performed
    split at performed
    · cases performed
      exact ⟨readOnly, rfl⟩
    · cases performed

theorem reaches_readOnly (readOnly : s.params.write = false)
    (path : ReflTransGen (Next b events) s t) : t.params.write = false ∧ t.db = s.db := by
  induction path with
  | refl => exact ⟨readOnly, rfl⟩
  | tail _ step ih =>
    obtain ⟨a, -, performed⟩ := step
    obtain ⟨readOnly', same⟩ := perform_readOnly ih.1 performed
    exact ⟨readOnly', same.trans ih.2⟩

theorem script_ending (writes : List (Bytes × Bytes)) (ending : Event) :
    (script writes ending)[writes.length]? = some ending := by
  rw [script, List.getElem?_append_right (by simp), List.length_map, Nat.sub_self]
  rfl

/-- The end of a transaction is reached, and there the client waits. -/
theorem reaches_ending (b : Badger) (db : Content) (params : Params)
    (writes : List (Bytes × Bytes)) {ending : Event}
    (ends : ending = .commit ∨ ending = .abort) :
    ∃ s, ReflTransGen (Next b (script writes ending)) (newTxn db params) s ∧
      s.board.calls writes.length = .waiting ending ∧ s.board.loop = .stopped ∧
      s.returned = none := by
  have whole : (script writes ending).drop 0 =
      writes.map (fun kv => .write kv.1 kv.2) ++ [ending] := rfl
  obtain ⟨s, path, ready⟩ := (ready_newTxn db params).writes (b := b) whole
  rw [Nat.zero_add] at ready
  obtain ⟨t, path', waits, stopped, returned⟩ := ready.ending (b := b) ends
    (script_ending writes ending)
  exact ⟨t, path.trans path', waits, stopped, returned⟩

/-- The client of a commit or abort always comes to wait for a loop that has returned. After a
commit the writes are in the database iff they change nothing, for no writes get there; an abort
leaves the database as it was. -/
theorem commit_and_abort (b : Badger) (db : Content) (writes : List (Bytes × Bytes)) :
    (∀ ending, ending = .commit ∨ ending = .abort →
      ∃ s, ReflTransGen (Next b (script writes ending)) (newTxn db ⟨true⟩) s ∧
        s.board.calls writes.length = .waiting ending ∧ s.board.loop = .stopped) ∧
    ((∀ s, ReflTransGen (Next b (script writes .commit)) (newTxn db ⟨true⟩) s →
        s.board.calls writes.length = .waiting .commit → s.board.loop = .stopped →
        s.returned = none → s.db = written db writes) ↔ written db writes = db) ∧
    (∀ s, ReflTransGen (Next b (script writes .abort)) (newTxn db ⟨true⟩) s →
      s.board.calls writes.length = .waiting .abort → s.board.loop = .stopped →
      s.returned = none → s.db = db) := by
  refine ⟨fun ending ends => ?_, ?_, fun s path _ _ _ => (reaches_readOnly rfl path).2⟩
  · obtain ⟨s, path, waits, stopped, -⟩ := reaches_ending b db ⟨true⟩ writes ends
    exact ⟨s, path, waits, stopped⟩
  · constructor
    · intro right
      obtain ⟨s, path, waits, stopped, returned⟩ :=
        reaches_ending b db ⟨true⟩ writes (Or.inl rfl)
      exact (right s path waits stopped returned).symm.trans (reaches_readOnly rfl path).2
    · intro same s path _ _ _
      exact (reaches_readOnly rfl path).2.trans same.symm

/-- One write and a commit: the client waits for good, and the write is gone. -/
theorem commit_of_one_write :
    ∃ s, ReflTransGen (Next plainBadger (script [([1], [2])] .commit))
        (newTxn (fun _ => none) ⟨true⟩) s ∧
      s.board.calls 1 = .waiting .commit ∧ s.board.loop = .stopped ∧ s.returned = none ∧
      s.db [1] = none ∧ written (fun _ => none) [([1], [2])] [1] = some [2] := by
  obtain ⟨s, path, waits, stopped, returned⟩ :=
    reaches_ending plainBadger (fun _ => none) ⟨true⟩ [([1], [2])] (Or.inl rfl)
  refine ⟨s, path, waits, stopped, returned, ?_, rfl⟩
  rw [(reaches_readOnly rfl path).2]
  rfl

end Endings

end OpaTxn
