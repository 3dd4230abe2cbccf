import Vince.FileCache
import Vince.Transitions

/-!
# Log lines through the cache of open files (`ngx_log.go`)

`cacheLogger.Print` looks the path up, opens and puts it in on a miss, and writes to the file it
got. The cache holds its lock during each of its operations and not between them, so the steps of
any number of clients come in any order, and the ticks of `manageKeys` among them.
-/

namespace CacheLogger

open GoText Function Relation FileCache

/-- Where a call of `Print` stands. -/
inductive Stage (Handle : Type) where
  | idle
  | missed (path : Text)
  | holding (file : Handle)

/-- A `Write`, and whether the cache had closed the file by then. -/
structure Write (Handle : Type) where
  file : Handle
  late : Bool
  deriving DecidableEq

structure World (Client Handle : Type) where
  cache : Cache Handle
  stage : Client → Stage Handle
  opened : List Handle
  writes : List (Write Handle)

inductive Action (Client Handle : Type) where
  | get (client : Client) (path : Text)
  | put (client : Client) (path : Text) (opened : Except Text Handle)
  | write (client : Client) (file : Handle)
  | delete (keys : List Text)
  | forget (junk : List Text)

variable {Client Handle : Type}

def World.start (Client : Type) (cache : Cache Handle) : World Client Handle :=
  ⟨cache, fun _ => .idle, [], []⟩

/-- What a client may do next. The opener returns a file it never returned before. -/
def World.Legal (w : World Client Handle) : Action Client Handle → Prop
  | .get client _ => w.stage client = .idle
  | .put client path opened =>
    w.stage client = .missed path ∧ ∀ file, opened = .ok file → file ∉ w.opened
  | .write client file => w.stage client = .holding file
  | .delete _ => True
  | .forget _ => True

/-- The stage after `Get`. -/
def Stage.found (path : Text) : Option Handle → Stage Handle
  | some file => .holding file
  | none => .missed path

/-- The stage after `Put`; `Print` returns its error. -/
def Stage.put : Except Text Handle → Stage Handle
  | .ok file => .holding file
  | .error _ => .idle

variable [DecidableEq Client] [DecidableEq Handle]

def World.after (w : World Client Handle) : Action Client Handle → World Client Handle
  | .get client path =>
    { w with
      cache := (w.cache.get path).2
      stage := update w.stage client (.found path (w.cache.get path).1) }
  | .put client path opened =>
    { w with
      cache := (w.cache.put path opened).2
      stage := update w.stage client (.put (w.cache.put path opened).1)
      opened := opened.toOption.toList ++ w.opened }
  | .write client file =>
    { w with
      stage := update w.stage client .idle
      writes := ⟨file, decide (file ∈ w.cache.closed)⟩ :: w.writes }
  | .delete keys => { w with cache := w.cache.delete keys }
  | .forget junk => { w with cache := w.cache.forget junk }

/-- Legal actions, of which only some may be allowed. -/
inductive Step (allowed : World Client Handle → Action Client Handle → Prop) :
    World Client Handle → World Client Handle → Prop where
  | act (w : World Client Handle) (action : Action Client Handle) (legal : w.Legal action)
      (ok : allowed w action) : Step allowed w (w.after action)

/-- The files that an action closes. -/
def World.victims (w : World Client Handle) : Action Client Handle → List Handle
  | .put _ path (.ok _) => w.cache.displaced path
  | .delete keys => w.cache.deleted keys
  | _ => []

/-- The action closes no file that somebody is yet to write to. -/
def World.Careful (w : World Client Handle) (action : Action Client Handle) : Prop :=
  ∀ file ∈ w.victims action, ∀ client, w.stage client ≠ .holding file

/-! ## What every legal action keeps -/

/-- The files opened so far are those in the cache and those closed, each once. -/
structure Owned (w : World Client Handle) : Prop where
  cache : Inv w.cache
  owned : (w.cache.files ++ w.cache.closed).Perm w.opened
  fresh : w.opened.Nodup

variable {w : World Client Handle} {action : Action Client Handle} {client : Client}
  {file : Handle}

omit [DecidableEq Client] [DecidableEq Handle] in
theorem Owned.not_closed (owned : Owned w) (mem : file ∈ w.cache.files) :
    file ∉ w.cache.closed := by
  have nodup := owned.owned.nodup_iff.mpr owned.fresh
  exact fun closed => (List.nodup_append.mp nodup).2.2 file mem file closed rfl

omit [DecidableEq Client] [DecidableEq Handle] in
theorem Owned.of_effect {cache : Cache Handle} {keys : List Text} {opened : List Handle}
    (owned : Owned w) (effect : Effect w.cache cache keys opened) :
    (cache.files ++ cache.closed).Perm (opened ++ w.opened) :=
  effect.owned.trans (owned.owned.append_left opened)

theorem owned_after (owned : Owned w) (legal : w.Legal action) : Owned (w.after action) := by
  cases action with
  | get client path =>
    have effect := get_effect owned.cache path
    exact ⟨effect.inv, owned.of_effect effect, owned.fresh⟩
  | put client path opened =>
    cases opened with
    | error err => exact ⟨owned.cache, owned.owned, owned.fresh⟩
    | ok file =>
      have effect := put_effect owned.cache path file
      exact ⟨effect.inv, owned.of_effect effect,
        List.nodup_cons.mpr ⟨legal.2 file rfl, owned.fresh⟩⟩
  | write client file => exact ⟨owned.cache, owned.owned, owned.fresh⟩
  | delete keys =>
    have effect := delete_effect owned.cache keys
    exact ⟨effect.inv, owned.of_effect effect, owned.fresh⟩
  | forget junk =>
    have effect := forget_effect owned.cache junk
    exact ⟨effect.inv, owned.of_effect effect, owned.fresh⟩

/-- The victims are what an action closes. -/
theorem mem_closed_after (owned : Owned w) (action : Action Client Handle) (file : Handle) :
    file ∈ (w.after action).cache.closed ↔ file ∈ w.cache.closed ∨ file ∈ w.victims action := by
  cases action with
  | get client path => simp [World.after, World.victims, closed_get]
  | put client path opened =>
    cases opened with
    | error err => simp [World.after, World.victims, Cache.put]
    | ok new => simp [World.after, World.victims, closed_put]
  | write client file => simp [World.after, World.victims]
  | delete keys => exact mem_closed_delete owned.cache keys file
  | forget junk => simp [World.after, World.victims, Cache.forget]

/-- The client whose `Print` goes on with the action. -/
def Action.actor : Action Client Handle → Option Client
  | .get client _ => some client
  | .put client _ _ => some client
  | .write client _ => some client
  | .delete _ => none
  | .forget _ => none

theorem stage_of_other (other : action.actor ≠ some client) :
    (w.after action).stage client = w.stage client := by
  cases action with
  | get actor path => exact update_of_ne (fun same => other (congrArg some same.symm)) ..
  | put actor path opened => exact update_of_ne (fun same => other (congrArg some same.symm)) ..
  | write actor written => exact update_of_ne (fun same => other (congrArg some same.symm)) ..
  | delete keys => rfl
  | forget junk => rfl

theorem stage_get (w : World Client Handle) (client : Client) (path : Text) :
    (w.after (.get client path)).stage client = .found path (w.cache.get path).1 := by
  simp [World.after]

theorem stage_put (w : World Client Handle) (client : Client) (path : Text)
    (opened : Except Text Handle) :
    (w.after (.put client path opened)).stage client = .put (w.cache.put path opened).1 := by
  simp [World.after]

theorem stage_write (w : World Client Handle) (client : Client) (file : Handle) :
    (w.after (.write client file)).stage client = .idle := by
  simp [World.after]

/-- What a client gets from the cache is in it. -/
theorem actor_holding_after (owned : Owned w) (actor : action.actor = some client)
    (holds : (w.after action).stage client = .holding file) :
    file ∈ (w.after action).cache.files := by
  cases action with
  | get other path =>
    cases actor
    cases got : (w.cache.get path).1 with
    | none =>
      rw [stage_get, got] at holds
      cases holds
    | some found =>
      rw [stage_get, got] at holds
      cases holds
      have kept := (get_effect owned.cache path).owned
      rw [List.nil_append, closed_get, List.perm_append_right_iff] at kept
      exact kept.mem_iff.mpr (get_mem_files owned.cache got)
  | put other path opened =>
    cases actor
    rw [stage_put] at holds
    cases opened with
    | error err => cases holds
    | ok new =>
      cases holds
      exact mem_files_put w.cache path _
  | write other written =>
    cases actor
    rw [stage_write] at holds
    cases holds
  | delete keys => cases actor
  | forget junk => cases actor

/-- Whoever had a file that is closed under them still has it. -/
theorem still_holding (legal : w.Legal action) (victim : file ∈ w.victims action)
    (holds : w.stage client = .holding file) : (w.after action).stage client = .holding file := by
  cases action with
  | put other path opened =>
    rw [stage_of_other]
    · exact holds
    · rintro same
      cases same
      rw [legal.1] at holds
      cases holds
  | delete keys => exact holds
  | get other path => cases victim
  | write other written => cases victim
  | forget junk => cases victim

/-! ## What careful actions keep -/

/-- Whoever has a file has an open one, and so far every line was written to an open file. -/
structure Timely (w : World Client Handle) : Prop extends Owned w where
  held : ∀ client file, w.stage client = .holding file → file ∉ w.cache.closed
  timely : ∀ write ∈ w.writes, write.late = false

theorem held_after_iff (timely : Timely w) (legal : w.Legal action) :
    (∀ client file, (w.after action).stage client = .holding file →
      file ∉ (w.after action).cache.closed) ↔ w.Careful action := by
  constructor
  · intro held file victim client holds
    refine held client file (still_holding legal victim holds) ?_
    exact (mem_closed_after timely.toOwned action file).mpr (.inr victim)
  · intro careful client file holds
    by_cases actor : action.actor = some client
    · have got := actor_holding_after timely.toOwned actor holds
      exact (owned_after timely.toOwned legal).not_closed got
    · rw [stage_of_other actor] at holds
      rw [mem_closed_after timely.toOwned]
      rintro (closed | victim)
      · exact timely.held client file holds closed
      · exact careful file victim client holds

theorem timely_after (timely : Timely w) (legal : w.Legal action) (careful : w.Careful action) :
    Timely (w.after action) where
  toOwned := owned_after timely.toOwned legal
  held := (held_after_iff timely legal).mpr careful
  timely := by
    cases action with
    | write client file =>
      intro write mem
      obtain rfl | earlier := List.mem_cons.mp mem
      · exact decide_eq_false (timely.held client file legal)
      · exact timely.timely write earlier
    | get client path => exact timely.timely
    | put client path opened => exact timely.timely
    | delete keys => exact timely.timely
    | forget junk => exact timely.timely

omit [DecidableEq Client] [DecidableEq Handle] in
theorem timely_start {opts : Options} {cache : Cache Handle}
    (started : Cache.init opts = some cache) : Timely (World.start Client cache) where
  cache := inv_init started
  owned := by
    rw [World.start, init_cases started]
    exact .refl _
  fresh := List.nodup_nil
  held := by
    intro client file holds
    cases holds
  timely := by
    intro write mem
    cases mem

theorem timely_run {opts : Options} {cache : Cache Handle}
    (started : Cache.init opts = some cache)
    (run : ReflTransGen (Step World.Careful) (World.start Client cache) w) : Timely w := by
  refine Transitions.kept_by_run ?_ (timely_start started) run
  intro w w' timely step
  cases step with
  | act action legal careful => exact timely_after timely legal careful

/-- As long as every action is careful, every line is written to a file not closed before; and
from there on an action leaves every file that is yet to be written to open exactly if it is
careful too. -/
theorem careful_writes_open (opts : Options) (cache : Cache Handle)
    (started : Cache.init opts = some cache) (w : World Client Handle)
    (run : ReflTransGen (Step World.Careful) (World.start Client cache) w) :
    (∀ write ∈ w.writes, write.late = false) ∧
      ∀ action, w.Legal action →
        ((∀ client file, (w.after action).stage client = .holding file →
          file ∉ (w.after action).cache.closed) ↔ w.Careful action) := by
  have timely := timely_run started run
  exact ⟨timely.timely, fun action legal => held_after_iff timely legal⟩

/-- The start with an empty cache. -/
private def fresh : World Bool Nat :=
  .start Bool ⟨.defaults, [], fun _ => none, fun _ => none, 0, []⟩

/-- One client alone: its line goes to the file it has just opened. -/
theorem careful_writes_open_sample :
    let w := ((fresh.after (.get true ['a'])).after (.put true ['a'] (.ok 0))).after (.write true 0)
    w.writes = [⟨0, false⟩] ∧ ∀ write ∈ w.writes, write.late = false := by
  refine ⟨rfl, (careful_writes_open .defaults _ rfl _ ?_).1⟩
  refine ReflTransGen.tail (ReflTransGen.tail (.single (.act _ (.get true ['a']) rfl ?_))
    (.act _ (.put true ['a'] (.ok 0)) ⟨rfl, fun file _ => List.not_mem_nil⟩ ?_))
    (.act _ (.write true 0) rfl ?_)
  all_goals
    intro file victim
    cases victim

/-- Two clients find the path missing and both open it: the second `Put` closes the file of the
first, who then writes to it. -/
theorem line_written_to_closed_file :
    let w := ((((fresh.after (.get true ['a'])).after (.get false ['a'])).after
      (.put true ['a'] (.ok 0))).after (.put false ['a'] (.ok 1))).after (.write true 0)
    ReflTransGen (Step fun _ _ => True) fresh w ∧ w.cache.closed = [0] ∧
      w.writes = [⟨0, true⟩] := by
  refine ⟨?_, rfl, rfl⟩
  refine (((ReflTransGen.single (.act _ (.get true ['a']) rfl trivial)).tail
    (.act _ (.get false ['a']) rfl trivial)).tail
    (.act _ (.put true ['a'] (.ok 0)) ⟨rfl, fun file _ => List.not_mem_nil⟩ trivial)).tail
    (.act _ (.put false ['a'] (.ok 1)) ⟨rfl, ?_⟩ trivial) |>.tail
    (.act _ (.write true 0) rfl trivial)
  rintro file ⟨⟩
  decide

end CacheLogger
