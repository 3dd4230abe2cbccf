import Vince.LastWrites
import Vince.SslOptions

/-!
# The servers of an upstream (`upstreamServer.init`)

A `server` line has an address and parameters. Some of these are single words, the others have a
value behind an equals sign. `max_fails` is stored where `max_conns` belongs.
-/

namespace Upstream

open GoText GoNumbers KeyedWrites
open Effects (Failure map_eq_ok_iff)
open ProxyOptions (Setting)
open ServerRules (Rule)
open Ssl (toOption filled filled_inj)

structure UpstreamServer where
  url : Text := []
  weight : Setting ℤ := ⟨false, 0⟩
  maxConn : Setting ℤ := ⟨false, 0⟩
  maxFails : Setting ℤ := ⟨false, 0⟩
  failTimeout : Setting ℤ := ⟨false, 0⟩
  backup : Setting Bool := ⟨false, false⟩
  down : Setting Bool := ⟨false, false⟩
  resolve : Setting Bool := ⟨false, false⟩
  route : Setting Text := ⟨false, []⟩
  service : Setting Text := ⟨false, []⟩
  slowStart : Setting ℤ := ⟨false, 0⟩
  drain : Setting Bool := ⟨false, false⟩

inductive Parameter where
  | weight
  | maxConn
  | maxFails
  | failTimeout
  | backup
  | down
  | resolve
  | route
  | service
  | slowStart
  | drain
  deriving DecidableEq

namespace Parameter

def word : Parameter → Text
  | .weight => "weight".toList
  | .maxConn => "max_conns".toList
  | .maxFails => "max_fails".toList
  | .failTimeout => "fail_timeout".toList
  | .backup => "backup".toList
  | .down => "down".toList
  | .resolve => "resolve".toList
  | .route => "route".toList
  | .service => "service".toList
  | .slowStart => "slow_start".toList
  | .drain => "drain".toList

/-- Which case of the two switches a parameter is: the single words are compared as a whole, the
others up to the first equals sign. -/
def of (param : Text) : Option Parameter :=
  match [backup, down, resolve, drain].find? (·.word = param) with
  | some p => some p
  | none => [weight, maxConn, maxFails, failTimeout, route, service, slowStart].find?
      (·.word = (param.splitOn '=').headD [])

@[reducible] def Val : Parameter → Type
  | .weight | .maxConn | .maxFails | .failTimeout | .slowStart => ℤ
  | .backup | .down | .resolve | .drain => Bool
  | .route | .service => Text

end Parameter

def UpstreamServer.get (s : UpstreamServer) : (k : Parameter) → Setting k.Val
  | .weight => s.weight
  | .maxConn => s.maxConn
  | .maxFails => s.maxFails
  | .failTimeout => s.failTimeout
  | .backup => s.backup
  | .down => s.down
  | .resolve => s.resolve
  | .route => s.route
  | .service => s.service
  | .slowStart => s.slowStart
  | .drain => s.drain

theorem eq_of_get_eq {s t : UpstreamServer} (url : s.url = t.url)
    (same : ∀ k, s.get k = t.get k) : s = t := by
  cases s
  cases t
  rw [UpstreamServer.mk.injEq]
  exact ⟨url, same .weight, same .maxConn, same .maxFails, same .failTimeout, same .backup,
    same .down, same .resolve, same .route, same .service, same .slowStart, same .drain⟩

/-! ## The parameters -/

inductive ParamError where
  | atoi (e : NumError)
  | duration (e : DurationError)
  deriving DecidableEq

/-- `parts[1]`. -/
def secondPart (param : Text) : Except (Failure ParamError) Text :=
  match (param.splitOn '=')[1]? with
  | none => .error .panic
  | some v => .ok v

def number (param : Text) : Except (Failure ParamError) ℤ :=
  (secondPart param).bind fun v => (atoi v).mapError fun e => .error (.atoi e)

def duration (param : Text) : Except (Failure ParamError) ℤ :=
  (secondPart param).bind fun v => (parseDuration v).mapError fun e => .error (.duration e)

/-- What a parameter does to the server. -/
def switch (param : Text) :
    Parameter → Except (Failure ParamError) (UpstreamServer → UpstreamServer)
  | .backup => .ok fun s => { s with backup := ⟨true, true⟩ }
  | .down => .ok fun s => { s with down := ⟨true, true⟩ }
  | .resolve => .ok fun s => { s with resolve := ⟨true, true⟩ }
  | .drain => .ok fun s => { s with drain := ⟨true, true⟩ }
  | .weight => (number param).map fun n s => { s with weight := ⟨true, n⟩ }
  | .maxConn => (number param).map fun n s => { s with maxConn := ⟨true, n⟩ }
  -- not `maxFails`
  | .maxFails => (number param).map fun n s => { s with maxConn := ⟨true, n⟩ }
  | .failTimeout => (duration param).map fun n s => { s with failTimeout := ⟨true, n⟩ }
  | .route => (secondPart param).map fun v s => { s with route := ⟨true, v⟩ }
  | .service => (secondPart param).map fun v s => { s with service := ⟨true, v⟩ }
  | .slowStart => (duration param).map fun n s => { s with slowStart := ⟨true, n⟩ }

def effect (param : Text) : Except (Failure ParamError) (UpstreamServer → UpstreamServer) :=
  match Parameter.of param with
  | none => .ok id
  | some d => switch param d

/-- One round of the loop. -/
def setParam (s : UpstreamServer) (param : Text) : Except (Failure ParamError) UpstreamServer :=
  (effect param).map (· s)

def init : List Text → Except (Failure ParamError) UpstreamServer
  | [] => .error .panic
  | url :: params => params.foldlM setParam { url := url }

/-! ## What a parameter stores -/

/-- The field into which a parameter is stored. -/
def Parameter.target : Parameter → Parameter
  | .maxFails => .maxConn
  | k => k

/-- A change of the server that stores into one field, or into none. -/
structure Stores (target : Option Parameter) (f : UpstreamServer → UpstreamServer) : Prop where
  url : ∀ s, (f s).url = s.url
  writes : ∀ k, (toOption ((f {}).get k)).isSome = decide (target = some k)
  get : ∀ k s, (f s).get k = ((toOption ((f {}).get k)).map fun v => ⟨true, v⟩).getD (s.get k)

theorem toOption_fresh (k : Parameter) : toOption (({} : UpstreamServer).get k) = none := by
  cases k <;> rfl

theorem stores_id : Stores none id := by
  refine ⟨fun _ => rfl, fun k => ?_, fun k s => ?_⟩
  · simp [toOption_fresh]
  · simp [toOption_fresh]

theorem stores_switch {param : Text} {d : Parameter} {f : UpstreamServer → UpstreamServer}
    (ran : switch param d = .ok f) : Stores (some d.target) f := by
  cases d
  case backup | down | resolve | drain =>
    cases ran
    refine ⟨fun _ => rfl, fun k => ?_, fun k s => ?_⟩
    · cases k <;> rfl
    · cases k <;> rfl
  all_goals
    obtain ⟨a, -, rfl⟩ := map_eq_ok_iff.mp ran
    refine ⟨fun _ => rfl, fun k => ?_, fun k s => ?_⟩
    · cases k <;> rfl
    · cases k <;> rfl

theorem stores_effect {param : Text} {f : UpstreamServer → UpstreamServer}
    (ran : effect param = .ok f) : Stores ((Parameter.of param).map Parameter.target) f := by
  rw [effect] at ran
  cases named : Parameter.of param with
  | none =>
    rw [named] at ran
    cases ran
    exact stores_id
  | some d =>
    rw [named] at ran
    exact stores_switch ran

/-- What a parameter stores into a field. -/
def write (k : Parameter) (param : Text) : Option k.Val :=
  match effect param with
  | .error _ => none
  | .ok f => toOption ((f {}).get k)

theorem sets_get (k : Parameter) :
    LastWrites.Sets setParam (UpstreamServer.get · k)
      (fun param => (write k param).map fun v => ⟨true, v⟩) := by
  intro s param s' ran
  obtain ⟨f, result, rfl⟩ := map_eq_ok_iff.mp ran
  have written : write k param = toOption ((f {}).get k) := by rw [write, result]
  show (f s).get k = ((write k param).map _).getD (s.get k)
  rw [written]
  exact (stores_effect result).get k s

theorem sets_url : LastWrites.Sets setParam UpstreamServer.url fun _ => none := by
  intro s param s' ran
  obtain ⟨f, result, rfl⟩ := map_eq_ok_iff.mp ran
  exact (stores_effect result).url s

/-- The loop accepts parameters one by one. -/
theorem init_ok_iff (url : Text) (params : List Text) :
    (∃ s, init (url :: params) = .ok s) ↔ ∀ param ∈ params, ∃ f, effect param = .ok f := by
  refine LastWrites.foldlM_ok_iff (fun s param => ?_) params _
  constructor
  · rintro ⟨s', ran⟩
    obtain ⟨f, result, -⟩ := map_eq_ok_iff.mp ran
    exact ⟨f, result⟩
  · rintro ⟨f, result⟩
    exact ⟨f s, map_eq_ok_iff.mpr ⟨f, result, rfl⟩⟩

def settled (k : Parameter) (v : Option k.Val) : Setting k.Val :=
  filled (({} : UpstreamServer).get k) v

theorem settled_inj {k : Parameter} {v w : Option k.Val} : settled k v = settled k w ↔ v = w :=
  filled_inj (toOption_fresh k)

theorem get_fresh (url : Text) (k : Parameter) :
    ({ url := url } : UpstreamServer).get k = ({} : UpstreamServer).get k := by
  cases k <;> rfl

variable {url : Text} {params : List Text} {server : UpstreamServer}

theorem get_init (accepted : init (url :: params) = .ok server) (k : Parameter) :
    server.get k = settled k (lastWrite (write k) params) := by
  have last := (sets_get k).foldlM accepted
  rw [← List.map_filterMap, List.getLast?_map, get_fresh] at last
  exact last

theorem url_init (accepted : init (url :: params) = .ok server) : server.url = url := by
  have last := sets_url.foldlM accepted
  rw [List.filterMap_none] at last
  exact last

/-! ## Parameters that are independent of each other -/

/-- What the last occurrence of a parameter stores into a field. -/
def lastParam (d k : Parameter) (params : List Text) : Option k.Val :=
  lastOf Parameter.of (write k) (some d) params

/-- Every field is what the last occurrence of its own parameter alone makes of it, and the order
of different parameters does not matter. -/
structure Independent (url : Text) (params : List Text) (server : UpstreamServer) : Prop where
  determined : ∀ k, ∃ alone,
    init (url :: (ofKey Parameter.of (some k) params).getLast?.toList) = .ok alone ∧
      server.get k = alone.get k
  rearranged : ∀ params', Rearranges Parameter.of params' params →
    init (url :: params') = .ok server

theorem init_rearranged (accepted : init (url :: params) = .ok server) {params' : List Text}
    (rearranges : Rearranges Parameter.of params' params) :
    ∃ server', init (url :: params') = .ok server' := by
  refine (init_ok_iff url params').mpr fun param member => ?_
  exact (init_ok_iff url params).mp ⟨server, accepted⟩ param (rearranges.mem_iff.mp member)

theorem init_last (accepted : init (url :: params) = .ok server) (k : Parameter) :
    ∃ alone, init (url :: (ofKey Parameter.of (some k) params).getLast?.toList) = .ok alone ∧
      alone.get k = settled k (lastParam k k params) := by
  have each := (init_ok_iff url params).mp ⟨server, accepted⟩
  obtain ⟨alone, ran⟩ : ∃ alone,
      init (url :: (ofKey Parameter.of (some k) params).getLast?.toList) = .ok alone := by
    refine (init_ok_iff url _).mpr fun param member => each param ?_
    have last : (ofKey Parameter.of (some k) params).getLast? = some param := by
      simpa using member
    exact (mem_ofKey.mp (List.mem_of_getLast? last)).1
  refine ⟨alone, ran, ?_⟩
  rw [get_init ran k, settled_inj, lastParam, lastOf]
  cases (ofKey Parameter.of (some k) params).getLast? with
  | none => rfl
  | some param => exact lastWrite_singleton (write k) param

theorem independent_iff_lastWrite (accepted : init (url :: params) = .ok server) :
    Independent url params server ↔ ∀ k params', Rearranges Parameter.of params' params →
      lastWrite (write k) params' = lastParam k k params := by
  constructor
  · intro independent k params' rearranges
    obtain ⟨alone, ran, same⟩ := independent.determined k
    obtain ⟨alone', ran', settles⟩ := init_last accepted k
    rw [ran] at ran'
    cases ran'
    rw [← settled_inj, ← settles, ← same, get_init (independent.rearranged params' rearranges) k]
  · intro last
    refine ⟨fun k => ?_, fun params' rearranges => ?_⟩
    · obtain ⟨alone, ran, settles⟩ := init_last accepted k
      refine ⟨alone, ran, ?_⟩
      rw [settles, get_init accepted k, last k params (Rearranges.refl params)]
    · obtain ⟨server', ran⟩ := init_rearranged accepted rearranges
      rw [ran]
      congr 1
      refine eq_of_get_eq ?_ fun k => ?_
      · rw [url_init ran, url_init accepted]
      · rw [get_init ran, get_init accepted, last k params' rearranges,
          last k params (Rearranges.refl params)]

theorem isSome_write {param : Text} {f : UpstreamServer → UpstreamServer}
    (ran : effect param = .ok f) (k : Parameter) :
    (write k param).isSome ↔ (Parameter.of param).map Parameter.target = some k := by
  rw [write, ran]
  show (toOption ((f {}).get k)).isSome ↔ _
  rw [(stores_effect ran).writes k, decide_eq_true_iff]

theorem lastWrite_iff (accepted : init (url :: params) = .ok server) {d k : Parameter}
    (target : d.target = k) (v : k.Val) :
    lastWrite (write k) (ofKey Parameter.of (some d) params) = some v ↔
      lastParam d k params = some v := by
  refine ⟨?_, lastWrite_of_lastOf⟩
  have each := (init_ok_iff url params).mp ⟨server, accepted⟩
  -- every occurrence of the parameter stores, so the last one does
  refine lastWrite_ofKey_iff.mpr (fun param member _ => ?_) v
  cases last : (ofKey Parameter.of (some d) params).getLast? with
  | none =>
    rw [List.getLast?_eq_none_iff.mp last] at member
    cases member
  | some other =>
    obtain ⟨inside, named⟩ := mem_ofKey.mp (List.mem_of_getLast? last)
    obtain ⟨f, ran⟩ := each other inside
    rw [lastOf, last, Option.bind_some, isSome_write ran, named, Option.map_some, target]

theorem independent_iff (accepted : init (url :: params) = .ok server) :
    Independent url params server ↔
      ∀ n, lastParam .maxFails .maxConn params = some n →
        lastParam .maxConn .maxConn params = some n := by
  rw [independent_iff_lastWrite accepted]
  constructor
  · intro last n fails
    refine lastWrite_rearranged_iff.mp (last .maxConn) (some .maxFails) n ?_
    exact lastWrite_of_lastOf fails
  · intro agree k
    refine lastWrite_rearranged_iff.mpr fun j v written => ?_
    have each := (init_ok_iff url params).mp ⟨server, accepted⟩
    obtain ⟨param, member, wrote⟩ := List.mem_filterMap.mp (List.mem_of_getLast? written)
    obtain ⟨inside, named⟩ := mem_ofKey.mp member
    obtain ⟨f, ran⟩ := each param inside
    have into := (isSome_write ran k).mp (Option.isSome_of_eq_some wrote)
    obtain ⟨d, of_eq, target⟩ := Option.map_eq_some_iff.mp into
    rw [← named, of_eq, lastWrite_iff accepted target] at written
    by_cases fails : d = .maxFails
    · subst fails
      cases target
      exact agree v written
    · have own : d = k := by
        cases d
        case maxFails => exact absurd rfl fails
        all_goals exact target
      rw [own] at written
      exact written

/-- The options of a listener, and those of the server of an upstream, are independent of each
other under the two conditions, and only then. -/
theorem options_independent_iff {ε : Type} (env : Ssl.Env ε) (rules : List Rule) (url : Text)
    (params : List Text) (server : UpstreamServer)
    (accepted : init (url :: params) = .ok server) :
    (Ssl.Independent env rules ↔ Ssl.Consistent env rules) ∧
      (Independent url params server ↔
        ∀ n, lastParam .maxFails .maxConn params = some n →
          lastParam .maxConn .maxConn params = some n) :=
  ⟨Ssl.independent_iff, independent_iff accepted⟩

/-- A machine where every check succeeds. -/
def calmEnv : Ssl.Env Unit where
  toBytes _ := .ok 0
  checkFile _ := .ok ()
  standardCiphers arg := .ok [arg]
  parseURL _ := .ok ()

theorem options_independent_sample :
    init ["a".toList, "weight=3".toList, "max_conns=5".toList] =
        .ok { url := "a".toList, weight := ⟨true, 3⟩, maxConn := ⟨true, 5⟩ } ∧
      Ssl.Independent calmEnv [⟨"ssl_certificate".toList, ["c".toList], []⟩,
        ⟨"ssl_stapling".toList, ["on".toList], []⟩] ∧
      Independent "a".toList ["weight=3".toList, "max_conns=5".toList]
        { url := "a".toList, weight := ⟨true, 3⟩, maxConn := ⟨true, 5⟩ } := by
  have accepted : init ["a".toList, "weight=3".toList, "max_conns=5".toList] =
      .ok { url := "a".toList, weight := ⟨true, 3⟩, maxConn := ⟨true, 5⟩ } := by rfl
  have both := options_independent_iff calmEnv [⟨"ssl_certificate".toList, ["c".toList], []⟩,
    ⟨"ssl_stapling".toList, ["on".toList], []⟩] "a".toList ["weight=3".toList, "max_conns=5".toList]
    _ accepted
  refine ⟨accepted, both.1.mpr (.of_nodup ?_ ?_ ?_), both.2.mpr ?_⟩
  · decide +kernel
  · decide +kernel
  · decide +kernel
  · intro n fails
    have none : lastParam .maxFails .maxConn ["weight=3".toList, "max_conns=5".toList] = none := by
      rfl
    rw [none] at fails
    cases fails

/-- A password file takes the place of the parameters for Diffie-Hellman, in one order and not in
the other; the protocols of a server do not replace those of the block around it; and the number of
failures takes the place of the number of connections. -/
theorem option_overwritten :
    ¬ Ssl.Independent calmEnv [⟨"ssl_dhparam".toList, ["a".toList], []⟩,
        ⟨"ssl_password_file".toList, ["b".toList], []⟩] ∧
      ¬ Ssl.Independent calmEnv [⟨"ssl_protocols".toList, ["TLSv1".toList], []⟩,
        ⟨"ssl_protocols".toList, ["TLSv1.2".toList], []⟩] ∧
      ∃ server, init ["a".toList, "max_conns=5".toList, "max_fails=2".toList] = .ok server ∧
        server.maxConn = ⟨true, 2⟩ ∧
        ¬ Independent "a".toList ["max_conns=5".toList, "max_fails=2".toList] server := by
  refine ⟨fun independent => ?_, fun independent => ?_, _, rfl, rfl, fun independent => ?_⟩
  · have same : (⟨true, "b".toList⟩ : Setting Text) = ⟨true, "a".toList⟩ :=
      independent.determined .dhParam
    revert same
    decide
  · have same : (⟨true, ["TLSv1".toList, "TLSv1.2".toList]⟩ : Setting (List Text)) =
        ⟨true, ["TLSv1.2".toList]⟩ := independent.determined .protocols
    revert same
    decide
  · obtain ⟨alone, ran, same⟩ := independent.determined .maxConn
    have five : alone.maxConn = ⟨true, 5⟩ := by
      cases ran
      rfl
    have two : (⟨true, 2⟩ : Setting ℤ) = ⟨true, 5⟩ := Eq.trans same five
    revert two
    decide

end Upstream
