import Mathlib.Data.List.Nodup
import Mathlib.Data.List.Perm.Basic
import Mathlib.Logic.Function.Basic

/-!
# Pools of buffers (`buffers/buffers.go`)

Three pools of untyped values, with a function to get a value from each and one to put a value
back. A pool gives out one of the values that were put into it and not given out since, or a new
one; which one is up to it. `PutSlice` puts its slice into the pool of the string builders.
-/

namespace Buffers

open Function

abbrev Bytes := List (Fin 256)

inductive Kind where
  | buffer
  | builder
  | slice
  deriving DecidableEq

/-- A `*bytes.Buffer`, a `*strings.Builder` or a `[]byte`, at an address. -/
inductive Value where
  | buffer (id : ℕ)
  | builder (id : ℕ)
  | slice (id len : ℕ)
  deriving DecidableEq

namespace Value

def kind : Value → Kind
  | buffer _ => .buffer
  | builder _ => .builder
  | slice _ _ => .slice

def id : Value → ℕ
  | buffer id => id
  | builder id => id
  | slice id _ => id

/-- `buf[:0]` -/
def empty : Value → Value
  | slice id _ => slice id 0
  | v => v

end Value

inductive Pool where
  | bytesBuf
  | stringsBuf
  | sliceBuffer
  deriving DecidableEq

/-- `New`. -/
def Pool.new : Pool → ℕ → Value
  | bytesBuf, id => .buffer id
  | stringsBuf, id => .builder id
  | sliceBuffer, id => .slice id 1024

/-- What a call returned, with what was in it then. -/
structure Returned where
  value : Value
  contents : Bytes

/-- The pools, what is in the buffers and builders, the variables of the callers, and all that was
returned to them. -/
structure State where
  pools : Pool → List Value
  contents : ℕ → Bytes
  allocated : ℕ
  vars : ℕ → Option Value
  got : List Returned

def State.init : State := ⟨fun _ => [], fun _ => [], 0, fun _ => none, []⟩

/-- The value at a position that the pool chooses, taken out. -/
def take (pick : Option ℕ) (values : List Value) : Option (Value × List Value) :=
  pick.bind fun i => values[i]?.map fun v => (v, values.eraseIdx i)

namespace State

/-- `Get` of a pool. -/
def get (s : State) (pool : Pool) (pick : Option ℕ) : Value × State :=
  match take pick (s.pools pool) with
  | some (v, rest) => (v, { s with pools := update s.pools pool rest })
  | none => (pool.new s.allocated, { s with
      allocated := s.allocated + 1
      contents := update s.contents s.allocated [] })

/-- `Put` of a pool. -/
def put (s : State) (pool : Pool) (v : Value) : State :=
  { s with pools := update s.pools pool (v :: s.pools pool) }

def reset (s : State) (v : Value) : State := { s with contents := update s.contents v.id [] }

/-- The type assertion on what a pool returned; `none` is a panic. -/
def assert (kind : Kind) (result : Value × State) : Option (Value × State) :=
  if result.1.kind = kind then some result else none

def getBytes (s : State) (pick : Option ℕ) : Option (Value × State) :=
  assert .buffer (s.get .bytesBuf pick)

def putBytes (s : State) (buf : Value) : State := (s.reset buf).put .bytesBuf buf

def getString (s : State) (pick : Option ℕ) : Option (Value × State) :=
  assert .builder (s.get .stringsBuf pick)

def putString (s : State) (buf : Value) : State := (s.reset buf).put .stringsBuf buf

def getSlice (s : State) (pick : Option ℕ) : Option (Value × State) :=
  assert .slice (s.get .sliceBuffer pick)

def putSlice (s : State) (buf : Value) : State := s.put .stringsBuf buf.empty

end State

/-! ## Calls -/

/-- A call, with the variable that gets the value or that is put back. Between the calls, callers
write into what they have. -/
inductive Call where
  | get (kind : Kind) (var : ℕ)
  | put (kind : Kind) (var : ℕ)
  | write (var : ℕ) (bytes : Bytes)
  deriving DecidableEq

/-- `GetBytes`, `GetString` and `GetSlice`. -/
def State.getOf (s : State) : Kind → Option ℕ → Option (Value × State)
  | .buffer, pick => s.getBytes pick
  | .builder, pick => s.getString pick
  | .slice, pick => s.getSlice pick

/-- `PutBytes`, `PutString` and `PutSlice`. -/
def State.putOf (s : State) : Kind → Value → State
  | .buffer, v => s.putBytes v
  | .builder, v => s.putString v
  | .slice, v => s.putSlice v

/-- The caller gets a value. -/
def State.receive (s : State) (var : ℕ) (v : Value) : State :=
  { s with vars := update s.vars var (some v), got := s.got ++ [⟨v, s.contents v.id⟩] }

/-- A call with the choice that the pool makes. -/
def State.step (s : State) (pick : Option ℕ) : Call → Option State
  | .get kind var => (s.getOf kind pick).map fun result => result.2.receive var result.1
  | .put kind var => match s.vars var with
    | none => some s
    | some v => some { s.putOf kind v with vars := update s.vars var none }
  | .write var bytes => match s.vars var with
    | none => some s
    | some v => some { s with contents := update s.contents v.id bytes }

def State.run (s : State) : List (Call × Option ℕ) → Option State
  | [] => some s
  | (call, pick) :: calls => (s.step pick call).bind fun s' => s'.run calls

/-- Only what the matching function returned is put back, and only what has not been put back is
written into. The function says what is in the variables. -/
def Call.Allowed (kinds : ℕ → Option Kind) : Call → Prop
  | .get _ _ => True
  | .put kind var => kinds var = some kind
  | .write var _ => kinds var = some .buffer ∨ kinds var = some .builder

/-- What is in the variables after a call. -/
def Call.effect (kinds : ℕ → Option Kind) : Call → ℕ → Option Kind
  | .get kind var => update kinds var (some kind)
  | .put _ var => update kinds var none
  | .write _ _ => kinds

def Obeys (kinds : ℕ → Option Kind) : List Call → Prop
  | [] => True
  | call :: calls => call.Allowed kinds ∧ Obeys (call.effect kinds) calls

/-- An empty buffer or builder, or a slice of length 1024. -/
def Returned.Fine (r : Returned) : Prop :=
  match r.value with
  | .buffer _ => r.contents = []
  | .builder _ => r.contents = []
  | .slice _ len => len = 1024

/-- Whatever the pools choose, every call returns, and what it should. -/
def Sound (calls : List Call) : Prop :=
  ∀ picked : List (Call × Option ℕ), picked.map Prod.fst = calls →
    ∃ s, State.init.run picked = some s ∧ ∀ r ∈ s.got, r.Fine

def Call.putsSlice : Call → Bool
  | .put .slice _ => true
  | _ => false

def Call.getsString : Call → Bool
  | .get .builder _ => true
  | _ => false

/-! ## Who has a value -/

inductive Owner where
  | caller (var : ℕ)
  | pool (pool : Pool)

/-- Every value is in one variable or in one pool, once. -/
structure Owned (s : State) (owner : ℕ → Option Owner) : Prop where
  vars : ∀ var v, s.vars var = some v → owner v.id = some (.caller var)
  pools : ∀ pool, ∀ v ∈ s.pools pool, owner v.id = some (.pool pool)
  nodup : ∀ pool, ((s.pools pool).map Value.id).Nodup
  new : ∀ id, s.allocated ≤ id → owner id = none

variable {s : State} {owner : ℕ → Option Owner}

theorem Owned.init : Owned State.init fun _ => none where
  vars var v held := by cases held
  pools pool v mem := by cases mem
  nodup pool := List.nodup_nil
  new id _ := rfl

/-- What a caller has is nowhere else. -/
theorem Owned.var_ne (owned : Owned s owner) {var : ℕ} {v : Value} (held : s.vars var = some v) :
    (∀ pool, ∀ w ∈ s.pools pool, w.id ≠ v.id) ∧
      ∀ var' w, s.vars var' = some w → var' ≠ var → w.id ≠ v.id := by
  have mine := owned.vars var v held
  constructor
  · intro pool w mem same
    have theirs := owned.pools pool w mem
    rw [same, mine] at theirs
    cases theirs
  · intro var' w held' other same
    have theirs := owned.vars var' w held'
    rw [same, mine] at theirs
    cases theirs
    exact other rfl

/-- What a pool gives out: something that was in it, or something new, that is then nowhere else. -/
structure Given (s : State) (pool : Pool) (v : Value) (s' : State) : Prop where
  source : v ∈ s.pools pool ∨ v = pool.new s.allocated ∧ s'.contents v.id = []
  vars : s'.vars = s.vars
  got : s'.got = s.got
  pools : ∀ p, (s'.pools p).Sublist (s.pools p)
  gone : ∀ p, ∀ w ∈ s'.pools p, w.id ≠ v.id
  others : ∀ var w, s.vars var = some w → w.id ≠ v.id
  contents : ∀ p, ∀ w ∈ s.pools p, s'.contents w.id = s.contents w.id
  allocated : s.allocated ≤ s'.allocated
  below : v.id < s'.allocated

theorem Owned.below (owned : Owned s owner) {id : ℕ} {o : Owner} (has : owner id = some o) :
    id < s.allocated := by
  by_contra above
  rw [owned.new id (Nat.le_of_not_lt above)] at has
  cases has

theorem Pool.new_id (pool : Pool) (id : ℕ) : (pool.new id).id = id := by
  cases pool <;> rfl

theorem take_some {pick : Option ℕ} {values rest : List Value} {v : Value}
    (taken : take pick values = some (v, rest)) :
    values.Perm (v :: rest) ∧ rest.Sublist values := by
  rw [take, Option.bind_eq_some_iff] at taken
  obtain ⟨i, -, chosen⟩ := taken
  rw [Option.map_eq_some_iff] at chosen
  obtain ⟨w, there, same⟩ := chosen
  cases same
  obtain ⟨bound, rfl⟩ := List.getElem?_eq_some_iff.mp there
  exact ⟨(List.getElem_cons_eraseIdx_perm bound).symm, List.eraseIdx_sublist _ _⟩

theorem given_get (owned : Owned s owner) (pool : Pool) (pick : Option ℕ) :
    Given s pool (s.get pool pick).1 (s.get pool pick).2 := by
  rw [State.get]
  split
  · rename_i v rest taken
    obtain ⟨perm, sublist⟩ := take_some taken
    have here : v ∈ s.pools pool := perm.mem_iff.mpr List.mem_cons_self
    have mine := owned.pools pool v here
    have nodup := (perm.map Value.id).nodup_iff.mp (owned.nodup pool)
    rw [List.map_cons, List.nodup_cons] at nodup
    have fewer : ∀ p, (update s.pools pool rest p).Sublist (s.pools p) := by
      intro p
      by_cases same : p = pool
      · subst same
        rw [update_self]
        exact sublist
      · rw [update_of_ne same]
    refine ⟨.inl here, rfl, rfl, fewer, ?_, ?_, fun _ _ _ => rfl, Nat.le_refl _,
      owned.below mine⟩
    · intro p w mem same
      have mem : w ∈ update s.pools pool rest p := mem
      have same : w.id = v.id := same
      by_cases this : p = pool
      · subst this
        rw [update_self] at mem
        exact nodup.1 (same ▸ List.mem_map_of_mem mem)
      · have theirs := owned.pools p w ((fewer p).subset mem)
        rw [same, mine] at theirs
        cases theirs
        exact this rfl
    · intro var w held same
      have theirs := owned.vars var w held
      rw [show w.id = v.id from same, mine] at theirs
      cases theirs
  · have fresh {id : ℕ} {o : Owner} (has : owner id = some o) : id ≠ (pool.new s.allocated).id := by
      rw [pool.new_id]
      exact Nat.ne_of_lt (owned.below has)
    refine ⟨.inr ⟨rfl, ?_⟩, rfl, rfl, fun _ => List.Sublist.refl _, ?_, ?_, ?_, Nat.le_succ _, ?_⟩
    · rw [pool.new_id]
      exact update_self ..
    · exact fun p w mem => fresh (owned.pools p w mem)
    · exact fun var w held => fresh (owned.vars var w held)
    · intro p w mem
      have other := fresh (owned.pools p w mem)
      rw [pool.new_id] at other
      exact update_of_ne other ..
    · rw [pool.new_id]
      exact Nat.lt_succ_self _

/-- The value that is given out goes to the variable. -/
theorem Given.owned {pool : Pool} {v : Value} {s' : State} (given : Given s pool v s')
    (owned : Owned s owner) (var : ℕ) :
    Owned (s'.receive var v) (update owner v.id (some (.caller var))) where
  vars := by
    intro var' w held
    have held : update s'.vars var (some v) var' = some w := held
    rw [given.vars] at held
    by_cases same : var' = var
    · subst same
      rw [update_self] at held
      cases held
      exact update_self ..
    · rw [update_of_ne same] at held
      rw [update_of_ne (given.others var' w held)]
      exact owned.vars var' w held
  pools := by
    intro p w mem
    rw [update_of_ne (given.gone p w mem)]
    exact owned.pools p w ((given.pools p).subset mem)
  nodup := fun p => (owned.nodup p).sublist ((given.pools p).map _)
  new := by
    intro id above
    have below := given.below
    have more := given.allocated
    have other : id ≠ v.id := Nat.ne_of_gt (Nat.lt_of_lt_of_le below above)
    rw [update_of_ne other]
    exact owned.new id (Nat.le_trans more above)

/-- A value that is put back goes to the pool. -/
theorem Owned.put (owned : Owned s owner) {var : ℕ} {v w : Value} (held : s.vars var = some v)
    (same : w.id = v.id) (pool : Pool) (contents : ℕ → Bytes) :
    Owned { s with
        pools := update s.pools pool (w :: s.pools pool)
        vars := update s.vars var none
        contents := contents }
      (update owner v.id (some (.pool pool))) := by
  obtain ⟨pools_ne, vars_ne⟩ := owned.var_ne held
  refine ⟨?_, ?_, ?_, ?_⟩
  · intro var' w' held'
    have held' : update s.vars var none var' = some w' := held'
    by_cases this : var' = var
    · subst this
      rw [update_self] at held'
      cases held'
    · rw [update_of_ne this] at held'
      rw [update_of_ne (vars_ne var' w' held' this)]
      exact owned.vars var' w' held'
  · intro p w' mem
    have mem : w' ∈ update s.pools pool (w :: s.pools pool) p := mem
    by_cases this : p = pool
    · subst this
      rw [update_self] at mem
      rcases List.mem_cons.mp mem with rfl | mem
      · rw [same, update_self]
      · rw [update_of_ne (pools_ne p w' mem)]
        exact owned.pools p w' mem
    · rw [update_of_ne this] at mem
      rw [update_of_ne (pools_ne p w' mem)]
      exact owned.pools p w' mem
  · intro p
    show ((update s.pools pool (w :: s.pools pool) p).map Value.id).Nodup
    by_cases this : p = pool
    · subst this
      rw [update_self, List.map_cons, List.nodup_cons]
      refine ⟨fun mem => ?_, owned.nodup p⟩
      obtain ⟨w', mem, same'⟩ := List.mem_map.mp mem
      exact pools_ne p w' mem (same'.trans same)
    · rw [update_of_ne this]
      exact owned.nodup p
  · intro id above
    have below := owned.below (owned.vars var v held)
    rw [update_of_ne (Nat.ne_of_gt (Nat.lt_of_lt_of_le below above))]
    exact owned.new id above

/-! ## What is in the pools -/

def Typed (kinds : ℕ → Option Kind) (s : State) : Prop :=
  ∀ var, (s.vars var).map Value.kind = kinds var

/-- The pools hold what their functions expect, as long as no slice was put back. -/
structure Inv (kinds : ℕ → Option Kind) (sliced : Bool) (s : State) : Prop where
  owned : ∃ owner, Owned s owner
  typed : Typed kinds s
  buffers : ∀ v ∈ s.pools .bytesBuf, v.kind = .buffer ∧ s.contents v.id = []
  builders : sliced = false → ∀ v ∈ s.pools .stringsBuf, v.kind = .builder ∧ s.contents v.id = []
  slices : s.pools .sliceBuffer = []
  fine : ∀ r ∈ s.got, r.Fine

variable {kinds : ℕ → Option Kind} {sliced : Bool}

theorem Typed.assign (typed : Typed kinds s) (var : ℕ) (v : Option Value) {s' : State}
    (vars : s'.vars = update s.vars var v) : Typed (update kinds var (v.map Value.kind)) s' := by
  intro var'
  rw [vars]
  by_cases same : var' = var
  · subst same
    rw [update_self, update_self]
  · rw [update_of_ne same, update_of_ne same]
    exact typed var'

def Kind.pool : Kind → Pool
  | .buffer => .bytesBuf
  | .builder => .stringsBuf
  | .slice => .sliceBuffer

theorem getOf_eq (s : State) (kind : Kind) (pick : Option ℕ) :
    s.getOf kind pick = State.assert kind (s.get kind.pool pick) := by
  cases kind <;> rfl

theorem fine_of_empty {v : Value} {contents : Bytes} (other : v.kind ≠ .slice)
    (empty : contents = []) : Returned.Fine ⟨v, contents⟩ := by
  cases v with
  | buffer id => exact empty
  | builder id => exact empty
  | slice id len => exact absurd rfl other

/-- What the pool of a kind gives out is of that kind, and as it should be. -/
theorem Inv.fine_given (inv : Inv kinds sliced s) {kind : Kind}
    (clean : kind = .builder → sliced = false) {v : Value} {s' : State}
    (given : Given s kind.pool v s') : v.kind = kind ∧ Returned.Fine ⟨v, s'.contents v.id⟩ := by
  cases kind with
  | buffer =>
    rcases given.source with mem | ⟨rfl, empty⟩
    · obtain ⟨kind, empty⟩ := inv.buffers v mem
      refine ⟨kind, fine_of_empty (by simp [kind]) ?_⟩
      rw [given.contents _ v mem, empty]
    · exact ⟨rfl, empty⟩
  | builder =>
    rcases given.source with mem | ⟨rfl, empty⟩
    · obtain ⟨kind, empty⟩ := inv.builders (clean rfl) v mem
      refine ⟨kind, fine_of_empty (by simp [kind]) ?_⟩
      rw [given.contents _ v mem, empty]
    · exact ⟨rfl, empty⟩
  | slice =>
    rcases given.source with mem | ⟨rfl, -⟩
    · rw [Kind.pool, inv.slices] at mem
      cases mem
    · exact ⟨rfl, rfl⟩

theorem Inv.step_get (inv : Inv kinds sliced s) (kind : Kind) (var : ℕ) (pick : Option ℕ)
    (clean : kind = .builder → sliced = false) :
    ∃ s', s.step pick (.get kind var) = some s' ∧ Inv (update kinds var (some kind)) sliced s' := by
  obtain ⟨owner, owned⟩ := inv.owned
  have given := given_get owned kind.pool pick
  obtain ⟨⟨v, s'⟩, result⟩ : ∃ result, s.get kind.pool pick = result := ⟨_, rfl⟩
  rw [result] at given
  obtain ⟨same, fine⟩ := inv.fine_given clean given
  have step : s.step pick (.get kind var) = some (s'.receive var v) := by
    rw [State.step, getOf_eq, result, State.assert, if_pos same]
    rfl
  refine ⟨_, step, ⟨_, given.owned owned var⟩, ?_, ?_, ?_, ?_, ?_⟩
  · have vars : (s'.receive var v).vars = update s.vars var (some v) := by
      rw [State.receive, given.vars]
    have typed := inv.typed.assign var (some v) vars
    rw [Option.map_some, same] at typed
    exact typed
  · intro v mem
    have old := (given.pools .bytesBuf).subset mem
    obtain ⟨kind', empty⟩ := inv.buffers v old
    exact ⟨kind', (given.contents _ v old).trans empty⟩
  · intro unsliced v mem
    have old := (given.pools .stringsBuf).subset mem
    obtain ⟨kind', empty⟩ := inv.builders unsliced v old
    exact ⟨kind', (given.contents _ v old).trans empty⟩
  · have fewer := given.pools .sliceBuffer
    rw [inv.slices] at fewer
    exact List.sublist_nil.mp fewer
  · intro r mem
    rcases List.mem_append.mp mem with old | new
    · rw [given.got] at old
      exact inv.fine r old
    · rw [List.mem_singleton.mp new]
      exact fine

/-- A value is where it was put, and nothing else has changed. -/
theorem Inv.step_put (inv : Inv kinds sliced s) (kind : Kind) (var : ℕ) (pick : Option ℕ)
    (allowed : kinds var = some kind) :
    ∃ s', s.step pick (.put kind var) = some s' ∧
      Inv (update kinds var none) (sliced || kind = .slice) s' := by
  obtain ⟨owner, owned⟩ := inv.owned
  have typed := inv.typed var
  rw [allowed, Option.map_eq_some_iff] at typed
  obtain ⟨v, held, same⟩ := typed
  have step : s.step pick (.put kind var) =
      some { s.putOf kind v with vars := update s.vars var none } := by
    rw [State.step, held]
  have away := (owned.var_ne held).1
  -- the contents of what is in a pool stay
  have kept {pool : Pool} {w : Value} (mem : w ∈ s.pools pool) :
      update s.contents v.id [] w.id = s.contents w.id := update_of_ne (away pool w mem) ..
  refine ⟨_, step, ?_⟩
  cases kind with
  | buffer =>
    refine ⟨⟨_, owned.put held rfl .bytesBuf _⟩, inv.typed.assign var none rfl, ?_, ?_,
      inv.slices, inv.fine⟩
    · intro w mem
      rcases List.mem_cons.mp mem with rfl | old
      · exact ⟨same, update_self ..⟩
      · obtain ⟨kind, empty⟩ := inv.buffers w old
        exact ⟨kind, (kept old).trans empty⟩
    · intro unsliced w mem
      obtain ⟨kind, empty⟩ := inv.builders (by simpa using unsliced) w mem
      exact ⟨kind, (kept mem).trans empty⟩
  | builder =>
    refine ⟨⟨_, owned.put held rfl .stringsBuf _⟩, inv.typed.assign var none rfl, ?_, ?_,
      inv.slices, inv.fine⟩
    · intro w mem
      obtain ⟨kind, empty⟩ := inv.buffers w mem
      exact ⟨kind, (kept mem).trans empty⟩
    · intro unsliced w mem
      rcases List.mem_cons.mp mem with rfl | old
      · exact ⟨same, update_self ..⟩
      · obtain ⟨kind, empty⟩ := inv.builders (by simpa using unsliced) w old
        exact ⟨kind, (kept old).trans empty⟩
  | slice =>
    have address : v.empty.id = v.id := by cases v <;> rfl
    refine ⟨⟨_, owned.put held address .stringsBuf _⟩, inv.typed.assign var none rfl,
      inv.buffers, ?_, inv.slices, inv.fine⟩
    intro unsliced
    simp at unsliced

theorem Inv.step_write (inv : Inv kinds sliced s) (var : ℕ) (bytes : Bytes) (pick : Option ℕ) :
    ∃ s', s.step pick (.write var bytes) = some s' ∧ Inv kinds sliced s' := by
  obtain ⟨owner, owned⟩ := inv.owned
  rw [State.step]
  cases held : s.vars var with
  | none => exact ⟨s, rfl, inv⟩
  | some v =>
    have away := (owned.var_ne held).1
    have kept {pool : Pool} {w : Value} (mem : w ∈ s.pools pool) :
        update s.contents v.id bytes w.id = s.contents w.id := update_of_ne (away pool w mem) ..
    refine ⟨_, rfl, ⟨owner, owned.vars, owned.pools, owned.nodup, owned.new⟩, inv.typed, ?_, ?_,
      inv.slices, inv.fine⟩
    · intro w mem
      obtain ⟨kind, empty⟩ := inv.buffers w mem
      exact ⟨kind, (kept mem).trans empty⟩
    · intro unsliced w mem
      obtain ⟨kind, empty⟩ := inv.builders unsliced w mem
      exact ⟨kind, (kept mem).trans empty⟩

/-- One call, unless it gets a string builder after a slice was put back. -/
theorem Inv.step (inv : Inv kinds sliced s) (pick : Option ℕ) {call : Call}
    (allowed : call.Allowed kinds) (clean : call.getsString = true → sliced = false) :
    ∃ s', s.step pick call = some s' ∧ Inv (call.effect kinds) (sliced || call.putsSlice) s' := by
  cases call with
  | get kind var =>
    rw [show Call.putsSlice (.get kind var) = false from rfl, Bool.or_false]
    refine inv.step_get kind var pick fun same => clean ?_
    rw [same]
    rfl
  | put kind var =>
    have puts : Call.putsSlice (.put kind var) = decide (kind = .slice) := by cases kind <;> rfl
    rw [puts]
    exact inv.step_put kind var pick allowed
  | write var bytes =>
    rw [show Call.putsSlice (.write var bytes) = false from rfl, Bool.or_false]
    exact inv.step_write var bytes pick

/-! ## Sequences of calls -/

theorem Inv.init : Inv (fun _ => none) false State.init where
  owned := ⟨_, .init⟩
  typed _ := rfl
  buffers v mem := by cases mem
  builders _ v mem := by cases mem
  slices := rfl
  fine r mem := by cases mem

/-- A slice in the pool of the string builders waits there for the next one who gets a builder. -/
def Apart (calls : List Call) : Prop :=
  calls.Pairwise fun first later => ¬ (first.putsSlice = true ∧ later.getsString = true)

theorem Inv.run (inv : Inv kinds sliced s) {picked : List (Call × Option ℕ)}
    (obeys : Obeys kinds (picked.map Prod.fst)) (apart : Apart (picked.map Prod.fst))
    (clean : sliced = true → ∀ call ∈ picked.map Prod.fst, call.getsString = false) :
    ∃ s', s.run picked = some s' ∧ ∀ r ∈ s'.got, r.Fine := by
  induction picked generalizing s kinds sliced with
  | nil => exact ⟨s, rfl, inv.fine⟩
  | cons entry picked ih =>
    obtain ⟨call, pick⟩ := entry
    obtain ⟨allowed, rest⟩ := obeys
    obtain ⟨first, later⟩ := List.pairwise_cons.mp apart
    have here : call.getsString = true → sliced = false := by
      intro gets
      by_contra tainted
      have none := clean (by simpa using tainted) call List.mem_cons_self
      rw [gets] at none
      cases none
    obtain ⟨s', step, inv'⟩ := inv.step pick allowed here
    rw [State.run, step, Option.bind_some]
    refine ih inv' rest later fun sliced' call' mem => ?_
    rcases Bool.or_eq_true_iff.mp sliced' with before | now
    · exact clean before call' (List.mem_cons_of_mem _ mem)
    · simpa [now] using first call' mem

/-- A call to which the pools only give what is new returns, and leaves in the pool of the string
builders what is there. -/
theorem Typed.step_new (typed : Typed kinds s) {call : Call} (allowed : call.Allowed kinds) :
    ∃ s', s.step none call = some s' ∧ Typed (call.effect kinds) s' ∧
      (∀ v ∈ s.pools .stringsBuf, v ∈ s'.pools .stringsBuf) ∧
      (call.putsSlice = true → ∃ v ∈ s'.pools .stringsBuf, v.kind = .slice) := by
  cases call with
  | get kind var =>
    have same : (kind.pool.new s.allocated).kind = kind := by cases kind <;> rfl
    have given : s.getOf kind none = some (s.get kind.pool none) := by
      rw [getOf_eq, State.assert]
      exact if_pos same
    have vars : ((s.get kind.pool none).2.receive var (s.get kind.pool none).1).vars =
        update s.vars var (some (kind.pool.new s.allocated)) := rfl
    have typed' := typed.assign var _ vars
    rw [Option.map_some, same] at typed'
    rw [State.step, given]
    exact ⟨_, rfl, typed', fun v mem => mem, fun puts => by cases puts⟩
  | put kind var =>
    have held := typed var
    rw [show kinds var = some kind from allowed, Option.map_eq_some_iff] at held
    obtain ⟨v, held, same⟩ := held
    rw [State.step, held]
    refine ⟨_, rfl, typed.assign var none rfl, ?_, ?_⟩
    · intro w mem
      cases kind with
      | buffer => exact mem
      | builder => exact List.mem_cons_of_mem _ mem
      | slice => exact List.mem_cons_of_mem _ mem
    · intro puts
      cases kind with
      | buffer => cases puts
      | builder => cases puts
      | slice =>
        refine ⟨v.empty, List.mem_cons_self, ?_⟩
        cases v with
        | buffer id => cases same
        | builder id => cases same
        | slice id len => rfl
  | write var bytes =>
    rw [State.step]
    cases held : s.vars var with
    | none => exact ⟨s, rfl, typed, fun v mem => mem, fun puts => by cases puts⟩
    | some v => exact ⟨_, rfl, typed, fun v mem => mem, fun puts => by cases puts⟩

/-- Whoever gets a string builder may be given the slice. -/
theorem exists_panic_of_slice {calls : List Call} (typed : Typed kinds s)
    (obeys : Obeys kinds calls) (mixed : ∃ v ∈ s.pools .stringsBuf, v.kind = .slice)
    (gets : ∃ call ∈ calls, call.getsString = true) :
    ∃ picked : List (Call × Option ℕ), picked.map Prod.fst = calls ∧ s.run picked = none := by
  induction calls generalizing s kinds with
  | nil =>
    obtain ⟨call, mem, -⟩ := gets
    cases mem
  | cons call calls ih =>
    obtain ⟨v, mem, slice⟩ := mixed
    by_cases now : call.getsString = true
    · obtain ⟨i, there⟩ := List.mem_iff_getElem?.mp mem
      refine ⟨(call, some i) :: calls.map fun c => (c, none), ?_, ?_⟩
      · simp [Function.comp_def]
      · have panics : s.step (some i) call = none := by
          cases call with
          | get kind var =>
            cases kind with
            | builder =>
              have given : s.getOf .builder (some i) = none := by
                rw [getOf_eq, State.assert, if_neg]
                rw [State.get, take, Option.bind_some, Kind.pool, there]
                simp [slice]
              rw [State.step, given]
              rfl
            | buffer => cases now
            | slice => cases now
          | put kind var => cases now
          | write var bytes => cases now
        rw [State.run, panics]
        rfl
    · obtain ⟨s', step, typed', stays, -⟩ := typed.step_new obeys.1
      have later : ∃ c ∈ calls, c.getsString = true := by
        obtain ⟨c, member, gets⟩ := gets
        rcases List.mem_cons.mp member with rfl | member
        · exact absurd gets now
        · exact ⟨c, member, gets⟩
      obtain ⟨picked, same, run⟩ := ih typed' obeys.2 ⟨v, stays v mem, slice⟩ later
      refine ⟨(call, none) :: picked, by rw [List.map_cons, same], ?_⟩
      rw [State.run, step, Option.bind_some, run]

theorem exists_panic {calls : List Call} (typed : Typed kinds s) (obeys : Obeys kinds calls)
    (mixed : ¬ Apart calls) :
    ∃ picked : List (Call × Option ℕ), picked.map Prod.fst = calls ∧ s.run picked = none := by
  induction calls generalizing s kinds with
  | nil => exact absurd List.Pairwise.nil mixed
  | cons call calls ih =>
    obtain ⟨s', step, typed', -, puts⟩ := typed.step_new obeys.1
    have later : ∃ picked : List (Call × Option ℕ), picked.map Prod.fst = calls ∧
        s'.run picked = none := by
      by_cases rest : Apart calls
      · have here : ∃ c ∈ calls, call.putsSlice = true ∧ c.getsString = true := by
          by_contra none
          refine mixed (List.pairwise_cons.mpr ⟨fun c member both => none ⟨c, member, both⟩, rest⟩)
        obtain ⟨c, member, slice, gets⟩ := here
        exact exists_panic_of_slice typed' obeys.2 (puts slice) ⟨c, member, gets⟩
      · exact ih typed' obeys.2 rest
    obtain ⟨picked, same, run⟩ := later
    refine ⟨(call, none) :: picked, by rw [List.map_cons, same], ?_⟩
    rw [State.run, step, Option.bind_some, run]

/-- The pools do not mix iff no string builder is asked for after a slice was put back. -/
theorem pools_sound_iff (calls : List Call) (obeys : Obeys (fun _ => none) calls) :
    Sound calls ↔
      calls.Pairwise fun first later =>
        ¬ (first.putsSlice = true ∧ later.getsString = true) := by
  constructor
  · intro sound
    by_contra mixed
    obtain ⟨picked, same, run⟩ := exists_panic (s := .init) (fun _ => rfl) obeys mixed
    obtain ⟨s, ran, -⟩ := sound picked same
    rw [run] at ran
    cases ran
  · rintro apart picked rfl
    exact Inv.init.run obeys apart (by simp)

theorem pools_sound_sample :
    Sound [.get .builder 0, .write 0 [1], .put .builder 0, .get .builder 1, .get .slice 2,
      .put .slice 2, .get .buffer 3] := by
  refine (pools_sound_iff _ ?_).mpr (by decide)
  simp [Obeys, Call.Allowed, Call.effect]

/-- A slice that was put back is given to a caller who wants a string builder. -/
theorem slice_for_builder :
    Obeys (fun _ => none) [.get .slice 0, .put .slice 0, .get .builder 1] ∧
      State.init.run [(.get .slice 0, none), (.put .slice 0, none), (.get .builder 1, some 0)] =
        none ∧
      ¬ Sound [.get .slice 0, .put .slice 0, .get .builder 1] := by
  refine ⟨by simp [Obeys, Call.Allowed, Call.effect], rfl, fun sound => ?_⟩
  obtain ⟨s, ran, -⟩ := sound
    [(.get .slice 0, none), (.put .slice 0, none), (.get .builder 1, some 0)] rfl
  cases ran

end Buffers
