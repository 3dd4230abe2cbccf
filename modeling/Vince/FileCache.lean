import Vince.GoText
import Vince.Lru
import Mathlib.Logic.Function.Basic
import Mathlib.Data.List.Perm.Basic

/-!
# The cache of open files (`read_writer_closer_cache.go`)

A list of open files, the most recently used in front, and a map from paths to the list's
elements. An element is known by its address, which stays when the file in it is replaced. What
the opener returns and what closing a file reports come with the operation, so that they may be
anything. `closed` is the order in which files were closed; the program does not keep it. The counts
in `uses` are `int64`: what is said is meant for runs with fewer than `2 ^ 63` uses of a file.
-/

namespace FileCache

open GoText Function
open Lru (Recency)

/-- `readWriterCloserCacheOption`, with `on` as `enabled`; the two durations say when `manageKeys`
ticks. -/
structure Options where
  enabled : Bool
  max : Int
  min : Int

def Options.defaults : Options := ⟨true, 100, 1⟩

/-- A list element at its address, with the `fileObject` it leads to. -/
structure Node (Handle : Type) where
  id : Nat
  path : Text
  file : Handle

/-- `readWriterCloserCache`; addresses below `allocated` are in use or were. -/
structure Cache (Handle : Type) where
  opts : Options
  list : List (Node Handle)
  uses : Text → Option Int
  hash : Text → Option Nat
  allocated : Nat
  closed : List Handle

variable {Handle : Type}

namespace Cache

/-- `init`, apart from the goroutine it starts. -/
def init (opts : Options) : Option (Cache Handle) :=
  if !opts.enabled then none else some ⟨opts, [], fun _ => none, fun _ => none, 0, []⟩

/-- The element `hash` leads to, read. -/
def lookup (c : Cache Handle) (key : Text) : Option (Node Handle) :=
  (c.hash key).bind fun id => c.list.find? (·.id = id)

def close (c : Cache Handle) (file : Handle) : Cache Handle :=
  { c with closed := c.closed ++ [file] }

def deleteUnsafe (c : Cache Handle) : Option (Node Handle) → Cache Handle
  | none => c
  | some v =>
    { c.close v.file with
      hash := update c.hash v.path none
      uses := update c.uses v.path none
      list := c.list.filter (·.id ≠ v.id) }

/-- `Delete`. -/
def delete (c : Cache Handle) (keys : List Text) : Cache Handle :=
  keys.foldl (fun c key => c.deleteUnsafe (c.lookup key)) c

def hit (c : Cache Handle) (path : Text) : Cache Handle :=
  { c with uses := update c.uses path (some (match c.uses path with
      | some v => v + 1
      | none => 1)) }

/-- `MoveToFront` for the element at `v.id`, which then reads `v`. -/
def moveToFront (c : Cache Handle) (v : Node Handle) : Cache Handle :=
  { c with list := v :: c.list.filter (·.id ≠ v.id) }

def get (c : Cache Handle) (key : Text) : Option Handle × Cache Handle :=
  match c.lookup key with
  | none => (none, c)
  | some v => (some v.file, (c.moveToFront v).hit key)

def pushFront (c : Cache Handle) (path : Text) (file : Handle) : Cache Handle :=
  { c with
    list := ⟨c.allocated, path, file⟩ :: c.list
    hash := update c.hash path (some c.allocated)
    allocated := c.allocated + 1 }

/-- Eviction, before a new path is put in. -/
def makeRoom (c : Cache Handle) : Cache Handle :=
  if (c.list.length : Int) ≥ c.opts.max then c.deleteUnsafe c.list.getLast? else c

def put (c : Cache Handle) (path : Text) (opened : Except Text Handle) :
    Except Text Handle × Cache Handle :=
  match opened with
  | .error err => (.error err, c)
  | .ok file =>
    let c := match c.lookup path with
      | some v => (c.moveToFront ⟨v.id, path, file⟩).close v.file
      | none => c.makeRoom.pushFront path file
    (.ok file, c.hit path)

/-- What `Close` returns, where `report` says which files fail to close and why. -/
def closeError (c : Cache Handle) (report : Handle → Option Text) : Option Text :=
  let errs := c.list.filterMap fun v => report v.file
  if errs.length > 0 then some ("filecache: ".toList ++ join [','] errs) else none

/-- What `Close` leaves. -/
def closeAll (c : Cache Handle) : Cache Handle :=
  { c with
    list := []
    hash := fun _ => none
    closed := c.closed ++ c.list.map (·.file) }

/-- `Close`. -/
def shutdown (c : Cache Handle) (report : Handle → Option Text) : Option Text × Cache Handle :=
  (c.closeError report, c.closeAll)

/-- What the `Range` callback of `manageKeys` does to `uses`. -/
def forget (c : Cache Handle) (junk : List Text) : Cache Handle :=
  { c with uses := fun key => if key ∈ junk then none else c.uses key }

/-- The entries `Range` visits that are to go. -/
def junk (stale : Text → Int → Bool) (visited : List (Text × Int)) : List Text :=
  (visited.filter fun entry => stale entry.1 entry.2).map (·.1)

/-- One tick of `manageKeys`. -/
def sweep (c : Cache Handle) (stale : Text → Int → Bool) (visited : List (Text × Int)) :
    Cache Handle :=
  (c.forget (junk stale visited)).delete (junk stale visited)

/-- The tick of the ticker `inactive`. -/
def sweepInactive (c : Cache Handle) (visited : List (Text × Int)) : Cache Handle :=
  c.sweep (fun _ value => value < c.opts.min) visited

/-- The tick of the ticker `valid`; `isNotExist` is what `os.Stat` finds at the time. -/
def sweepValid (c : Cache Handle) (isNotExist : Text → Bool) (visited : List (Text × Int)) :
    Cache Handle :=
  c.sweep (fun key _ => isNotExist key) visited

def keys (c : Cache Handle) : List Text := c.list.map (·.path)

def files (c : Cache Handle) : List Handle := c.list.map (·.file)

end Cache

/-- The operations, with what they meet outside. `Range` takes no lock, so that other operations
may come between the two halves of a sweep: `forget` is the first half, `delete` the second. -/
inductive Op (Handle : Type) where
  | get (key : Text)
  | put (path : Text) (opened : Except Text Handle)
  | delete (keys : List Text)
  | sweepInactive (visited : List (Text × Int))
  | sweepValid (isNotExist : Text → Bool) (visited : List (Text × Int))
  | forget (junk : List Text)
  | close (report : Handle → Option Text)

def Cache.apply (c : Cache Handle) : Op Handle → Cache Handle
  | .get key => (c.get key).2
  | .put path opened => (c.put path opened).2
  | .delete keys => c.delete keys
  | .sweepInactive visited => c.sweepInactive visited
  | .sweepValid isNotExist visited => c.sweepValid isNotExist visited
  | .forget junk => c.forget junk
  | .close report => (c.shutdown report).2

/-! ## The map and the list -/

/-- The map leads to the elements of the list, to each under its path. -/
structure Inv (c : Cache Handle) : Prop where
  hashed : ∀ v ∈ c.list, c.hash v.path = some v.id
  points : ∀ key id, c.hash key = some id → ∃ v ∈ c.list, v.id = id ∧ v.path = key
  nodup : (c.list.map (·.id)).Nodup
  below : ∀ v ∈ c.list, v.id < c.allocated

variable {c : Cache Handle} {key : Text} {v w : Node Handle}

theorem Inv.eq_of_id (inv : Inv c) (hv : v ∈ c.list) (hw : w ∈ c.list) (same : v.id = w.id) :
    v = w :=
  List.inj_on_of_nodup_map inv.nodup hv hw same

theorem Inv.id_iff_path (inv : Inv c) (hv : v ∈ c.list) (hw : w ∈ c.list) :
    v.id = w.id ↔ v.path = w.path := by
  constructor
  · intro same
    rw [inv.eq_of_id hv hw same]
  · intro same
    have hashed := inv.hashed v hv
    rw [same, inv.hashed w hw] at hashed
    exact (Option.some.inj hashed).symm

theorem Inv.lookup_iff (inv : Inv c) : c.lookup key = some v ↔ v ∈ c.list ∧ v.path = key := by
  constructor
  · intro found
    obtain ⟨id, hashed, read⟩ := Option.bind_eq_some_iff.mp found
    obtain ⟨w, mem, rfl, rfl⟩ := inv.points key id hashed
    have same : v.id = w.id := by simpa using List.find?_some read
    have hv := List.mem_of_find?_eq_some read
    exact ⟨hv, (inv.id_iff_path hv mem).mp same⟩
  · rintro ⟨mem, rfl⟩
    rw [Cache.lookup, inv.hashed v mem, Option.bind_some]
    cases found : c.list.find? (·.id = v.id) with
    | none => simpa using List.find?_eq_none.mp found v mem
    | some w =>
      have same : w.id = v.id := by simpa using List.find?_some found
      rw [inv.eq_of_id (List.mem_of_find?_eq_some found) mem same]

theorem Inv.lookup_none (inv : Inv c) : c.lookup key = none ↔ key ∉ c.keys := by
  rw [← not_iff_not, not_not, ← ne_eq, Option.ne_none_iff_exists', Cache.keys, List.mem_map]
  exact exists_congr fun v => inv.lookup_iff

/-- An element taken out and put back in front. -/
theorem Inv.perm_front (inv : Inv c) (mem : v ∈ c.list) :
    (v :: c.list.filter (·.id ≠ v.id)).Perm c.list := by
  have nodup := inv.nodup.of_map
  refine (List.perm_ext_iff_of_nodup ?_ nodup).mpr fun w => ?_
  · refine List.nodup_cons.mpr ⟨fun again => ?_, nodup.filter _⟩
    simpa using (List.mem_filter.mp again).2
  · rw [List.mem_cons, List.mem_filter]
    constructor
    · rintro (rfl | ⟨kept, -⟩)
      · exact mem
      · exact kept
    · intro kept
      by_cases same : w.id = v.id
      · exact .inl (inv.eq_of_id kept mem same)
      · exact .inr ⟨kept, by simpa using same⟩

/-- The same with its file closed. -/
theorem Inv.perm_closed (inv : Inv c) (mem : v ∈ c.list) :
    ((c.list.filter (·.id ≠ v.id)).map (·.file) ++ (c.closed ++ [v.file])).Perm
      (c.files ++ c.closed) := by
  have front := ((inv.perm_front mem).map (·.file)).append_right c.closed
  refine List.Perm.trans ?_ front
  rw [← List.append_assoc, List.map_cons]
  exact List.perm_append_singleton _ _

theorem Inv.keys_filter (inv : Inv c) (mem : v ∈ c.list) :
    (c.list.filter (·.id ≠ v.id)).map (·.path) = c.keys.filter (· ≠ v.path) := by
  rw [Cache.keys, List.filter_map]
  congr 1
  refine List.filter_congr fun w hw => ?_
  simp [inv.id_iff_path hw mem]

theorem Inv.keys_nodup (inv : Inv c) : c.keys.Nodup := by
  refine (List.nodup_map_iff_inj_on inv.nodup.of_map).mpr fun v hv w hw same => ?_
  exact inv.eq_of_id hv hw ((inv.id_iff_path hv hw).mpr same)

/-! ## What the operations do -/

/-- The keys an operation leaves in the cache; every file opened before or during it is then
either in the list or closed. -/
structure Effect (c c' : Cache Handle) (keys : List Text) (opened : List Handle) : Prop where
  inv : Inv c'
  keys : c'.keys = keys
  opts : c'.opts = c.opts
  owned : (c'.files ++ c'.closed).Perm (opened ++ (c.files ++ c.closed))

theorem Effect.none (inv : Inv c) : Effect c c c.keys [] := ⟨inv, rfl, rfl, .refl _⟩

theorem Effect.trans {c' c'' : Cache Handle} {keys keys' : List Text} {opened opened' : List Handle}
    (first : Effect c c' keys opened) (second : Effect c' c'' keys' opened') :
    Effect c c'' keys' (opened' ++ opened) where
  inv := second.inv
  keys := second.keys
  opts := second.opts.trans first.opts
  owned := by
    rw [List.append_assoc]
    exact second.owned.trans (first.owned.append_left opened')

/-- `uses` is no part of it. -/
theorem Effect.hit {c' : Cache Handle} {keys : List Text} {opened : List Handle}
    (effect : Effect c c' keys opened) (path : Text) : Effect c (c'.hit path) keys opened :=
  ⟨⟨effect.inv.hashed, effect.inv.points, effect.inv.nodup, effect.inv.below⟩, effect.keys,
    effect.opts, effect.owned⟩

theorem deleteUnsafe_effect (inv : Inv c) (mem : v ∈ c.list) :
    Effect c (c.deleteUnsafe (some v)) (c.keys.filter (· ≠ v.path)) [] where
  inv := by
    have kept {w : Node Handle} (hw : w ∈ c.list.filter (·.id ≠ v.id)) :
        w ∈ c.list ∧ w.path ≠ v.path := by
      obtain ⟨hw, other⟩ := List.mem_filter.mp hw
      exact ⟨hw, fun same => by simp [(inv.id_iff_path hw mem).mpr same] at other⟩
    refine ⟨fun w hw => ?_, fun key id hashed => ?_, ?_, fun w hw => inv.below w (kept hw).1⟩
    · simp only [Cache.deleteUnsafe, Cache.close]
      rw [update_of_ne (kept hw).2]
      exact inv.hashed w (kept hw).1
    · simp only [Cache.deleteUnsafe, Cache.close] at hashed
      by_cases same : key = v.path
      · simp [same] at hashed
      · rw [update_of_ne same] at hashed
        obtain ⟨w, hw, rfl, rfl⟩ := inv.points key id hashed
        refine ⟨w, List.mem_filter.mpr ⟨hw, ?_⟩, rfl, rfl⟩
        simpa [inv.id_iff_path hw mem] using same
    · exact inv.nodup.sublist (List.filter_sublist.map _)
  keys := inv.keys_filter mem
  opts := rfl
  owned := inv.perm_closed mem

theorem delete_lookup_effect (inv : Inv c) (key : Text) :
    Effect c (c.deleteUnsafe (c.lookup key)) (c.keys.filter (· ≠ key)) [] := by
  cases found : c.lookup key with
  | none =>
    have absent := inv.lookup_none.mp found
    have same : c.keys.filter (· ≠ key) = c.keys :=
      List.filter_eq_self.mpr fun k mem => by simpa using fun same : k = key => absent (same ▸ mem)
    rw [same]
    exact .none inv
  | some v =>
    obtain ⟨mem, rfl⟩ := inv.lookup_iff.mp found
    exact deleteUnsafe_effect inv mem

theorem delete_effect (inv : Inv c) (keys : List Text) :
    Effect c (c.delete keys) (Lru.remove keys c.keys) [] := by
  induction keys generalizing c with
  | nil =>
    rw [Lru.remove_nil]
    exact .none inv
  | cons key keys ih =>
    have first := delete_lookup_effect inv key
    have rest := ih first.inv
    rw [first.keys] at rest
    rw [Lru.remove_cons]
    exact first.trans rest

theorem forget_effect (inv : Inv c) (junk : List Text) : Effect c (c.forget junk) c.keys [] :=
  ⟨⟨inv.hashed, inv.points, inv.nodup, inv.below⟩, rfl, rfl, .refl _⟩

theorem sweep_effect (inv : Inv c) (stale : Text → Int → Bool) (visited : List (Text × Int)) :
    Effect c (c.sweep stale visited) (Lru.remove (Cache.junk stale visited) c.keys) [] := by
  have first := forget_effect inv (Cache.junk stale visited)
  exact first.trans (delete_effect first.inv _)

/-- The element in front may read another file than before. -/
theorem inv_moveToFront (inv : Inv c) (mem : v ∈ c.list) (file : Handle) :
    Inv (c.moveToFront ⟨v.id, v.path, file⟩) where
  hashed := by
    intro w hw
    obtain rfl | hw := List.mem_cons.mp hw
    · exact inv.hashed v mem
    · exact inv.hashed w (List.mem_of_mem_filter hw)
  points := by
    intro key id hashed
    obtain ⟨w, hw, rfl, rfl⟩ := inv.points key id hashed
    by_cases same : w.id = v.id
    · exact ⟨⟨v.id, v.path, file⟩, List.mem_cons_self, same.symm,
        ((inv.id_iff_path hw mem).mp same).symm⟩
    · exact ⟨w, List.mem_cons_of_mem _ (List.mem_filter.mpr ⟨hw, by simpa using same⟩), rfl, rfl⟩
  nodup := by
    have front := (inv.perm_front mem).map (·.id)
    exact front.nodup_iff.mpr inv.nodup
  below := by
    intro w hw
    obtain rfl | hw := List.mem_cons.mp hw
    · exact inv.below v mem
    · exact inv.below w (List.mem_of_mem_filter hw)

theorem keys_moveToFront (inv : Inv c) (mem : v ∈ c.list) (file : Handle) :
    (c.moveToFront ⟨v.id, v.path, file⟩).keys = Lru.toFront v.path c.keys := by
  rw [Lru.toFront, ← inv.keys_filter mem]
  rfl

theorem Inv.mem_keys (mem : v ∈ c.list) : v.path ∈ c.keys := List.mem_map_of_mem mem

theorem get_effect (inv : Inv c) (key : Text) :
    Effect c (c.get key).2 (Lru.touch key c.keys) [] := by
  unfold Cache.get
  split
  next found =>
    rw [Lru.touch, if_neg (inv.lookup_none.mp found)]
    exact .none inv
  next v found =>
    obtain ⟨mem, rfl⟩ := inv.lookup_iff.mp found
    rw [Lru.touch, if_pos (Inv.mem_keys mem)]
    have moved : Effect c (c.moveToFront v) (Lru.toFront v.path c.keys) [] :=
      ⟨inv_moveToFront inv mem v.file, keys_moveToFront inv mem v.file, rfl,
        ((inv.perm_front mem).map Node.file).append_right c.closed⟩
    exact moved.hit v.path

theorem replace_effect (inv : Inv c) (mem : v ∈ c.list) (file : Handle) :
    Effect c ((c.moveToFront ⟨v.id, v.path, file⟩).close v.file) (Lru.toFront v.path c.keys)
      [file] where
  inv :=
    have front := inv_moveToFront inv mem file
    ⟨front.hashed, front.points, front.nodup, front.below⟩
  keys := keys_moveToFront inv mem file
  opts := rfl
  owned := (inv.perm_closed mem).cons file

theorem pushFront_effect (inv : Inv c) (absent : key ∉ c.keys) (file : Handle) :
    Effect c (c.pushFront key file) (key :: c.keys) [file] where
  inv := by
    have other {w : Node Handle} (hw : w ∈ c.list) : w.path ≠ key :=
      fun same => absent (same ▸ Inv.mem_keys hw)
    refine ⟨fun w hw => ?_, fun k id hashed => ?_, ?_, fun w hw => ?_⟩
    · obtain rfl | hw := List.mem_cons.mp hw
      · exact update_self ..
      · exact (update_of_ne (other hw) ..).trans (inv.hashed w hw)
    · simp only [Cache.pushFront] at hashed
      by_cases same : k = key
      · rw [same, update_self] at hashed
        exact ⟨_, List.mem_cons_self, Option.some.inj hashed, same.symm⟩
      · rw [update_of_ne same] at hashed
        obtain ⟨w, hw, found⟩ := inv.points k id hashed
        exact ⟨w, List.mem_cons_of_mem _ hw, found⟩
    · refine List.nodup_cons.mpr ⟨fun taken => ?_, inv.nodup⟩
      obtain ⟨w, hw, same⟩ := List.mem_map.mp taken
      exact absurd (inv.below w hw) (by simp [same])
    · obtain rfl | hw := List.mem_cons.mp hw
      · exact Nat.lt_succ_self _
      · exact Nat.lt_succ_of_lt (inv.below w hw)
  keys := rfl
  opts := rfl
  owned := .refl _

theorem makeRoom_effect (inv : Inv c) :
    Effect c c.makeRoom (Lru.evict c.opts.max.toNat c.keys) [] := by
  have length : c.keys.length = c.list.length := List.length_map _
  unfold Cache.makeRoom Lru.evict
  split
  next full =>
    rw [if_pos (by omega)]
    obtain empty | ⟨first, v, split⟩ := c.list.eq_nil_or_concat
    · have none := Effect.none inv
      simpa [empty, Cache.deleteUnsafe, Cache.keys] using none
    · rw [List.concat_eq_append] at split
      have mem : v ∈ c.list := by simp [split]
      have keys : c.keys = first.map (·.path) ++ [v.path] := by simp [Cache.keys, split]
      have gone := deleteUnsafe_effect inv mem
      rw [keys, Lru.filter_ne_last (keys ▸ inv.keys_nodup)] at gone
      rw [keys, List.dropLast_concat, split, List.getLast?_concat]
      exact gone
  next room =>
    rw [if_neg (by omega)]
    exact .none inv

theorem put_effect (inv : Inv c) (path : Text) (file : Handle) :
    Effect c (c.put path (.ok file)).2 (Lru.insert c.opts.max.toNat path c.keys) [file] := by
  unfold Cache.put
  refine Effect.hit ?_ path
  split
  next v found =>
    obtain ⟨mem, rfl⟩ := inv.lookup_iff.mp found
    rw [Lru.insert, if_pos (Inv.mem_keys mem)]
    exact replace_effect inv mem file
  next found =>
    have absent := inv.lookup_none.mp found
    have room := makeRoom_effect inv
    have kept : path ∉ c.makeRoom.keys := by
      rw [room.keys]
      exact fun mem => absent ((Lru.evict_sublist _ _).subset mem)
    have pushed := pushFront_effect room.inv kept file
    rw [Lru.insert, if_neg absent, ← room.keys]
    exact room.trans pushed

theorem closeAll_effect (c : Cache Handle) : Effect c c.closeAll [] [] where
  inv := by
    constructor <;> simp [Cache.closeAll]
  keys := rfl
  opts := rfl
  owned := by
    simp only [Cache.closeAll, Cache.files, List.map_nil, List.nil_append]
    exact List.perm_append_comm

/-! ## Runs -/

/-- The files an operation opens. -/
def Op.opened : Op Handle → List Handle
  | .put _ (.ok file) => [file]
  | _ => []

/-- What an operation does to the keys. -/
def Op.onKeys (opts : Options) : Op Handle → List Text → List Text
  | .get key, keys => Lru.touch key keys
  | .put path (.ok _), keys => Lru.insert opts.max.toNat path keys
  | .put _ (.error _), keys => keys
  | .delete gone, keys => Lru.remove gone keys
  | .sweepInactive visited, keys =>
    Lru.remove (Cache.junk (fun _ value => value < opts.min) visited) keys
  | .sweepValid isNotExist visited, keys =>
    Lru.remove (Cache.junk (fun key _ => isNotExist key) visited) keys
  | .forget _, keys => keys
  | .close _, _ => []

theorem apply_effect (inv : Inv c) (op : Op Handle) :
    Effect c (c.apply op) (op.onKeys c.opts c.keys) op.opened := by
  cases op with
  | get key => exact get_effect inv key
  | put path opened =>
    cases opened with
    | error err => exact .none inv
    | ok file => exact put_effect inv path file
  | delete keys => exact delete_effect inv keys
  | sweepInactive visited => exact sweep_effect inv _ visited
  | sweepValid isNotExist visited => exact sweep_effect inv _ visited
  | forget junk => exact forget_effect inv junk
  | close report => exact closeAll_effect c

theorem run_effect (inv : Inv c) (ops : List (Op Handle)) :
    Effect c (ops.foldl Cache.apply c) (ops.foldl (fun keys op => op.onKeys c.opts keys) c.keys)
      (ops.flatMap Op.opened) := by
  induction ops generalizing c with
  | nil => exact .none inv
  | cons op ops ih =>
    have first := apply_effect inv op
    have rest := ih first.inv
    rw [first.keys, first.opts] at rest
    have whole := first.trans rest
    refine ⟨whole.inv, whole.keys, whole.opts, whole.owned.trans ?_⟩
    rw [List.flatMap_cons]
    exact List.perm_append_comm.append_right _

theorem init_cases {opts : Options} (started : Cache.init opts = some c) :
    c = ⟨opts, [], fun _ => none, fun _ => none, 0, []⟩ := by
  unfold Cache.init at started
  split at started
  · cases started
  · exact (Option.some.inj started).symm

theorem inv_init {opts : Options} (started : Cache.init opts = some c) : Inv c := by
  rw [init_cases started]
  constructor <;> simp

/-! ## The cache as an LRU -/

theorem Options.room {opts : Options} (room : 1 ≤ opts.max) : 0 < opts.max.toNat := by
  omega

/-- The operations on the reference. -/
def Op.reference {opts : Options} (room : 1 ≤ opts.max) (r : Recency Text opts.max.toNat) :
    Op Handle → Recency Text opts.max.toNat
  | .get key => r.touch key
  | .put path (.ok _) => r.insert (Options.room room) path
  | .put _ (.error _) => r
  | .delete gone => r.remove gone
  | .sweepInactive visited => r.remove (Cache.junk (fun _ value => value < opts.min) visited)
  | .sweepValid isNotExist visited => r.remove (Cache.junk (fun key _ => isNotExist key) visited)
  | .forget _ => r
  | .close _ => .empty Text _

theorem reference_keys {opts : Options} (room : 1 ≤ opts.max) (r : Recency Text opts.max.toNat)
    (op : Op Handle) : (op.reference room r).keys = op.onKeys opts r.keys := by
  cases op with
  | put path opened => cases opened <;> rfl
  | _ => rfl

theorem reference_run {opts : Options} (room : 1 ≤ opts.max) (ops : List (Op Handle))
    (r : Recency Text opts.max.toNat) :
    (ops.foldl (Op.reference room) r).keys =
      ops.foldl (fun keys op => op.onKeys opts keys) r.keys := by
  induction ops generalizing r with
  | nil => rfl
  | cons op ops ih => rw [List.foldl_cons, List.foldl_cons, ih, reference_keys]

/-- After any operations the map and the list agree, and the list has the keys of the reference,
in its order. -/
theorem cache_refines_lru (opts : Options) (start : Cache Handle)
    (started : Cache.init opts = some start) (room : 1 ≤ opts.max) (ops : List (Op Handle)) :
    let c := ops.foldl Cache.apply start
    (∀ key id, c.hash key = some id ↔ ∃ v ∈ c.list, v.id = id ∧ v.path = key) ∧
      (c.list.map (·.id)).Nodup ∧ (c.list.map (·.path)).Nodup ∧
      (c.list.length : Int) ≤ opts.max ∧
      c.list.map (·.path) = (ops.foldl (Op.reference room) (.empty Text _)).keys := by
  intro c
  have effect := run_effect (inv_init started) ops
  have keys : c.keys = (ops.foldl (Op.reference room) (.empty Text _)).keys := by
    rw [reference_run, effect.keys, init_cases started]
    rfl
  refine ⟨fun key id => ⟨effect.inv.points key id, ?_⟩, effect.inv.nodup, effect.inv.keys_nodup,
    ?_, keys⟩
  · rintro ⟨v, mem, rfl, rfl⟩
    exact effect.inv.hashed v mem
  · have bounded := (ops.foldl (Op.reference room) (.empty Text _)).bounded
    rw [← keys, Cache.keys, List.length_map] at bounded
    omega

/-- With room for two, the third path put in takes the place of the least recently used one. -/
theorem cache_refines_lru_sample :
    let ops : List (Op Nat) := [.put ['a'] (.ok 0), .put ['b'] (.ok 1), .get ['a'],
      .put ['c'] (.ok 2)]
    let start : Cache Nat := ⟨⟨true, 2, 1⟩, [], fun _ => none, fun _ => none, 0, []⟩
    (ops.foldl Cache.apply start).keys = [['c'], ['a']] ∧
      (ops.foldl Cache.apply start).keys =
        (ops.foldl (@Op.reference Nat ⟨true, 2, 1⟩ (by decide)) (.empty Text _)).keys :=
  ⟨by decide, (cache_refines_lru ⟨true, 2, 1⟩ _ rfl (by decide) _).2.2.2.2⟩

/-! ## Who has the files -/

/-- Every file the opener ever returned is either in one entry and open, or in none and closed
once. -/
theorem files_owned [DecidableEq Handle] (opts : Options) (start : Cache Handle)
    (started : Cache.init opts = some start) (ops : List (Op Handle))
    (fresh : (ops.flatMap Op.opened).Nodup) (file : Handle)
    (opened : file ∈ ops.flatMap Op.opened) :
    let c := ops.foldl Cache.apply start
    (c.files.count file = 1 ∧ c.closed.count file = 0) ∨
      (c.files.count file = 0 ∧ c.closed.count file = 1) := by
  intro c
  have owned : (c.files ++ c.closed).count file = _ :=
    (run_effect (inv_init started) ops).owned.count_eq file
  have once : (ops.flatMap Op.opened).count file = 1 := List.count_eq_one_of_mem fresh opened
  have nothing : (start.files ++ start.closed).count file = 0 := by
    rw [init_cases started]
    rfl
  rw [List.count_append, List.count_append, once, nothing] at owned
  omega

theorem files_owned_sample :
    let ops : List (Op Nat) := [.put ['a'] (.ok 0), .put ['a'] (.ok 1)]
    let start : Cache Nat := ⟨.defaults, [], fun _ => none, fun _ => none, 0, []⟩
    (ops.foldl Cache.apply start).closed = [0] ∧
      ((ops.foldl Cache.apply start).files.count 0 = 1 ∧
          (ops.foldl Cache.apply start).closed.count 0 = 0 ∨
        (ops.foldl Cache.apply start).files.count 0 = 0 ∧
          (ops.foldl Cache.apply start).closed.count 0 = 1) :=
  ⟨by decide, files_owned .defaults _ rfl _ (by decide) 0 (by decide)⟩

/-! ## Which files are closed -/

/-- The file that has to go when a path is put in. -/
def Cache.displaced (c : Cache Handle) (path : Text) : List Handle :=
  match c.lookup path with
  | some v => [v.file]
  | none => if (c.list.length : Int) ≥ c.opts.max then c.list.getLast?.toList.map (·.file) else []

/-- The files that go with these paths. -/
def Cache.deleted (c : Cache Handle) (gone : List Text) : List Handle :=
  (c.list.filter (·.path ∈ gone)).map (·.file)

theorem closed_deleteUnsafe (c : Cache Handle) (node : Option (Node Handle)) :
    (c.deleteUnsafe node).closed = c.closed ++ node.toList.map (·.file) := by
  cases node <;> simp [Cache.deleteUnsafe, Cache.close]

theorem closed_put (c : Cache Handle) (path : Text) (file : Handle) :
    (c.put path (.ok file)).2.closed = c.closed ++ c.displaced path := by
  unfold Cache.put Cache.displaced
  cases found : c.lookup path with
  | some v => rfl
  | none =>
    simp only [Cache.hit, Cache.pushFront, Cache.makeRoom]
    split
    · exact closed_deleteUnsafe _ _
    · exact (List.append_nil _).symm

theorem mem_files_put (c : Cache Handle) (path : Text) (file : Handle) :
    file ∈ (c.put path (.ok file)).2.files := by
  unfold Cache.put
  cases found : c.lookup path <;> exact List.mem_cons_self

theorem closed_get (c : Cache Handle) (key : Text) : (c.get key).2.closed = c.closed := by
  unfold Cache.get
  split <;> rfl

theorem get_mem_files (inv : Inv c) {file : Handle} (found : (c.get key).1 = some file) :
    file ∈ c.files := by
  unfold Cache.get at found
  split at found
  · cases found
  next v read =>
    cases found
    exact List.mem_map_of_mem (inv.lookup_iff.mp read).1

theorem mem_deleteUnsafe_list (inv : Inv c) :
    v ∈ (c.deleteUnsafe (c.lookup key)).list ↔ v ∈ c.list ∧ v.path ≠ key := by
  cases found : c.lookup key with
  | none =>
    have absent := inv.lookup_none.mp found
    refine (and_iff_left_of_imp ?_).symm
    intro mem same
    exact absent (same ▸ Inv.mem_keys mem)
  | some w =>
    obtain ⟨mem, rfl⟩ := inv.lookup_iff.mp found
    rw [Cache.deleteUnsafe, List.mem_filter]
    refine and_congr_right fun hv => ?_
    simp [inv.id_iff_path hv mem]

theorem mem_closed_delete (inv : Inv c) (gone : List Text) (file : Handle) :
    file ∈ (c.delete gone).closed ↔ file ∈ c.closed ∨ file ∈ c.deleted gone := by
  induction gone generalizing c with
  | nil => simp [Cache.delete, Cache.deleted]
  | cons key gone ih =>
    have first := delete_lookup_effect inv key
    rw [Cache.delete, List.foldl_cons]
    refine (ih first.inv).trans ?_
    rw [closed_deleteUnsafe, List.mem_append, or_assoc]
    refine or_congr_right ?_
    simp only [Cache.deleted, List.mem_map, List.mem_filter, decide_eq_true_eq, Option.mem_toList,
      mem_deleteUnsafe_list inv, List.mem_cons, inv.lookup_iff]
    constructor
    · rintro (⟨v, ⟨mem, same⟩, rfl⟩ | ⟨v, ⟨⟨mem, -⟩, named⟩, rfl⟩)
      · exact ⟨v, ⟨mem, .inl same⟩, rfl⟩
      · exact ⟨v, ⟨mem, .inr named⟩, rfl⟩
    · rintro ⟨v, ⟨mem, named⟩, rfl⟩
      by_cases same : v.path = key
      · exact .inl ⟨v, ⟨mem, same⟩, rfl⟩
      · exact .inr ⟨v, ⟨⟨mem, same⟩, named.resolve_left same⟩, rfl⟩

end FileCache
