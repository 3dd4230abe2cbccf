import Vince.RaftStore

/-!
# The raft log as a map from indices to entries

The database `Holds` a map of entries, and every call keeps it so. Between two keys of entries
there are only keys of entries: this is why the loop of `deleteRage` may stop at the first other
key, and why a seek from either end of the index range finds an entry if there is one.
-/

namespace RaftStore

open OrderedMap

/-- A database that holds a map of entries, besides what does not begin as an entry. -/
structure Holds (json : LogJSON) (db : OrderedMap Bytes Bytes) (m : Entries) : Prop where
  get_entryKey : ∀ i, db.get (entryKey i) = (m i).map json.marshal
  is_entryKey : ∀ {key val}, db.get key = some val → entryPrefix <+: key → ∃ i, key = entryKey i

section Holding

variable {json : LogJSON} {db : OrderedMap Bytes Bytes} {m : Entries}

theorem holds_empty : Holds json OrderedMap.empty fun _ => none := by
  constructor
  · intro i
    exact get_empty _
  · intro key val bound
    rw [get_empty] at bound
    cases bound

theorem Holds.get_of_stored (held : Holds json db m) {i : Index} (stored : i ∈ m.stored) :
    ∃ val, db.get (entryKey i) = some val := by
  obtain ⟨e, some_e⟩ := Option.ne_none_iff_exists'.mp stored
  exact ⟨json.marshal e, by rw [held.get_entryKey, some_e, Option.map_some]⟩

theorem Holds.stored_of_get (held : Holds json db m) {i : Index} {val : Bytes}
    (bound : db.get (entryKey i) = some val) : i ∈ m.stored := by
  intro absent
  rw [held.get_entryKey, absent] at bound
  cases bound

theorem Holds.store (held : Holds json db m) (e : Log) :
    Holds json (db.set (entryKey e.index) (json.marshal e)) (m.store e) := by
  constructor
  · intro i
    rw [get_set, Entries.store, Function.update_apply]
    by_cases same : i = e.index
    · rw [if_pos (congrArg entryKey same), if_pos same, Option.map_some]
    · rw [if_neg fun keys => same (entryKey_injective keys), if_neg same, held.get_entryKey]
  · intro key val bound
    rw [get_set] at bound
    split at bound
    · rename_i same
      exact fun _ => ⟨e.index, same⟩
    · exact held.is_entryKey bound

theorem Holds.set_stable (held : Holds json db m) (key val : Bytes) :
    Holds json (db.set (stablePrefix ++ key) val) m := by
  constructor
  · intro i
    rw [get_set, if_neg, held.get_entryKey]
    intro same
    exact stable_not_entry key (same ▸ entryPrefix_isPrefix i)
  · intro other val bound first
    rw [get_set, if_neg] at bound
    · exact held.is_entryKey bound first
    · intro same
      exact stable_not_entry key (same ▸ first)

/-- The loop collects the keys up to `last`, and nothing behind the first key it stops at is one
of them. -/
theorem Holds.collect_spec (held : Holds json db m) (first last : Index)
    {visited : List (Bytes × Bytes)}
    (bound : ∀ entry ∈ visited, db.get entry.1 = some entry.2)
    (above : ∀ entry ∈ visited, entryKey first ≤ entry.1)
    (sorted : visited.Pairwise fun a b => a.1 < b.1) :
    ∃ keys, Store.collect last visited = some keys ∧
      ∀ i, entryKey i ∈ keys ↔ i ≤ last ∧ ∃ val, (entryKey i, val) ∈ visited := by
  induction visited with
  | nil =>
    refine ⟨[], rfl, fun i => ?_⟩
    simp
  | cons entry rest ih =>
    obtain ⟨key, val⟩ := entry
    obtain ⟨behind, sorted_rest⟩ := List.pairwise_cons.mp sorted
    obtain ⟨bound_key, bound_rest⟩ := List.forall_mem_cons.mp bound
    obtain ⟨above_key, above_rest⟩ := List.forall_mem_cons.mp above
    have key_le : ∀ {i val'}, (entryKey i, val') ∈ (key, val) :: rest → key ≤ entryKey i := by
      intro i val' member
      rcases List.mem_cons.mp member with same | member
      · exact (congrArg Prod.fst same).ge
      · exact (behind _ member).le
    rw [Store.collect]
    by_cases first_bytes : entryPrefix <+: key
    · obtain ⟨j, rfl⟩ := held.is_entryKey bound_key first_bytes
      rw [if_pos (List.isPrefixOf_iff_prefix.mpr first_bytes), parseEntryIndex_entryKey]
      by_cases beyond : last < j
      · refine ⟨[], if_pos beyond, fun i => ?_⟩
        constructor
        · intro member
          cases member
        · rintro ⟨upTo, val', member⟩
          have := (entryKey_le_iff j i).mp (key_le member)
          exact absurd (this.trans upTo) (not_le.mpr beyond)
      · obtain ⟨keys, collected, mem_keys⟩ := ih bound_rest above_rest sorted_rest
        refine ⟨entryKey j :: keys, ?_, fun i => ?_⟩
        · simp [collected, beyond]
        · rw [List.mem_cons, mem_keys, entryKey_injective.eq_iff]
          constructor
          · rintro (rfl | ⟨upTo, val', member⟩)
            · exact ⟨not_lt.mp beyond, val, List.mem_cons_self⟩
            · exact ⟨upTo, val', List.mem_cons_of_mem _ member⟩
          · rintro ⟨upTo, val', member⟩
            rcases List.mem_cons.mp member with same | member
            · exact Or.inl (entryKey_injective (congrArg Prod.fst same))
            · exact Or.inr ⟨upTo, val', member⟩
    · rw [if_neg fun h => first_bytes (List.isPrefixOf_iff_prefix.mp h)]
      refine ⟨[], rfl, fun i => ?_⟩
      constructor
      · intro member
        cases member
      · rintro ⟨-, val', member⟩
        exact absurd (isPrefix_of_between above_key (key_le member) (entryPrefix_isPrefix first)
          (entryPrefix_isPrefix i)) first_bytes

theorem collect_isPrefix {last : Index} {visited : List (Bytes × Bytes)} {keys : List Bytes}
    (collected : Store.collect last visited = some keys) :
    ∀ key ∈ keys, entryPrefix <+: key := by
  induction visited generalizing keys with
  | nil =>
    cases collected
    exact List.forall_mem_nil _
  | cons entry rest ih =>
    rw [Store.collect] at collected
    split at collected
    · rename_i first_bytes
      obtain ⟨idx, -, collected⟩ := Option.bind_eq_some_iff.mp collected
      split at collected
      · cases collected
        exact List.forall_mem_nil _
      · obtain ⟨more, collected_rest, keys_eq⟩ := Option.bind_eq_some_iff.mp collected
        cases keys_eq
        exact List.forall_mem_cons.mpr
          ⟨List.isPrefixOf_iff_prefix.mp first_bytes, ih collected_rest⟩
    · cases collected
      exact List.forall_mem_nil _

theorem Holds.deleteRange {s : Store} (held : Holds json s.db m) (min max : Index) :
    ∃ s', s.deleteRange min max = some s' ∧ s'.cache = s.cache ∧
      Holds json s'.db (m.deleteRange min max) ∧
      ∀ key, s'.db.get (stablePrefix ++ key) = s.db.get (stablePrefix ++ key) := by
  obtain ⟨keys, collected, mem_keys⟩ := held.collect_spec min max
    (fun _ member => ((mem_seek _).mp member).2) (fun _ member => ((mem_seek _).mp member).1)
    (seek_sorted s.db (entryKey min))
  have entries := collect_isPrefix collected
  refine ⟨s.deleteKeys keys, by rw [Store.deleteRange, Store.deleteRage, collected]; rfl, rfl,
    ⟨fun i => ?_, fun {key val} bound => ?_⟩, fun key => ?_⟩
  · have range : entryKey i ∈ keys ↔ (min ≤ i ∧ i ≤ max) ∧ i ∈ m.stored := by
      rw [mem_keys]
      constructor
      · rintro ⟨upTo, val, member⟩
        obtain ⟨down, bound⟩ := (mem_seek _).mp member
        exact ⟨⟨(entryKey_le_iff min i).mp down, upTo⟩, held.stored_of_get bound⟩
      · rintro ⟨⟨down, upTo⟩, stored⟩
        obtain ⟨val, bound⟩ := held.get_of_stored stored
        exact ⟨upTo, val, (mem_seek _).mpr ⟨(entryKey_le_iff min i).mpr down, bound⟩⟩
    rw [Store.deleteKeys, get_deleteAll, held.get_entryKey, Entries.deleteRange]
    by_cases inside : min ≤ i ∧ i ≤ max
    · rw [if_pos inside]
      split
      · rfl
      · rename_i kept
        have absent : ¬ m i ≠ none := fun stored => kept (range.mpr ⟨inside, stored⟩)
        rw [not_not.mp absent]
    · rw [if_neg inside, if_neg fun member => inside (range.mp member).1]
  · rw [Store.deleteKeys, get_deleteAll] at bound
    split at bound
    · cases bound
    · exact held.is_entryKey bound
  · rw [Store.deleteKeys, get_deleteAll, if_neg]
    intro member
    exact stable_not_entry key (entries _ member)

/-! ## The two ends of the log -/

/-- The item is an entry if its key stands between two keys of entries. -/
theorem Holds.indexOfItem_cases (held : Holds json db m) (visited : List (Bytes × Bytes))
    (bound : ∀ entry ∈ visited, db.get entry.1 = some entry.2)
    (complete : ∀ i ∈ m.stored, ∃ val, (entryKey i, val) ∈ visited)
    (between : ∀ key val rest, visited = (key, val) :: rest → m.stored.Nonempty →
      entryPrefix <+: key) :
    m.stored = ∅ ∧ Store.indexOfItem visited = some (0, some .logNotFound) ∨
      ∃ i ∈ m.stored, (∃ val rest, visited = (entryKey i, val) :: rest) ∧
        Store.indexOfItem visited = some (i, none) := by
  rcases Set.eq_empty_or_nonempty m.stored with none_stored | stored
  · refine Or.inl ⟨none_stored, ?_⟩
    match visited with
    | [] => rfl
    | (key, val) :: rest =>
      rw [Store.indexOfItem, if_neg]
      intro first_bytes
      have bound_key : db.get key = some val := bound (key, val) List.mem_cons_self
      obtain ⟨i, rfl⟩ := held.is_entryKey bound_key (List.isPrefixOf_iff_prefix.mp first_bytes)
      exact Set.notMem_empty i (none_stored ▸ held.stored_of_get bound_key)
  · right
    match visited with
    | [] =>
      obtain ⟨i, stored⟩ := stored
      obtain ⟨val, member⟩ := complete i stored
      cases member
    | (key, val) :: rest =>
      have first_bytes := between key val rest rfl stored
      have bound_key : db.get key = some val := bound (key, val) List.mem_cons_self
      obtain ⟨i, rfl⟩ := held.is_entryKey bound_key first_bytes
      refine ⟨i, held.stored_of_get bound_key, ⟨val, rest, rfl⟩, ?_⟩
      rw [Store.indexOfItem, if_pos (List.isPrefixOf_iff_prefix.mpr first_bytes),
        parseEntryIndex_entryKey, Option.map_some]

theorem Holds.seekEntry_first {s : Store} (held : Holds json s.db m) :
    m.stored = ∅ ∧ s.seekEntry 0 false = some (0, some .logNotFound) ∨
      ∃ i, IsLeast m.stored i ∧ s.seekEntry 0 false = some (i, none) := by
  have head_le : ∀ {key val rest}, s.db.seek (entryKey 0) = (key, val) :: rest →
      ∀ i ∈ m.stored, entryKey 0 ≤ key ∧ key ≤ entryKey i := by
    intro key val rest visited i stored
    obtain ⟨val', bound⟩ := held.get_of_stored stored
    exact s.db.seek_head visited ((entryKey_le_iff 0 i).mpr (Fin.zero_le i)) bound
  have cases := held.indexOfItem_cases (s.db.seek (entryKey 0)) ?bound ?complete ?between
  case bound => exact fun _ member => ((mem_seek _).mp member).2
  case complete =>
    intro i stored
    obtain ⟨val, bound⟩ := held.get_of_stored stored
    exact ⟨val, (mem_seek _).mpr ⟨(entryKey_le_iff 0 i).mpr (Fin.zero_le i), bound⟩⟩
  case between =>
    rintro key val rest visited ⟨i, stored⟩
    obtain ⟨low, high⟩ := head_le visited i stored
    exact isPrefix_of_between low high (entryPrefix_isPrefix 0) (entryPrefix_isPrefix i)
  rcases cases with none_stored | ⟨i, stored, ⟨val, rest, visited⟩, result⟩
  · exact Or.inl none_stored
  · refine Or.inr ⟨i, ⟨stored, fun j stored_j => ?_⟩, result⟩
    exact (entryKey_le_iff i j).mp (head_le visited j stored_j).2

theorem le_maxUint64 (i : Index) : i ≤ maxUint64 := by
  have bound := i.isLt
  rw [Fin.le_def]
  show i.val ≤ 2 ^ 64 - 1
  omega

theorem Holds.seekEntry_last {s : Store} (held : Holds json s.db m) :
    m.stored = ∅ ∧ s.seekEntry maxUint64 true = some (0, some .logNotFound) ∨
      ∃ i, IsGreatest m.stored i ∧ s.seekEntry maxUint64 true = some (i, none) := by
  have le_head : ∀ {key val rest}, s.db.seekBack (entryKey maxUint64) = (key, val) :: rest →
      ∀ i ∈ m.stored, entryKey i ≤ key ∧ key ≤ entryKey maxUint64 := by
    intro key val rest visited i stored
    obtain ⟨val', bound⟩ := held.get_of_stored stored
    exact s.db.seekBack_head visited ((entryKey_le_iff i _).mpr (le_maxUint64 i)) bound
  have cases :=
    held.indexOfItem_cases (s.db.seekBack (entryKey maxUint64)) ?bound ?complete ?between
  case bound => exact fun _ member => ((mem_seekBack _).mp member).2
  case complete =>
    intro i stored
    obtain ⟨val, bound⟩ := held.get_of_stored stored
    exact ⟨val, (mem_seekBack _).mpr ⟨(entryKey_le_iff i _).mpr (le_maxUint64 i), bound⟩⟩
  case between =>
    rintro key val rest visited ⟨i, stored⟩
    obtain ⟨low, high⟩ := le_head visited i stored
    exact isPrefix_of_between low high (entryPrefix_isPrefix i) (entryPrefix_isPrefix maxUint64)
  rcases cases with none_stored | ⟨i, stored, ⟨val, rest, visited⟩, result⟩
  · exact Or.inl none_stored
  · refine Or.inr ⟨i, ⟨stored, fun j stored_j => ?_⟩, result⟩
    exact (entryKey_le_iff j i).mp (le_head visited j stored_j).1

theorem Holds.firstIndex_cases {s : Store} (held : Holds json s.db m) :
    (∃ v, s.cache = some v ∧ s.firstIndex = some ((v, none), s)) ∨
      s.cache = none ∧ m.stored = ∅ ∧ s.firstIndex = some ((1, some .logNotFound), s) ∨
      s.cache = none ∧ ∃ i, IsLeast m.stored i ∧
        s.firstIndex = some ((i + 1, none), { s with cache := some (i + 1) }) := by
  rw [Store.firstIndex]
  cases cached : s.cache with
  | some v => exact Or.inl ⟨v, rfl, rfl⟩
  | none =>
    rcases held.seekEntry_first with ⟨none_stored, sought⟩ | ⟨i, least, sought⟩
    · rw [sought]
      exact Or.inr (Or.inl ⟨rfl, none_stored, rfl⟩)
    · rw [sought]
      exact Or.inr (Or.inr ⟨rfl, i, least, rfl⟩)

end Holding

/-! ## Runs -/

section Runs

variable {json : LogJSON} {s : Store} {m : Entries}

theorem Holds.storeLogs (held : Holds json s.db m) (logs : List Log) :
    Holds json (s.storeLogs json logs).db (logs.foldl Entries.store m) := by
  induction logs generalizing s m with
  | nil => exact held
  | cons e logs ih => exact ih (s := s.storeLog json e) (held.store e)

theorem get_stable_storeLog (s : Store) (e : Log) (key : Bytes) :
    (s.storeLog json e).db.get (stablePrefix ++ key) = s.db.get (stablePrefix ++ key) := by
  rw [Store.storeLog, get_set, if_neg]
  intro same
  exact stable_not_entry key (same ▸ entryPrefix_isPrefix e.index)

theorem get_stable_storeLogs (s : Store) (logs : List Log) (key : Bytes) :
    (s.storeLogs json logs).db.get (stablePrefix ++ key) = s.db.get (stablePrefix ++ key) := by
  induction logs generalizing s with
  | nil => rfl
  | cons e logs ih => exact (ih _).trans (get_stable_storeLog s e key)

theorem cache_storeLogs (s : Store) (logs : List Log) :
    (s.storeLogs json logs).cache = s.cache := by
  induction logs generalizing s with
  | nil => rfl
  | cons e logs ih => exact ih (s.storeLog json e)

/-- What one call does to the entries, to the stable store and to the cache. -/
theorem Holds.step (held : Holds json s.db m) (op : Op) :
    ∃ s', op.step json s = some s' ∧ Holds json s'.db (m.after op) ∧
      (op.isLog = true → ∀ key,
        s'.db.get (stablePrefix ++ key) = s.db.get (stablePrefix ++ key)) ∧
      (op ≠ .firstIndex → s'.cache = s.cache) := by
  cases op with
  | storeLog e =>
    exact ⟨_, rfl, held.store e, fun _ => get_stable_storeLog s e, fun _ => rfl⟩
  | storeLogs logs =>
    exact ⟨_, rfl, held.storeLogs logs, fun _ => get_stable_storeLogs s logs,
      fun _ => cache_storeLogs s logs⟩
  | deleteRange min max =>
    obtain ⟨s', deleted, cache, held', stable⟩ := held.deleteRange min max
    exact ⟨s', deleted, held', fun _ => stable, fun _ => cache⟩
  | set key val =>
    exact ⟨_, rfl, held.set_stable key val, nofun, fun _ => rfl⟩
  | setUint64 key n =>
    exact ⟨_, rfl, held.set_stable key (putUint64 n), nofun, fun _ => rfl⟩
  | firstIndex =>
    rcases held.firstIndex_cases with ⟨v, -, result⟩ | ⟨-, -, result⟩ | ⟨-, i, -, result⟩
    all_goals
      refine ⟨_, congrArg (Option.map Prod.snd) result, held, fun _ _ => rfl, ?_⟩
      exact fun other => absurd rfl other
  | lastIndex =>
    have result : ∃ r, s.lastIndex = some r := by
      rcases held.seekEntry_last with ⟨-, result⟩ | ⟨i, -, result⟩
      · exact ⟨_, result⟩
      · exact ⟨_, result⟩
    obtain ⟨r, result⟩ := result
    exact ⟨s, congrArg (Option.map fun _ => s) result, held, fun _ _ => rfl, fun _ => rfl⟩

theorem Holds.run (held : Holds json s.db m) (ops : List Op) :
    ∃ s', run json s ops = some s' ∧ Holds json s'.db (entriesAfter m ops) := by
  induction ops generalizing s m with
  | nil => exact ⟨s, rfl, held⟩
  | cons op ops ih =>
    obtain ⟨s', stepped, held', -⟩ := held.step op
    obtain ⟨s'', ran, held''⟩ := ih held'
    refine ⟨s'', ?_, held''⟩
    rw [RaftStore.run, List.foldlM_cons, stepped]
    exact ran

/-- Looking an entry up in the map. -/
def Entries.getLog (m : Entries) (i : Index) : Except StoreError Log :=
  match m i with
  | none => .error .logNotFound
  | some e => .ok e

theorem Holds.getLog (held : Holds json s.db m) (i : Index) : s.getLog json i = m.getLog i := by
  rw [Store.getLog, held.get_entryKey, Entries.getLog]
  cases m i with
  | none => rfl
  | some e => simp only [Option.map_some, json.roundTrip]

theorem Entries.after_stable {op : Op} (stable : op.isLog = false) : m.after op = m := by
  cases op with
  | set key val => rfl
  | setUint64 key n => rfl
  | _ => cases stable

theorem Entries.getLog_deleteRange (min max i : Index) :
    (m.deleteRange min max).getLog i =
      if min ≤ i ∧ i ≤ max then .error .logNotFound else m.getLog i := by
  simp only [Entries.getLog, Entries.deleteRange]
  by_cases inside : min ≤ i ∧ i ≤ max
  · rw [if_pos inside, if_pos inside]
  · rw [if_neg inside, if_neg inside]

/-- The log store refines a map from indices to entries, and its entries and the stable store do
not see each other. -/
theorem run_refines_entries (held : Holds json s.db m) (ops : List Op) :
    ∃ s', RaftStore.run json s ops = some s' ∧
      (∀ i, s'.getLog json i = (entriesAfter m ops).getLog i) ∧
      (∀ min max, ∃ t, s'.deleteRange min max = some t ∧ ∀ i,
        t.getLog json i =
          if min ≤ i ∧ i ≤ max then .error .logNotFound else s'.getLog json i) ∧
      ∀ op : Op, ∃ t, op.step json s' = some t ∧
        (op.isLog = true → ∀ key, t.getUint64 key = s'.getUint64 key) ∧
        (op.isLog = false → ∀ i, t.getLog json i = s'.getLog json i) := by
  obtain ⟨s', ran, held'⟩ := held.run ops
  refine ⟨s', ran, held'.getLog, fun min max => ?_, fun op => ?_⟩
  · obtain ⟨t, deleted, -, held_t, -⟩ := held'.deleteRange min max
    refine ⟨t, deleted, fun i => ?_⟩
    rw [held_t.getLog, held'.getLog, Entries.getLog_deleteRange]
  · obtain ⟨t, stepped, held_t, stable, -⟩ := held'.step op
    refine ⟨t, stepped, fun log key => ?_, fun other i => ?_⟩
    · rw [Store.getUint64, Store.getUint64, stable log key]
    · rw [held_t.getLog, held'.getLog, Entries.after_stable other]

/-- An entry is stored, replaced, and the range below it deleted. -/
theorem run_refines_entries_of_three :
    ∃ s, RaftStore.run packed .empty
        [.storeLogs [⟨4, 1, 0, [], []⟩, ⟨5, 1, 0, [7], []⟩], .setUint64 [1] 9,
          .storeLog ⟨5, 2, 0, [], []⟩, .deleteRange 0 4] = some s ∧
      s.getLog packed 5 = .ok ⟨5, 2, 0, [], []⟩ ∧
      s.getLog packed 4 = .error .logNotFound := by
  have held : Holds packed Store.empty.db fun _ => none := holds_empty
  obtain ⟨s, ran, entries, -⟩ := run_refines_entries held
    [.storeLogs [⟨4, 1, 0, [], []⟩, ⟨5, 1, 0, [7], []⟩], .setUint64 [1] 9,
      .storeLog ⟨5, 2, 0, [], []⟩, .deleteRange 0 4]
  refine ⟨s, ran, ?_, ?_⟩
  · rw [entries]
    rfl
  · rw [entries]
    rfl

end Runs

end RaftStore
