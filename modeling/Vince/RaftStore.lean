import Vince.BigEndian
import Vince.OrderedMap

/-!
# The log store and stable store of raft (`raft_badger_store.go`)

Badger is an ordered map on byte strings here. Its operations succeed, and `json` gives back the
entries that were written. A slice that is too short for its number is a panic, for which there is
no result.
-/

namespace RaftStore

open BigEndian OrderedMap

abbrev Bytes := List (Fin 256)

/-- A `uint64`. -/
abbrev Index := Fin (2 ^ 64)

/-- `raft.Log` -/
structure Log where
  index : Index
  term : Index
  type : Fin 256
  data : Bytes
  extensions : Bytes
  deriving DecidableEq

/-- `json.Marshal` and `json.Unmarshal` of log entries. -/
structure LogJSON where
  marshal : Log → Bytes
  unmarshal : Bytes → Option Log
  roundTrip : ∀ e, unmarshal (marshal e) = some e

inductive StoreError where
  | logNotFound
  | json
  deriving DecidableEq

/-! ## Keys -/

def stablePrefix : Bytes := "/stable".toList.map fun c => Fin.ofNat 256 c.toNat

def entryPrefix : Bytes := "/entry".toList.map fun c => Fin.ofNat 256 c.toNat

/-- `binary.BigEndian.PutUint64` -/
def putUint64 (n : Index) : Bytes := digits 256 8 n

/-- `binary.BigEndian.Uint64` reads the first eight bytes. -/
def uint64 (bytes : Bytes) : Option Index :=
  if 8 ≤ bytes.length then some (Fin.ofNat _ (value (bytes.take 8))) else none

def maxUint64 : Index := ⟨2 ^ 64 - 1, by decide⟩

def entryKey (i : Index) : Bytes := entryPrefix ++ putUint64 i

def parseEntryIndex (key : Bytes) : Option Index := uint64 (key.drop entryPrefix.length)

/-! ## The store -/

structure Store where
  db : OrderedMap Bytes Bytes
  /-- The entry of the cache for `firstKey`. -/
  cache : Option Index

def Store.empty : Store := ⟨OrderedMap.empty, none⟩

namespace Store

variable (json : LogJSON)

/-- `Set`, where badger accepts the entry: its key with the prefix is not empty and not one of
badger's own, but it and the value must not be too long. -/
def set (s : Store) (key val : Bytes) : Store :=
  { s with db := s.db.set (stablePrefix ++ key) val }

def setUint64 (s : Store) (key : Bytes) (n : Index) : Store := s.set key (putUint64 n)

def getUint64 (s : Store) (key : Bytes) : Option Index :=
  match s.db.get (stablePrefix ++ key) with
  | none => some 0
  | some val => uint64 val

def getLog (s : Store) (i : Index) : Except StoreError Log :=
  match s.db.get (entryKey i) with
  | none => .error .logNotFound
  | some val => match json.unmarshal val with
    | none => .error .json
    | some e => .ok e

def storeLog (s : Store) (e : Log) : Store :=
  { s with db := s.db.set (entryKey e.index) (json.marshal e) }

def storeLogs (s : Store) (logs : List Log) : Store := logs.foldl (storeLog json) s

/-- The loop of `deleteRage` over what the iterator visits. -/
def collect (last : Index) : List (Bytes × Bytes) → Option (List Bytes)
  | [] => some []
  | (key, _) :: rest =>
    if entryPrefix.isPrefixOf key then do
      let idx ← parseEntryIndex key
      if idx > last then some []
      else return key :: (← collect last rest)
    else some []

def deleteKeys (s : Store) (keys : List Bytes) : Store :=
  { s with db := keys.foldl delete s.db }

def deleteRage (s : Store) (first last : Index) : Option Store :=
  (collect last (s.db.seek (entryKey first))).map s.deleteKeys

def deleteRange (s : Store) (min max : Index) : Option Store := s.deleteRage min max

/-- The item an iterator stands on, if it is valid. -/
def indexOfItem : List (Bytes × Bytes) → Option (Index × Option StoreError)
  | [] => some (0, some .logNotFound)
  | (key, _) :: _ =>
    if entryPrefix.isPrefixOf key then (parseEntryIndex key).map (·, none)
    else some (0, some .logNotFound)

/-- `seekEntry` with a nil entry, as both callers have it. -/
def seekEntry (s : Store) (seekTo : Index) (reverse : Bool) :
    Option (Index × Option StoreError) :=
  indexOfItem (if reverse then s.db.seekBack (entryKey seekTo) else s.db.seek (entryKey seekTo))

def firstIndex (s : Store) : Option ((Index × Option StoreError) × Store) :=
  match s.cache with
  | some v => some ((v, none), s)
  | none => (s.seekEntry 0 false).map fun
    | (index, none) => ((index + 1, none), { s with cache := some (index + 1) })
    | (index, some err) => ((index + 1, some err), s)

def lastIndex (s : Store) : Option (Index × Option StoreError) := s.seekEntry maxUint64 true

end Store

inductive Op where
  | storeLog (e : Log)
  | storeLogs (logs : List Log)
  | deleteRange (min max : Index)
  | set (key val : Bytes)
  | setUint64 (key : Bytes) (n : Index)
  | firstIndex
  | lastIndex
  deriving DecidableEq

namespace Op

/-- The operations of the log store. -/
def isLog : Op → Bool
  | set .. | setUint64 .. => false
  | _ => true

/-- The store after a call, if the call returns. -/
def step (json : LogJSON) (s : Store) : Op → Option Store
  | storeLog e => some (s.storeLog json e)
  | storeLogs logs => some (s.storeLogs json logs)
  | deleteRange min max => s.deleteRange min max
  | set key val => some (s.set key val)
  | setUint64 key n => some (s.setUint64 key n)
  | firstIndex => s.firstIndex.map Prod.snd
  | lastIndex => s.lastIndex.map fun _ => s

end Op

def run (json : LogJSON) (s : Store) (ops : List Op) : Option Store :=
  ops.foldlM (Op.step json) s

/-! ## What the log store is for -/

/-- A finite map from indices to entries. -/
abbrev Entries := Index → Option Log

namespace Entries

def store (m : Entries) (e : Log) : Entries := Function.update m e.index (some e)

def deleteRange (m : Entries) (min max : Index) : Entries :=
  fun i => if min ≤ i ∧ i ≤ max then none else m i

def after (m : Entries) : Op → Entries
  | .storeLog e => m.store e
  | .storeLogs logs => logs.foldl store m
  | .deleteRange min max => m.deleteRange min max
  | _ => m

def stored (m : Entries) : Set Index := { i | m i ≠ none }

end Entries

def entriesAfter (m : Entries) (ops : List Op) : Entries := ops.foldl Entries.after m

/-- The result raft asks of `FirstIndex` and `LastIndex`, for the first and the last index. -/
def ReturnsEnd (m : Entries) (IsEnd : Set Index → Index → Prop)
    (result : Index × Option StoreError) : Prop :=
  result.2 = none ∧ (IsEnd m.stored result.1 ∨ m.stored = ∅ ∧ result.1 = 0)

/-! ## Keys of entries -/

theorem putUint64_lt_iff (i j : Index) : putUint64 i < putUint64 j ↔ i < j :=
  digits_lt_iff i.isLt j.isLt

theorem entryKey_lt_iff (i j : Index) : entryKey i < entryKey j ↔ i < j := by
  rw [← putUint64_lt_iff]
  constructor
  · intro less
    by_contra notLess
    rcases lt_or_eq_of_le (not_lt.mp notLess) with above | same
    · exact lt_asymm less (List.append_left_lt above)
    · rw [entryKey, entryKey, same] at less
      exact lt_irrefl _ less
  · exact List.append_left_lt

theorem entryKey_le_iff (i j : Index) : entryKey i ≤ entryKey j ↔ i ≤ j := by
  rw [← not_lt, entryKey_lt_iff, not_lt]

theorem entryKey_injective : Function.Injective entryKey := by
  intro i j same
  exact le_antisymm ((entryKey_le_iff i j).mp same.le) ((entryKey_le_iff j i).mp same.ge)

theorem entryPrefix_isPrefix (i : Index) : entryPrefix <+: entryKey i := ⟨_, rfl⟩

theorem uint64_append (n : Index) (rest : Bytes) : uint64 (putUint64 n ++ rest) = some n := by
  have length : (putUint64 n).length = 8 := length_digits 8 n
  have whole : (putUint64 n ++ rest).take 8 = putUint64 n := by rw [List.take_left' length]
  have small : n.val < 256 ^ 8 := by
    have bound := n.isLt
    omega
  rw [uint64, if_pos (by rw [List.length_append]; omega), whole, putUint64, value_digits,
    Nat.mod_eq_of_lt small, Fin.ofNat_val_eq_self]

theorem parseEntryIndex_entryKey (i : Index) : parseEntryIndex (entryKey i) = some i := by
  rw [parseEntryIndex, entryKey, List.drop_left, ← List.append_nil (putUint64 i), uint64_append]

/-- No key of the stable store is one of the log. -/
theorem stable_not_entry (key : Bytes) : ¬ entryPrefix <+: stablePrefix ++ key := by
  intro both
  have short : entryPrefix.length ≤ stablePrefix.length := by decide
  exact absurd (List.prefix_of_prefix_length_le both ⟨key, rfl⟩ short) (by decide)

/-! ## A codec of entries -/

/-- Bytes with a mark before each, so that their end shows. -/
def pack : Bytes → Bytes
  | [] => [0]
  | b :: bytes => 1 :: b :: pack bytes

def unpack : Bytes → Bytes × Bytes
  | 1 :: b :: bytes => (b :: (unpack bytes).1, (unpack bytes).2)
  | bytes => ([], bytes.drop 1)

theorem unpack_pack (bytes rest : Bytes) : unpack (pack bytes ++ rest) = (bytes, rest) := by
  induction bytes with
  | nil => simp [pack, unpack]
  | cons b bytes ih => simp [pack, unpack, ih]

def packed : LogJSON where
  marshal e := putUint64 e.index ++ (putUint64 e.term ++ e.type :: (pack e.data ++ e.extensions))
  unmarshal bytes := do
    let index ← uint64 bytes
    let term ← uint64 (bytes.drop 8)
    let (type :: rest) := bytes.drop 16 | none
    return ⟨index, term, type, (unpack rest).1, (unpack rest).2⟩
  roundTrip e := by
    obtain ⟨index, term, type, data, extensions⟩ := e
    have length : ∀ n : Index, (putUint64 n).length = 8 := fun n => length_digits 8 n
    have drop : ∀ rest, (putUint64 index ++ (putUint64 term ++ rest)).drop 16 = rest := by
      intro rest
      rw [← List.append_assoc]
      exact List.drop_left' (by rw [List.length_append, length, length])
    simp only [drop, List.drop_left' (length index), uint64_append, unpack_pack]
    rfl

end RaftStore
