import Vince.KvCommands
import Vince.OpaTxn
import Vince.RaftStore
import Vince.Uvarint

/-!
# Values as they are read back from badger (`raft_badger_store.go`, `opa_backend_store.go`)

Both readers make a slice of the size that `Item.ValueSize` tells and drop the slice that
`ValueCopy` returns. For a value in the value log the size takes the header of its record for six
bytes, although it has the lengths of the key and of the value in it, as numbers of variable length.
-/

namespace BadgerValues

open RaftStore
open OpaTxn hiding Bytes get
open KvCommands (BadgerError Limits)

/-! ## Records of the value log -/

/-- `header.Encode`: two bytes of flags and three numbers. -/
def headerLen (klen vlen expiresAt : ℕ) : ℕ :=
  2 + (Uvarint.encode klen).length + (Uvarint.encode vlen).length +
    (Uvarint.encode expiresAt).length

/-- `encodeEntry`: the header, the key with its timestamp, the value and a checksum. Nothing that is
stored expires. -/
def recordLen (key value : Bytes) : ℕ :=
  headerLen (key.length + 8) value.length 0 + (key.length + 8) + value.length + 4

/-- `Item.ValueSize`. Values below the threshold are not in the value log. -/
def valueSize (key value : Bytes) : ℕ :=
  if value.length < 32 then value.length
  else recordLen key value - (key.length + 8) - 6 - 4

/-- The lengths of keys and values for which the header has six bytes, and those of short values. -/
def Exact (klen vlen : ℕ) : Prop :=
  vlen < 32 ∨ (klen + 8 < 128 ∧ 128 ≤ vlen ∧ vlen < 16384) ∨
    (128 ≤ klen + 8 ∧ klen + 8 < 16384 ∧ vlen < 128)

theorem valueSize_eq_iff (key value : Bytes) :
    valueSize key value = value.length ↔ Exact key.length value.length := by
  rw [valueSize]
  by_cases short : value.length < 32
  · rw [if_pos short]
    exact iff_of_true rfl (.inl short)
  · have keyPos := Uvarint.length_pos (key.length + 8)
    have valuePos := Uvarint.length_pos value.length
    have keyOne := Uvarint.length_eq_one_iff (key.length + 8)
    have keyTwo := Uvarint.length_eq_two_iff (key.length + 8)
    have valueOne := Uvarint.length_eq_one_iff value.length
    have valueTwo := Uvarint.length_eq_two_iff value.length
    have expiry : (Uvarint.encode 0).length = 1 := Uvarint.length_of_lt (by decide)
    rw [if_neg short, recordLen, headerLen, expiry, Exact]
    omega

/-! ## Copying -/

theorem valueCopy_eq_iff (size : ℕ) (val : Bytes) :
    valueCopy size val = val ↔ size = val.length := by
  rw [valueCopy]
  by_cases fits : val.length ≤ size
  · rw [if_pos fits]
    constructor
    · intro same
      have lengths := congrArg List.length same
      rw [List.length_append, List.length_replicate] at lengths
      omega
    · rintro rfl
      simp
  · rw [if_neg fits]
    constructor
    · intro same
      rw [← same, List.length_replicate]
    · rintro rfl
      exact absurd (Nat.le_refl _) fits

/-! ## The two readers -/

/-- `store.Set`. An entry that badger refuses is not written. -/
def set (limits : Limits) (s : Store) (key val : Bytes) : Except BadgerError Store :=
  match KvCommands.modify limits (stablePrefix ++ key) val with
  | some e => .error e
  | none => .ok (s.set key val)

/-- `store.Get`, with no result for a key that is not found. -/
def get (s : Store) (key : Bytes) : Option Bytes :=
  (s.db.get (stablePrefix ++ key)).map fun val =>
    valueCopy (valueSize (stablePrefix ++ key) val) val

theorem get_set (s : Store) (key val : Bytes) :
    get (s.set key val) key = some (valueCopy (valueSize (stablePrefix ++ key) val) val) := by
  rw [get, Store.set, OrderedMap.get_set, if_pos rfl]
  rfl

/-- What is read of a value in the database by an event. -/
theorem manage_read (b : Badger) {s : State} (c : ℕ) {key val : Bytes} (given : key ≠ [])
    (stored : s.txn key = some val) :
    s.manage b c (.read key) =
      s.output c (.read key) (.value (valueCopy (b.valueSize key val) val)) := by
  rw [State.manage, OpaTxn.get, if_neg given, stored]

/-- A value is written and read back as it was iff badger accepts it, and it is short or the header
of its record has the length that it is taken for. -/
theorem value_read_back_iff (key val : Bytes) :
    (∀ (limits : Limits) (s : Store),
      (∃ t, set limits s key val = .ok t ∧ get t key = some val) ↔
        KvCommands.modify limits (stablePrefix ++ key) val = none ∧
          Exact (key.length + 7) val.length) ∧
    ∀ (b : Badger) (s : State) (c : ℕ), b.valueSize = valueSize →
      key ≠ [] → s.txn = s.db → s.db key = some val →
        ∃ read, s.manage b c (.read key) = s.output c (.read key) (.value read) ∧
          (read = val ↔ Exact key.length val.length) := by
  constructor
  · intro limits s
    have length : (stablePrefix ++ key).length = key.length + 7 := by
      rw [List.length_append, Nat.add_comm]
      rfl
    rw [set]
    cases KvCommands.modify limits (stablePrefix ++ key) val with
    | some e => simp
    | none =>
      simp only [Except.ok.injEq, exists_eq_left', true_and]
      rw [get_set, Option.some.injEq, valueCopy_eq_iff, valueSize_eq_iff, length]
  · intro b s c size given clean stored
    refine ⟨_, manage_read b c given (by rw [clean, stored]), ?_⟩
    rw [size, valueCopy_eq_iff, valueSize_eq_iff]

private def sized : Badger := ⟨fun _ _ => none, valueSize, 1⟩

private def sampleTxn (value : Bytes) : State := newTxn (fun _ => some value) {}

private def roomy : Limits := ⟨1000, fun _ _ => false⟩

private theorem roomy_accepts {n : ℕ} (few : n ≤ 1000) :
    KvCommands.modify roomy (stablePrefix ++ [1]) (List.replicate n 7) = none := by
  have small : ¬ roomy.valueLogFileSize < n := Nat.not_lt.mpr few
  rw [KvCommands.modify, if_neg (by decide), if_neg (by decide), if_neg (by decide),
    List.length_replicate, if_neg small]
  rfl

theorem value_read_back_sample :
    (∃ t, set roomy Store.empty [1] (List.replicate 200 7) = .ok t ∧
      get t [1] = some (List.replicate 200 7)) ∧
    ∃ read, (sampleTxn [7]).manage sized 0 (.read [1]) =
      (sampleTxn [7]).output 0 (.read [1]) (.value read) ∧ read = [7] := by
  constructor
  · refine ((value_read_back_iff [1] (List.replicate 200 7)).1 roomy _).mpr
      ⟨roomy_accepts (by decide), ?_⟩
    rw [List.length_replicate]
    exact .inr (.inl (by decide))
  · obtain ⟨read, ran, same⟩ := (value_read_back_iff [1] [7]).2 sized (sampleTxn [7]) 0 rfl
      (List.cons_ne_nil _ _) rfl rfl
    exact ⟨read, ran, same.mpr (.inl (by decide))⟩

/-- A value of forty bytes is read back as 39 zeros. -/
theorem value_of_forty_bytes_lost :
    ∃ t, set roomy Store.empty [1] (List.replicate 40 7) = .ok t ∧
      get t [1] = some (List.replicate 39 0) := by
  have key : (stablePrefix ++ [1]).length = 8 := rfl
  have keyLen : (Uvarint.encode (8 + 8)).length = 1 := Uvarint.length_of_lt (by decide)
  have valueLen : (Uvarint.encode 40).length = 1 := Uvarint.length_of_lt (by decide)
  have expiry : (Uvarint.encode 0).length = 1 := Uvarint.length_of_lt (by decide)
  have size : valueSize (stablePrefix ++ [1]) (List.replicate 40 7) = 39 := by
    rw [valueSize, recordLen, headerLen, List.length_replicate, key, keyLen, valueLen, expiry]
    rfl
  refine ⟨_, by rw [set, roomy_accepts (by decide)], ?_⟩
  rw [get_set, size, valueCopy, if_neg (by rw [List.length_replicate]; decide)]
  rfl

end BadgerValues
