import Mathlib.Logic.Function.Basic
import Vince.Utf8

/-!
# Replicated writes (`kv_store.go`, `raft_badger_store.go`)

A write is proposed to raft as a command in JSON and applied to the database by the state machine of
every node. Strings of Go are bytes, and JSON has only those that are UTF-8, so a key or a value
that is not comes out as another one.
-/

namespace KvCommands

open Utf8

structure Command where
  op : Bytes
  key : Bytes
  value : Bytes
  deriving DecidableEq

def Command.sanitize (c : Command) : Command :=
  ⟨Utf8.sanitize c.op, Utf8.sanitize c.key, Utf8.sanitize c.value⟩

structure Command.Valid (c : Command) : Prop where
  op : Utf8.Valid c.op
  key : Utf8.Valid c.key
  value : Utf8.Valid c.value

/-- The package `encoding/json` on commands: invalid bytes are replaced, and commands of valid UTF-8
come back as they were. -/
structure CommandJSON (Data : Type) where
  marshal : Command → Data
  unmarshal : Data → Option Command
  replaces : ∀ c, marshal c = marshal c.sanitize
  inverts : ∀ c : Command, c.Valid → unmarshal (marshal c) = some c

/-- The bytes of a text of ASCII. -/
def bytes (s : String) : Bytes := s.toList.map fun c => ⟨c.toNat % 256, Nat.mod_lt _ (by decide)⟩

/-! ## The database -/

abbrev Content := Bytes → Option Bytes

inductive BadgerError where
  | emptyKey
  | invalidKey
  | keySize
  | valueSize
  | txnTooBig
  | keyNotFound
  deriving DecidableEq

/-- The options that limit what can be written. -/
structure Limits where
  valueLogFileSize : ℕ
  /-- `txn.checkSize` of a transaction with this one entry. -/
  tooBig : Bytes → Bytes → Bool

def badgerPrefix : Bytes := bytes "!badger!"

/-- `txn.modify` in a transaction of `Update`. -/
def modify (limits : Limits) (key value : Bytes) : Option BadgerError :=
  if key = [] then some .emptyKey
  else if badgerPrefix.isPrefixOf key then some .invalidKey
  else if 65000 < key.length then some .keySize
  else if limits.valueLogFileSize < value.length then some .valueSize
  else if limits.tooBig key value then some .txnTooBig
  else none

/-! ## Proposing and applying -/

inductive KvError where
  | notLeader
  deriving DecidableEq

variable {Data : Type} (json : CommandJSON Data) (limits : Limits)

/-- `kv.Set` up to the call of `raft.Apply`. -/
def propose (leader : Bool) (key value : Bytes) : Except KvError Data :=
  if leader then .ok (json.marshal ⟨bytes "set", key, value⟩) else .error .notLeader

/-- What `fsm.Apply` returns. -/
inductive Applied where
  | unmarshal
  | badger (e : BadgerError)
  | unknownCommand
  | done
  | result (value : Bytes)
  deriving DecidableEq

/-- `fsm.Apply`, with the database afterwards. -/
def apply (db : Content) (data : Data) : Content × Applied :=
  match json.unmarshal data with
  | none => (db, .unmarshal)
  | some c =>
    if c.op = bytes "set" then
      match modify limits c.key c.value with
      | some e => (db, .badger e)
      | none => (Function.update db c.key (some c.value), .done)
    else if c.op = bytes "get" then
      if c.key = [] then (db, .badger .emptyKey)
      else match db c.key with
        | none => (db, .badger .keyNotFound)
        | some v => (db, .result v)
    else (db, .unknownCommand)

/-! ## What a write comes to -/

theorem valid_set : Utf8.Valid (bytes "set") :=
  (sanitize_eq_iff _).mp (by decide)

/-- The command that comes out of JSON. -/
theorem unmarshal_marshal (c : Command) : json.unmarshal (json.marshal c) = some c.sanitize := by
  rw [json.replaces]
  exact json.inverts _ ⟨valid_sanitize _, valid_sanitize _, valid_sanitize _⟩

/-- The entry of a write is applied to the repaired key and value. -/
theorem apply_set (db : Content) {key value : Bytes} {leader : Bool} {entry : Data}
    (proposed : propose json leader key value = .ok entry) :
    (apply json limits db entry).1 =
      match modify limits (sanitize key) (sanitize value) with
      | some _ => db
      | none => Function.update db (sanitize key) (some (sanitize value)) := by
  cases leader with
  | false => cases proposed
  | true =>
    cases proposed
    have set : sanitize (bytes "set") = bytes "set" := (sanitize_eq_iff _).mpr valid_set
    rw [apply, unmarshal_marshal]
    simp only [Command.sanitize, set, if_true]
    cases modify limits (sanitize key) (sanitize value) with
    | some e => rfl
    | none => rfl

/-- The database of a node that has applied the entries of a log. -/
def applyAll (db : Content) (entries : List Data) : Content :=
  entries.foldl (fun db entry => (apply json limits db entry).1) db

/-- The writes that are taken as they are. -/
structure Taken (write : Bytes × Bytes) : Prop where
  key : Utf8.Valid write.1
  value : Utf8.Valid write.2
  accepted : modify limits write.1 write.2 = none

theorem Taken.apply_eq {key value : Bytes} (taken : Taken limits (key, value)) {leader : Bool}
    {entry : Data} (proposed : propose json leader key value = .ok entry) (db : Content) :
    (apply json limits db entry).1 = Function.update db key (some value) := by
  have accepted : modify limits key value = none := taken.accepted
  rw [apply_set json limits db proposed, (sanitize_eq_iff key).mpr taken.key,
    (sanitize_eq_iff value).mpr taken.value, accepted]

/-- A write does what it should in every database iff its key and its value are UTF-8 and badger
takes them. -/
theorem replicated_write_iff {key value : Bytes} {leader : Bool} {entry : Data}
    (proposed : propose json leader key value = .ok entry) :
    (∀ db, (apply json limits db entry).1 = Function.update db key (some value)) ↔
      Utf8.Valid key ∧ Utf8.Valid value ∧ modify limits key value = none := by
  constructor
  · intro lossless
    have there := congrFun (lossless fun _ => none) key
    rw [apply_set json limits _ proposed, Function.update_self] at there
    cases taken : modify limits (sanitize key) (sanitize value) with
    | some e =>
      rw [taken] at there
      cases there
    | none =>
      rw [taken] at there
      dsimp only at there
      by_cases same : key = sanitize key
      · rw [← same, Function.update_self, Option.some.injEq] at there
        rw [← same, there] at taken
        exact ⟨(sanitize_eq_iff key).mp same.symm, (sanitize_eq_iff value).mp there, taken⟩
      · rw [Function.update_of_ne same] at there
        cases there
  · rintro ⟨validKey, validValue, accepted⟩ db
    exact Taken.apply_eq json limits ⟨validKey, validValue, accepted⟩ proposed db

/-! ## Commands as they are -/

/-- Commands that are their own JSON, up to what is not UTF-8. -/
def plainJSON : CommandJSON Command where
  marshal := Command.sanitize
  unmarshal := some
  replaces c := by
    have again (s : Bytes) : sanitize (sanitize s) = sanitize s :=
      (sanitize_eq_iff _).mpr (valid_sanitize s)
    rw [Command.sanitize, Command.sanitize, again, again, again]
  inverts c valid := by
    rw [Command.sanitize, (sanitize_eq_iff _).mpr valid.op, (sanitize_eq_iff _).mpr valid.key,
      (sanitize_eq_iff _).mpr valid.value]

private def wide : Limits := ⟨1 <<< 30, fun _ _ => false⟩

theorem replicated_write_sample :
    ∃ entry, propose plainJSON true (bytes "k") (bytes "v") = .ok entry ∧
      ∀ db, (apply plainJSON wide db entry).1 =
        Function.update db (bytes "k") (some (bytes "v")) := by
  have proposed : propose plainJSON true (bytes "k") (bytes "v") = .ok _ := rfl
  refine ⟨_, proposed, (replicated_write_iff plainJSON wide proposed).mpr ⟨?_, ?_, ?_⟩⟩
  · exact (sanitize_eq_iff _).mp (by decide)
  · exact (sanitize_eq_iff _).mp (by decide)
  · decide

/-- The key of one byte that is not UTF-8 is not there afterwards, but another key is. -/
theorem invalid_key_lost :
    ∃ entry, propose plainJSON true [0xFF] (bytes "v") = .ok entry ∧
      (apply plainJSON wide (fun _ => none) entry).1 [0xFF] = none ∧
      (apply plainJSON wide (fun _ => none) entry).1 replacement = some (bytes "v") :=
  ⟨_, rfl, by decide, by decide⟩

end KvCommands
