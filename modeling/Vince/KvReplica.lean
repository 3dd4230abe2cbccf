import Vince.KeyedWrites
import Vince.KvCommands

/-!
# A replica over its log, and its snapshots (`raft_badger_store.go`)

A node applies the entries of a log and persists snapshots in between. Badger gives every write a
version, one higher than the one before, and `Backup` dumps, for each key, what has been written
since a given version. `Persist` backs up since the point of the previous backup and moves that
point before it closes the sink, so a snapshot holds the changes since the previous one, and those
of a sink that fails to close are in no snapshot.

`Persist` is one step here. Raft may call `Apply` while it goes on, and the parts of a backup may
then be as of different versions; such runs are left out.
-/

namespace KvReplica

open Utf8 KvCommands KeyedWrites

variable {Data : Type} (json : CommandJSON Data) (limits : Limits)

/-! ## The log -/

/-- The key and the value that an entry sets, if it sets one. -/
def written (entry : Data) : Option (Bytes × Bytes) :=
  (json.unmarshal entry).bind fun c =>
    if c.op = bytes "set" ∧ modify limits c.key c.value = none then some (c.key, c.value) else none

def writtenTo (key : Bytes) (entry : Data) : Option Bytes :=
  (written json limits entry).bind fun write => if write.1 = key then some write.2 else none

theorem apply_content (db : Content) (entry : Data) (key : Bytes) :
    (apply json limits db entry).1 key =
      ((writtenTo json limits key entry).map some).getD (db key) := by
  rw [apply, writtenTo, written]
  cases json.unmarshal entry with
  | none => rfl
  | some c =>
    dsimp only [Option.bind_some]
    by_cases set : c.op = bytes "set"
    · cases taken : modify limits c.key c.value with
      | some e => simp [set]
      | none =>
        by_cases same : c.key = key
        · subst same
          simp [set]
        · simp [set, same, Function.update_of_ne (Ne.symm same)]
    · by_cases get : c.op = bytes "get"
      · rw [if_neg set, if_pos get]
        split
        · simp [set]
        · split <;> simp [set]
      · simp [set, get]

/-- What a key holds after the log: the last value written to it. -/
theorem applyAll_content (db : Content) (entries : List Data) (key : Bytes) :
    applyAll json limits db entries key =
      (lastWrite (writtenTo json limits key) entries).or (db key) := by
  induction entries using List.reverseRecOn with
  | nil => rfl
  | append_singleton entries entry ih =>
    rw [applyAll, List.foldl_concat, apply_content, lastWrite_append, lastWrite_singleton,
      Option.or_assoc, ← ih]
    cases writtenTo json limits key entry with
    | none => rfl
    | some value => rfl

/-- What the state machine returns for each entry of a log. -/
def answers (db : Content) : List Data → List Applied
  | [] => []
  | entry :: rest =>
    (apply json limits db entry).2 :: answers (apply json limits db entry).1 rest

theorem answers_append (db : Content) (before rest : List Data) :
    answers json limits db (before ++ rest) =
      answers json limits db before ++
        answers json limits (applyAll json limits db before) rest := by
  induction before generalizing db with
  | nil => rfl
  | cons entry before ih =>
    rw [List.cons_append, answers, answers, ih, List.cons_append]
    rfl

theorem length_answers (db : Content) (entries : List Data) :
    (answers json limits db entries).length = entries.length := by
  induction entries generalizing db with
  | nil => rfl
  | cons entry rest ih => rw [answers, List.length_cons, ih, List.length_cons]

/-- A read in the log is answered with the last value that the entries before it have written to
the key, or with the one the database started with. -/
theorem read_answered_by_last_write (db : Content) (before after : List Data) (entry : Data)
    (key value : Bytes) (read : json.unmarshal entry = some ⟨bytes "get", key, value⟩)
    (named : key ≠ []) :
    (answers json limits db (before ++ entry :: after))[before.length]? =
      some (((lastWrite (writtenTo json limits key) before).or (db key)).elim
        (.badger .keyNotFound) .result) := by
  have other : bytes "get" ≠ bytes "set" := by decide
  have here : (apply json limits (applyAll json limits db before) entry).2 =
      (applyAll json limits db before key).elim (.badger .keyNotFound) .result := by
    rw [apply, read]
    simp only [other, named, if_false, if_true]
    cases applyAll json limits db before key with
    | none => rfl
    | some value => rfl
  rw [answers_append, List.getElem?_append_right (Nat.le_of_eq (length_answers ..)),
    length_answers, Nat.sub_self, answers, List.getElem?_cons_zero, here, applyAll_content]

def unlimited : Limits := ⟨1000, fun _ _ => false⟩

def setting (key value : String) : Command := ⟨bytes "set", bytes key, bytes value⟩

theorem read_answered_by_last_write_sample :
    (answers plainJSON unlimited (fun _ => none) ([setting "k" "v", setting "k" "w"] ++
      ⟨bytes "get", bytes "k", []⟩ :: [setting "k" "x"]))[2]? = some (.result (bytes "w")) :=
  (read_answered_by_last_write plainJSON unlimited (fun _ => none)
    [setting "k" "v", setting "k" "w"] [setting "k" "x"] ⟨bytes "get", bytes "k", []⟩ (bytes "k")
    [] rfl (by decide)).trans (by decide)

/-! ## Versions -/

/-- The writes badger has committed. The first has version 1. -/
abbrev Commits := List (Bytes × Bytes)

variable {commits more : Commits} {key : Bytes} {found : ℕ × Bytes} {n since : ℕ}

def versionTo (key : Bytes) (entry : (Bytes × Bytes) × ℕ) : Option (ℕ × Bytes) :=
  if entry.1.1 = key then some (entry.2, entry.1.2) else none

/-- The last version of a key, with its value. -/
def latest (commits : Commits) (key : Bytes) : Option (ℕ × Bytes) :=
  lastWrite (versionTo key) (commits.zipIdx 1)

theorem latest_concat (commits : Commits) (write : Bytes × Bytes) (key : Bytes) :
    latest (commits ++ [write]) key =
      if write.1 = key then some (commits.length + 1, write.2) else latest commits key := by
  rw [latest, List.zipIdx_append, lastWrite_append, List.zipIdx_singleton, lastWrite_singleton,
    versionTo, Nat.add_comm]
  by_cases same : write.1 = key
  · simp [same]
  · simp [same, latest]

theorem latest_bounds (version : latest commits key = some found) :
    0 < found.1 ∧ found.1 ≤ commits.length := by
  induction commits using List.reverseRecOn with
  | nil => cases version
  | append_singleton commits write ih =>
    rw [latest_concat] at version
    rw [List.length_append, List.length_singleton]
    split at version
    · cases version
      omega
    · have := ih version
      omega

/-- Without commits that are later than the last version of the key. -/
theorem latest_take (before : ∀ found ∈ latest commits key, found.1 ≤ n) :
    latest (commits.take n) key = latest commits key := by
  induction commits using List.reverseRecOn with
  | nil => rw [List.take_nil]
  | append_singleton commits write ih =>
    by_cases all : commits.length < n
    · rw [List.take_of_length_le (by simp; omega)]
    · rw [List.take_append_of_le_length (by omega)]
      rw [latest_concat] at before ⊢
      split at before
      · have late := before _ rfl
        dsimp only at late
        omega
      · rw [ih before, if_neg (by assumption)]

/-- The database of a node is made of the last versions. -/
theorem applyAll_latest (entries : List Data) (key : Bytes) :
    applyAll json limits (fun _ => none) entries key =
      (latest (entries.filterMap (written json limits)) key).map (·.2) := by
  rw [applyAll_content, Option.or_none]
  induction entries using List.reverseRecOn with
  | nil => rfl
  | append_singleton entries entry ih =>
    rw [lastWrite_append, lastWrite_singleton, ih, List.filterMap_append]
    cases made : written json limits entry with
    | none => simp [writtenTo, made]
    | some write =>
      rw [List.filterMap_cons_some made, List.filterMap_nil, latest_concat, writtenTo, made,
        Option.bind_some]
      by_cases same : write.1 = key
      · simp [same]
      · simp [same]

/-! ## Snapshots -/

/-- An entry of a backup: version, key and value. -/
abbrev Dump := List (ℕ × Bytes × Bytes)

/-- `stream.Backup`. Of the older versions of a key, which it may dump as well, none matters. -/
def backup (commits : Commits) (since : ℕ) : Dump :=
  (commits.zipIdx 1).filterMap fun entry =>
    if since ≤ entry.2 ∧ latest commits entry.1.1 = some (entry.2, entry.1.2)
    then some (entry.2, entry.1) else none

def raise (m : ℕ) (kv : ℕ × Bytes × Bytes) : ℕ := if m < kv.1 then kv.1 else m

/-- The version that `Backup` returns. -/
def maxVersion (dump : Dump) : ℕ := dump.foldl raise 0

def find (dump : Dump) (key : Bytes) : Option (ℕ × Bytes) :=
  (dump.find? (·.2.1 = key)).map fun kv => (kv.1, kv.2.2)

/-- A snapshot that was persisted, with the versions that its backup was about. -/
structure Snapshot where
  since : ℕ
  upTo : ℕ
  dump : Dump

/-- The database, the version saved by `snapostSince`, and the snapshots whose sink was closed, the
first one first. -/
structure State where
  commits : Commits := []
  since : ℕ := 0
  kept : List Snapshot := []

inductive Op (Data : Type) where
  | apply (entry : Data)
  | persist (backupFails closeFails : Bool)

/-- `fsmSnapshot.Persist`. -/
def State.persist (s : State) (backupFails closeFails : Bool) : State :=
  if backupFails then s
  else
    let dump := backup s.commits s.since
    let n := maxVersion dump
    { s with since := n, kept := if closeFails then s.kept else s.kept ++ [⟨s.since, n, dump⟩] }

def State.step (s : State) : Op Data → State
  | .apply entry => { s with commits := s.commits ++ (written json limits entry).toList }
  | .persist backupFails closeFails => s.persist backupFails closeFails

def run (ops : List (Op Data)) : State := ops.foldl (State.step json limits) {}

/-- The last version of a key as of the last backup. -/
def State.backedUp (s : State) (key : Bytes) : Option (ℕ × Bytes) :=
  latest (s.commits.take s.since) key

/-- What one gets by loading the snapshots one after the other. -/
def replay (kept : List Snapshot) (key : Bytes) : Option (ℕ × Bytes) :=
  kept.foldl (fun held snapshot => (find snapshot.dump key).or held) none

theorem mem_zipIdx_of_latest (version : latest commits key = some found) :
    ((key, found.2), found.1) ∈ commits.zipIdx 1 := by
  obtain ⟨entry, here, wrote⟩ := List.mem_filterMap.mp (List.mem_of_getLast? version)
  rw [versionTo] at wrote
  split at wrote
  · rename_i same
    cases wrote
    rw [← same]
    exact here
  · cases wrote

theorem mem_backup {version : ℕ} {value : Bytes} :
    (version, key, value) ∈ backup commits since ↔
      since ≤ version ∧ latest commits key = some (version, value) := by
  rw [backup, List.mem_filterMap]
  constructor
  · rintro ⟨⟨⟨key', value'⟩, version'⟩, -, made⟩
    split at made
    · rename_i holds
      cases made
      exact holds
    · cases made
  · rintro ⟨late, last⟩
    exact ⟨_, mem_zipIdx_of_latest last, if_pos ⟨late, last⟩⟩

theorem find_backup (commits : Commits) (since : ℕ) (key : Bytes) :
    find (backup commits since) key = (latest commits key).filter (since ≤ ·.1) := by
  rw [find]
  cases last : latest commits key with
  | none =>
    rw [List.find?_eq_none.mpr, Option.map_none, Option.filter_none]
    rintro ⟨version, key', value⟩ here same
    rw [decide_eq_true_eq] at same
    subst same
    rw [mem_backup, last] at here
    cases here.2
  | some found =>
    obtain ⟨version, value⟩ := found
    cases dumped : (backup commits since).find? (·.2.1 = key) with
    | none =>
      have early : ¬ since ≤ version := by
        intro late
        have here := mem_backup.mpr ⟨late, last⟩
        simpa using List.find?_eq_none.mp dumped _ here
      simp [Option.filter, early]
    | some kv =>
      obtain ⟨version', key', value'⟩ := kv
      have same : key' = key := by simpa using List.find?_some dumped
      subst same
      obtain ⟨late, last'⟩ := mem_backup.mp (List.mem_of_find?_eq_some dumped)
      rw [last, Option.some.injEq, Prod.mk.injEq] at last'
      obtain ⟨rfl, rfl⟩ := last'
      simp [Option.filter, late]

theorem le_raise (m : ℕ) (kv : ℕ × Bytes × Bytes) : m ≤ raise m kv ∧ kv.1 ≤ raise m kv := by
  rw [raise]
  split <;> omega

theorem le_foldl_raise (dump : Dump) (m : ℕ) :
    m ≤ dump.foldl raise m ∧ ∀ kv ∈ dump, kv.1 ≤ dump.foldl raise m := by
  induction dump generalizing m with
  | nil => simp
  | cons kv dump ih =>
    obtain ⟨above, all⟩ := ih (raise m kv)
    obtain ⟨old, new⟩ := le_raise m kv
    rw [List.foldl_cons]
    exact ⟨Nat.le_trans old above, List.forall_mem_cons.mpr ⟨Nat.le_trans new above, all⟩⟩

theorem foldl_raise_le {dump : Dump} {m bound : ℕ} (below : m ≤ bound)
    (each : ∀ kv ∈ dump, kv.1 ≤ bound) : dump.foldl raise m ≤ bound := by
  induction dump generalizing m with
  | nil => exact below
  | cons kv dump ih =>
    rw [List.forall_mem_cons] at each
    refine ih ?_ each.2
    rw [raise]
    split <;> omega

/-- The last commit is the last version of its key and so in the backup. -/
theorem maxVersion_backup (past : since ≤ commits.length) :
    maxVersion (backup commits since) = commits.length := by
  apply Nat.le_antisymm
  · refine foldl_raise_le (Nat.zero_le _) ?_
    rintro ⟨version, key, value⟩ here
    exact (latest_bounds (mem_backup.mp here).2).2
  · cases commits using List.reverseRecOn with
    | nil => exact Nat.zero_le _
    | append_singleton commits write =>
      have last : latest (commits ++ [write]) write.1 = some (commits.length + 1, write.2) := by
        rw [latest_concat, if_pos rfl]
      rw [List.length_append, List.length_singleton] at past ⊢
      exact (le_foldl_raise _ 0).2 _ (mem_backup.mpr ⟨past, last⟩)

/-! ## What the snapshots hold -/

/-- The versions of the snapshot and of what it holds, in a database with more commits. -/
structure Snapshot.Of (commits : Commits) (snapshot : Snapshot) : Prop where
  ordered : snapshot.since ≤ snapshot.upTo
  past : snapshot.upTo ≤ commits.length
  find_eq : ∀ key, find snapshot.dump key =
    (latest (commits.take snapshot.upTo) key).filter (snapshot.since ≤ ·.1)

structure Inv (s : State) : Prop where
  past : s.since ≤ s.commits.length
  each : ∀ snapshot ∈ s.kept, snapshot.Of s.commits ∧ snapshot.upTo ≤ s.since
  apart : s.kept.Pairwise fun first second => first.upTo ≤ second.since

variable {s : State}

theorem Snapshot.Of.append {snapshot : Snapshot} (holds : snapshot.Of commits) (more : Commits) :
    snapshot.Of (commits ++ more) where
  ordered := holds.ordered
  past := by
    have past := holds.past
    rw [List.length_append]
    omega
  find_eq key := by
    rw [List.take_append_of_le_length holds.past]
    exact holds.find_eq key

theorem snapshot_of_backup (past : since ≤ commits.length) :
    Snapshot.Of commits ⟨since, maxVersion (backup commits since), backup commits since⟩ where
  ordered := by rw [maxVersion_backup past]; exact past
  past := Nat.le_of_eq (maxVersion_backup past)
  find_eq key := by
    dsimp only
    rw [maxVersion_backup past, List.take_length, find_backup]

theorem inv_persist (inv : Inv s) (backupFails closeFails : Bool) :
    Inv (s.persist backupFails closeFails) := by
  rw [State.persist]
  split
  · exact inv
  · have whole := maxVersion_backup inv.past
    have new := snapshot_of_backup inv.past
    have old : ∀ snapshot ∈ s.kept, snapshot.Of s.commits ∧
        snapshot.upTo ≤ maxVersion (backup s.commits s.since) := by
      intro snapshot here
      obtain ⟨holds, before⟩ := inv.each snapshot here
      have past := inv.past
      exact ⟨holds, by omega⟩
    split
    · exact ⟨Nat.le_of_eq whole, old, inv.apart⟩
    · refine ⟨Nat.le_of_eq whole, ?_, ?_⟩
      · simp only [List.forall_mem_append, List.forall_mem_singleton]
        exact ⟨old, new, Nat.le_refl _⟩
      · refine List.pairwise_append.mpr ⟨inv.apart, List.pairwise_singleton _ _, ?_⟩
        intro snapshot here other same
        rw [List.mem_singleton.mp same]
        exact (inv.each snapshot here).2

theorem run_concat (ops : List (Op Data)) (op : Op Data) :
    run json limits (ops ++ [op]) = (run json limits ops).step json limits op :=
  List.foldl_concat ..

theorem inv_run (ops : List (Op Data)) : Inv (run json limits ops) := by
  induction ops using List.reverseRecOn with
  | nil => exact ⟨Nat.le_refl 0, by simp [run], List.Pairwise.nil⟩
  | append_singleton ops op ih =>
    rw [run_concat]
    cases op with
    | apply entry =>
      refine ⟨?_, fun snapshot here => ?_, ih.apart⟩
      · have past := ih.past
        simp only [State.step, List.length_append]
        exact Nat.le_trans past (Nat.le_add_right _ _)
      · obtain ⟨holds, before⟩ := ih.each snapshot here
        exact ⟨holds.append _, before⟩
    | persist backupFails closeFails => exact inv_persist ih backupFails closeFails

theorem replay_append (kept later : List Snapshot) (key : Bytes) :
    replay (kept ++ later) key = (replay later key).or (replay kept key) := by
  induction later using List.reverseRecOn with
  | nil => rw [List.append_nil]; rfl
  | append_singleton later snapshot ih =>
    rw [← List.append_assoc, replay, List.foldl_concat, replay, List.foldl_concat, Option.or_assoc]
    exact congrArg (Option.or _) ih

theorem replay_cons (snapshot : Snapshot) (later : List Snapshot) (key : Bytes) :
    replay (snapshot :: later) key = (replay later key).or (find snapshot.dump key) := by
  have one : replay [snapshot] key = find snapshot.dump key := by
    rw [replay, List.foldl_cons, List.foldl_nil, Option.or_none]
  rw [← List.singleton_append, replay_append, one]

/-- What is replayed is in one of the snapshots. -/
theorem replay_some {kept : List Snapshot} (held : replay kept key = some found) :
    ∃ snapshot ∈ kept, find snapshot.dump key = some found := by
  induction kept with
  | nil => cases held
  | cons snapshot later ih =>
    rw [replay_cons, Option.or_eq_some_iff] at held
    rcases held with held | ⟨-, held⟩
    · obtain ⟨other, here, holds⟩ := ih held
      exact ⟨other, List.mem_cons_of_mem _ here, holds⟩
    · exact ⟨snapshot, List.mem_cons_self, held⟩

theorem replay_all_or_none {kept : List Snapshot}
    (each : ∀ snapshot ∈ kept, ∀ other ∈ find snapshot.dump key, other = found) :
    replay kept key = none ∨ replay kept key = some found := by
  cases held : replay kept key with
  | none => exact .inl rfl
  | some other =>
    obtain ⟨snapshot, here, holds⟩ := replay_some held
    rw [each snapshot here other holds]
    exact .inr rfl

theorem latest_before (before : n ≤ s.since) (early : ∀ found ∈ s.backedUp key, found.1 ≤ n) :
    latest (s.commits.take n) key = s.backedUp key := by
  have cut : s.commits.take n = (s.commits.take s.since).take n := by
    rw [List.take_take, Nat.min_eq_left before]
  rw [cut]
  exact latest_take early

/-- The last version of a key up to a snapshot that goes far enough is in it, unless it is too
old. -/
theorem Snapshot.Of.find_latest {snapshot : Snapshot} (holds : snapshot.Of s.commits)
    (before : snapshot.upTo ≤ s.since) (last : s.backedUp key = some found)
    (covered : found.1 ≤ snapshot.upTo) :
    find snapshot.dump key = if snapshot.since ≤ found.1 then some found else none := by
  have early : ∀ found ∈ s.backedUp key, found.1 ≤ snapshot.upTo := by
    rw [last]
    rintro _ ⟨⟩
    exact covered
  rw [holds.find_eq, latest_before before early, last]
  simp [Option.filter]

/-- The last version of a key is replayed iff one of the snapshots is about it. -/
theorem replay_iff (inv : Inv s) (last : s.backedUp key = some found) :
    replay s.kept key = some found ↔
      ∃ snapshot ∈ s.kept, snapshot.since ≤ found.1 ∧ found.1 ≤ snapshot.upTo := by
  constructor
  · intro held
    obtain ⟨snapshot, here, holds⟩ := replay_some held
    rw [(inv.each snapshot here).1.find_eq, Option.filter_eq_some_iff] at holds
    have bound := (latest_bounds holds.1).2
    rw [List.length_take] at bound
    exact ⟨snapshot, here, by simpa using holds.2, by omega⟩
  · rintro ⟨snapshot, here, from', upTo⟩
    obtain ⟨earlier, later, split⟩ := List.append_of_mem here
    have mem : ∀ other ∈ later, other ∈ s.kept := by
      intro other there
      rw [split]
      simp [there]
    have own : find snapshot.dump key = some found := by
      obtain ⟨holds, before⟩ := inv.each snapshot here
      rw [holds.find_latest before last upTo, if_pos from']
    have rest : replay later key = none ∨ replay later key = some found := by
      refine replay_all_or_none fun other there kv holds => ?_
      obtain ⟨of, before⟩ := inv.each other (mem other there)
      have apart := inv.apart
      rw [split, List.pairwise_append, List.pairwise_cons] at apart
      have after := apart.2.1.1 other there
      have ordered := of.ordered
      rw [of.find_latest before last (by omega)] at holds
      split at holds
      · cases holds
        rfl
      · cases holds
    rw [split, replay_append, replay_cons, own]
    rcases rest with rest | rest <;> rw [rest] <;> rfl

/-- Without a key there is nothing to replay. -/
theorem replay_none (inv : Inv s) (never : s.backedUp key = none) :
    replay s.kept key = none := by
  rw [Option.eq_none_iff_forall_ne_some]
  intro kv held
  obtain ⟨snapshot, here, holds⟩ := replay_some held
  obtain ⟨of, before⟩ := inv.each snapshot here
  rw [of.find_eq, latest_before before (by simp [never]), never] at holds
  cases holds

/-- Sinks never fail to close. -/
def Closes : Op Data → Prop
  | .apply _ => True
  | .persist _ closeFails => closeFails = false

/-- Then every version up to the last backup is in a snapshot. -/
theorem covered_run {ops : List (Op Data)} (closes : ∀ op ∈ ops, Closes op) (version : ℕ)
    (positive : 0 < version) (past : version ≤ (run json limits ops).since) :
    ∃ snapshot ∈ (run json limits ops).kept,
      snapshot.since ≤ version ∧ version ≤ snapshot.upTo := by
  induction ops using List.reverseRecOn with
  | nil =>
    simp only [run, List.foldl_nil] at past
    omega
  | append_singleton ops op ih =>
    simp only [List.forall_mem_append, List.forall_mem_singleton] at closes
    have ih := ih closes.1
    have closed := closes.2
    rw [run_concat] at past ⊢
    cases op with
    | apply entry => exact ih past
    | persist backupFails closeFails =>
      cases closed
      cases backupFails with
      | true => exact ih past
      | false =>
        by_cases old : version ≤ (run json limits ops).since
        · obtain ⟨snapshot, here, holds⟩ := ih old
          exact ⟨snapshot, List.mem_append_left _ here, holds⟩
        · refine ⟨_, List.mem_append_right _ List.mem_cons_self, ?_, past⟩
          exact Nat.le_of_lt (Nat.lt_of_not_le old)

theorem replay_eq_iff (inv : Inv s) (key : Bytes) :
    replay s.kept key = s.backedUp key ↔ ∀ found ∈ s.backedUp key,
      ∃ snapshot ∈ s.kept, snapshot.since ≤ found.1 ∧ found.1 ≤ snapshot.upTo := by
  cases last : s.backedUp key with
  | none => exact iff_of_true (replay_none inv last) (by simp)
  | some found =>
    rw [replay_iff inv last]
    simp

/-- The snapshots, loaded one after the other, give the last version of a key as of the last backup
iff one of them is about that version. -/
theorem snapshots_replay_iff (ops : List (Op Data)) (key : Bytes) :
    replay (run json limits ops).kept key = (run json limits ops).backedUp key ↔
      ∀ found ∈ (run json limits ops).backedUp key, ∃ snapshot ∈ (run json limits ops).kept,
        snapshot.since ≤ found.1 ∧ found.1 ≤ snapshot.upTo :=
  replay_eq_iff (inv_run json limits ops) key

/-- The entries that are applied, without the snapshots in between. -/
def entries (ops : List (Op Data)) : List Data :=
  ops.filterMap fun op => match op with
    | .apply entry => some entry
    | .persist _ _ => none

theorem commits_run (ops : List (Op Data)) :
    (run json limits ops).commits = (entries ops).filterMap (written json limits) := by
  induction ops using List.reverseRecOn with
  | nil => rfl
  | append_singleton ops op ih =>
    rw [run_concat, entries, List.filterMap_append, List.filterMap_append, ← entries, ← ih]
    cases op with
    | apply entry => cases made : written json limits entry <;> simp [State.step, made]
    | persist backupFails closeFails => cases backupFails <;> simp [State.step, State.persist]

/-- If no sink ever fails to close, the snapshots up to one that succeeds now give back the database
of the node. -/
theorem snapshots_restore_log (ops : List (Op Data)) (closes : ∀ op ∈ ops, Closes op)
    (key : Bytes) :
    (replay (run json limits (ops ++ [.persist false false])).kept key).map (·.2) =
      applyAll json limits (fun _ => none) (entries ops) key := by
  have closes' : ∀ op ∈ ops ++ [Op.persist false false], Closes op := by
    simp only [List.forall_mem_append, List.forall_mem_singleton]
    exact ⟨closes, rfl⟩
  have all : (run json limits (ops ++ [.persist false false])).backedUp key =
      latest (run json limits ops).commits key := by
    rw [run_concat, State.step, State.persist]
    simp only [Bool.false_eq_true, if_false, State.backedUp]
    rw [maxVersion_backup (inv_run json limits ops).past, List.take_length]
  have replayed : replay (run json limits (ops ++ [.persist false false])).kept key =
      (run json limits (ops ++ [.persist false false])).backedUp key := by
    refine (replay_eq_iff (inv_run json limits _) key).mpr fun found last => ?_
    obtain ⟨positive, past⟩ := latest_bounds last
    rw [List.length_take] at past
    exact covered_run json limits closes' found.1 positive (by omega)
  rw [replayed, all, commits_run, ← applyAll_latest]

theorem snapshots_restore_log_sample :
    (replay (run plainJSON unlimited ([.apply (setting "j" "u"), .apply (setting "k" "v"),
      .persist false false, .apply (setting "k" "w")] ++ [.persist false false])).kept
        (bytes "j")).map (·.2) = some (bytes "u") :=
  (snapshots_restore_log plainJSON unlimited [.apply (setting "j" "u"), .apply (setting "k" "v"),
      .persist false false, .apply (setting "k" "w")] (by simp [Closes]) (bytes "j")).trans
    (by decide)

/-- With a sink that failed to close the write is in no snapshot. -/
example : replay (run plainJSON unlimited [.apply (setting "j" "u"), .apply (setting "k" "v"),
    .persist false true, .apply (setting "k" "w"), .persist false false]).kept (bytes "j") =
      none := by
  decide

end KvReplica
