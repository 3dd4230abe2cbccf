import Vince.RaftLog

/-!
# `FirstIndex` and `LastIndex` of the raft log

`FirstIndex` returns one more than the index it finds and remembers that for good. What it says
depends on the history of the store through `FirstSeen` alone.
-/

namespace RaftStore

section Runs

variable {json : LogJSON} {s : Store} {m : Entries}

/-- The least index at the first `FirstIndex` that finds an entry. -/
inductive FirstSeen : Entries → List Op → Index → Prop
  | here {m : Entries} {ops : List Op} {k : Index} :
      IsLeast m.stored k → FirstSeen m (.firstIndex :: ops) k
  | skip {m : Entries} {ops : List Op} {k : Index} :
      m.stored = ∅ → FirstSeen m ops k → FirstSeen m (.firstIndex :: ops) k
  | later {m : Entries} {op : Op} {ops : List Op} {k : Index} :
      op ≠ .firstIndex → FirstSeen (m.after op) ops k → FirstSeen m (op :: ops) k

theorem firstSeen_firstIndex_iff {ops : List Op} {k : Index} :
    FirstSeen m (.firstIndex :: ops) k ↔
      IsLeast m.stored k ∨ m.stored = ∅ ∧ FirstSeen m ops k := by
  constructor
  · intro seen
    cases seen with
    | here least => exact Or.inl least
    | skip none_stored seen => exact Or.inr ⟨none_stored, seen⟩
    | later other => exact absurd rfl other
  · rintro (least | ⟨none_stored, seen⟩)
    · exact .here least
    · exact .skip none_stored seen

theorem firstSeen_other_iff {op : Op} (other : op ≠ .firstIndex) {ops : List Op} {k : Index} :
    FirstSeen m (op :: ops) k ↔ FirstSeen (m.after op) ops k := by
  constructor
  · intro seen
    cases seen with
    | here => exact absurd rfl other
    | skip => exact absurd rfl other
    | later _ seen => exact seen
  · exact .later other

/-- A remembered first index is never forgotten. -/
theorem run_cache_of_some (held : Holds json s.db m) {v : Index} (cached : s.cache = some v)
    {ops : List Op} {s' : Store} (ran : run json s ops = some s') : s'.cache = some v := by
  induction ops generalizing s m with
  | nil =>
    cases ran
    exact cached
  | cons op ops ih =>
    obtain ⟨t, stepped, held_t, -, kept⟩ := held.step op
    rw [run, List.foldlM_cons, stepped] at ran
    refine ih held_t ?_ ran
    by_cases first : op = .firstIndex
    · subst first
      rcases held.firstIndex_cases with ⟨w, -, result⟩ | ⟨none_cached, -⟩ | ⟨none_cached, -⟩
      · rw [Op.step, result, Option.map_some, Option.some_inj] at stepped
        rw [← stepped, cached]
      · rw [cached] at none_cached
        cases none_cached
      · rw [cached] at none_cached
        cases none_cached
    · rw [kept first, cached]

/-- What is remembered is the successor of the first index seen. -/
theorem run_cache_of_none (held : Holds json s.db m) (fresh : s.cache = none)
    {ops : List Op} {s' : Store} (ran : run json s ops = some s') (v : Index) :
    s'.cache = some v ↔ ∃ k, FirstSeen m ops k ∧ v = k + 1 := by
  induction ops generalizing s m with
  | nil =>
    cases ran
    rw [fresh]
    constructor
    · intro same
      cases same
    · rintro ⟨k, seen, -⟩
      cases seen
  | cons op ops ih =>
    obtain ⟨t, stepped, held_t, -, kept⟩ := held.step op
    rw [run, List.foldlM_cons, stepped] at ran
    by_cases first : op = .firstIndex
    · subst first
      rcases held.firstIndex_cases with ⟨w, cached, -⟩ | ⟨-, none_stored, result⟩ |
        ⟨-, i, least, result⟩
      · rw [fresh] at cached
        cases cached
      · rw [Op.step, result, Option.map_some, Option.some_inj] at stepped
        subst stepped
        rw [ih held_t fresh ran]
        apply exists_congr
        intro k
        have no_least : ¬ IsLeast m.stored k :=
          fun least => Set.notMem_empty k (none_stored ▸ least.1)
        rw [firstSeen_firstIndex_iff, or_iff_right no_least, and_iff_right none_stored]
        rfl
      · rw [Op.step, result, Option.map_some, Option.some_inj] at stepped
        have cached : t.cache = some (i + 1) := by rw [← stepped]
        rw [run_cache_of_some held_t cached ran, Option.some_inj]
        constructor
        · rintro rfl
          exact ⟨i, .here least, rfl⟩
        · rintro ⟨k, seen, rfl⟩
          rcases firstSeen_firstIndex_iff.mp seen with least_k | ⟨none_stored, -⟩
          · rw [least.unique least_k]
          · exact absurd least.1 (none_stored ▸ Set.notMem_empty i)
    · rw [ih held_t ((kept first).trans fresh) ran]
      simp only [firstSeen_other_iff first]

theorem Holds.lastIndex_iff (held : Holds json s.db m) :
    ∃ r, s.lastIndex = some r ∧ (ReturnsEnd m IsGreatest r ↔ m.stored.Nonempty) := by
  rcases held.seekEntry_last with ⟨none_stored, result⟩ | ⟨i, greatest, result⟩
  · refine ⟨_, result, ?_⟩
    constructor
    · rintro ⟨no_error, -⟩
      cases no_error
    · intro stored
      exact absurd none_stored stored.ne_empty
  · refine ⟨_, result, ?_⟩
    constructor
    · intro _
      exact ⟨i, greatest.1⟩
    · intro _
      exact ⟨rfl, Or.inl greatest⟩

theorem index_ne_succ (i : Index) : i ≠ i + 1 := by
  intro same
  have bound := i.isLt
  have values : i.val = (i.val + 1) % 2 ^ 64 := congrArg Fin.val same
  omega

theorem Holds.firstIndex_iff (held : Holds json s.db m) :
    ∃ r t, s.firstIndex = some (r, t) ∧ (ReturnsEnd m IsLeast r ↔
      ∃ v, s.cache = some v ∧ (IsLeast m.stored v ∨ m.stored = ∅ ∧ v = 0)) := by
  rcases held.firstIndex_cases with ⟨v, cached, result⟩ | ⟨fresh, none_stored, result⟩ |
    ⟨fresh, i, least, result⟩
  · refine ⟨_, _, result, ?_⟩
    rw [cached]
    constructor
    · rintro ⟨-, right⟩
      exact ⟨v, rfl, right⟩
    · rintro ⟨w, same, right⟩
      cases same
      exact ⟨rfl, right⟩
  · refine ⟨_, _, result, ?_⟩
    constructor
    · rintro ⟨no_error, -⟩
      cases no_error
    · rintro ⟨w, same, -⟩
      rw [fresh] at same
      cases same
  · refine ⟨_, _, result, ?_⟩
    constructor
    · rintro ⟨-, least' | ⟨none_stored, -⟩⟩
      · exact absurd (least.unique least') (index_ne_succ i)
      · exact absurd least.1 (none_stored ▸ Set.notMem_empty i)
    · rintro ⟨w, same, -⟩
      rw [fresh] at same
      cases same

/-- The store is right about its first index iff that is by now the successor of the first index
it ever reported, and about its last index iff it has one. -/
theorem firstIndex_lastIndex_right_iff (json : LogJSON) (ops : List Op) :
    ∃ s first t last, run json Store.empty ops = some s ∧ s.firstIndex = some (first, t) ∧
      s.lastIndex = some last ∧
      (ReturnsEnd (entriesAfter (fun _ => none) ops) IsLeast first ↔
        ∃ k, FirstSeen (fun _ => none) ops k ∧
          (IsLeast (entriesAfter (fun _ => none) ops).stored (k + 1) ∨
            (entriesAfter (fun _ => none) ops).stored = ∅ ∧ k + 1 = 0)) ∧
      (ReturnsEnd (entriesAfter (fun _ => none) ops) IsGreatest last ↔
        (entriesAfter (fun _ => none) ops).stored.Nonempty) := by
  have held : Holds json Store.empty.db fun _ => none := holds_empty
  obtain ⟨s, ran, held_s⟩ := held.run ops
  obtain ⟨first, t, called, first_iff⟩ := held_s.firstIndex_iff
  obtain ⟨last, called_last, last_iff⟩ := held_s.lastIndex_iff
  refine ⟨s, first, t, last, ran, called, called_last, ?_, last_iff⟩
  rw [first_iff]
  simp only [run_cache_of_none held rfl ran]
  constructor
  · rintro ⟨v, ⟨k, seen, rfl⟩, right⟩
    exact ⟨k, seen, right⟩
  · rintro ⟨k, seen, right⟩
    exact ⟨k + 1, ⟨k, seen, rfl⟩, right⟩

/-- The index of the only entry is 1, and the store says 2. -/
theorem firstIndex_after_one :
    ∃ s, run packed .empty [.storeLog ⟨1, 1, 0, [], []⟩] = some s ∧
      s.firstIndex.map Prod.fst = some (2, none) ∧
      ¬ ReturnsEnd (entriesAfter (fun _ => none) [.storeLog ⟨1, 1, 0, [], []⟩]) IsLeast
        (2, none) ∧
      Store.empty.lastIndex = some (0, some .logNotFound) := by
  refine ⟨_, rfl, by decide +kernel, ?_, rfl⟩
  rintro ⟨-, least | ⟨none_stored, -⟩⟩
  · exact least.1 rfl
  · have stored : (1 : Index) ∈ (entriesAfter (fun _ => none)
        [.storeLog ⟨1, 1, 0, [], []⟩]).stored := nofun
    exact Set.notMem_empty 1 (none_stored ▸ stored)

end Runs

end RaftStore
