import Mathlib.Data.List.Lex
import Mathlib.Data.List.Pairwise
import Mathlib.Order.Bounds.Basic

/-!
# Finite maps with ordered keys

The entries are kept in the order of their keys, which is the order in which an iterator visits
them, forward or backward from a key.
-/

universe u v

structure OrderedMap (κ : Type u) (ν : Type v) [LinearOrder κ] where
  entries : List (κ × ν)
  sorted : entries.Pairwise fun first second => first.1 < second.1

namespace OrderedMap

variable {κ : Type u} {ν : Type v} [LinearOrder κ]

def empty : OrderedMap κ ν := ⟨[], .nil⟩

def get (m : OrderedMap κ ν) (k : κ) : Option ν := m.entries.lookup k

def insertEntry (k : κ) (x : ν) : List (κ × ν) → List (κ × ν)
  | [] => [(k, x)]
  | e :: rest =>
    if k < e.1 then (k, x) :: e :: rest
    else if k = e.1 then (k, x) :: rest
    else e :: insertEntry k x rest

theorem mem_insertEntry {k j : κ} {x y : ν} {entries : List (κ × ν)}
    (sorted : entries.Pairwise fun first second => first.1 < second.1) :
    (j, y) ∈ insertEntry k x entries ↔ j = k ∧ y = x ∨ j ≠ k ∧ (j, y) ∈ entries := by
  induction entries with
  | nil =>
    simp only [insertEntry, List.mem_singleton, Prod.mk.injEq, List.not_mem_nil, and_false,
      or_false]
  | cons e rest ih =>
    obtain ⟨above, sorted⟩ := List.pairwise_cons.mp sorted
    rw [insertEntry]
    split
    · rename_i below
      have absent : (j, y) ∈ e :: rest → j ≠ k := by
        rintro member rfl
        rcases List.mem_cons.mp member with rfl | member
        · exact lt_irrefl _ below
        · exact lt_irrefl _ (below.trans (above _ member))
      rw [List.mem_cons, Prod.mk.injEq]
      exact or_congr_right ⟨fun member => ⟨absent member, member⟩, And.right⟩
    · split
      · rename_i notBelow same
        have absent : (j, y) ∈ rest → j ≠ k := by
          rintro member rfl
          exact lt_irrefl _ (same ▸ above _ member)
        rw [List.mem_cons, Prod.mk.injEq, List.mem_cons]
        constructor
        · rintro (new | member)
          · exact Or.inl new
          · exact Or.inr ⟨absent member, Or.inr member⟩
        · rintro (new | ⟨other, rfl | member⟩)
          · exact Or.inl new
          · exact absurd same.symm other
          · exact Or.inr member
      · rename_i notBelow other
        rw [List.mem_cons, ih sorted, List.mem_cons]
        constructor
        · rintro (rfl | new | ⟨differs, member⟩)
          · exact Or.inr ⟨Ne.symm other, Or.inl rfl⟩
          · exact Or.inl new
          · exact Or.inr ⟨differs, Or.inr member⟩
        · rintro (new | ⟨differs, rfl | member⟩)
          · exact Or.inr (Or.inl new)
          · exact Or.inl rfl
          · exact Or.inr (Or.inr ⟨differs, member⟩)

theorem insertEntry_sorted (k : κ) (x : ν) {entries : List (κ × ν)}
    (sorted : entries.Pairwise fun first second => first.1 < second.1) :
    (insertEntry k x entries).Pairwise fun first second => first.1 < second.1 := by
  induction entries with
  | nil => exact List.pairwise_singleton _ _
  | cons e rest ih =>
    obtain ⟨above, tail⟩ := List.pairwise_cons.mp sorted
    rw [insertEntry]
    split
    · rename_i below
      refine List.pairwise_cons.mpr ⟨fun f member => ?_, sorted⟩
      rcases List.mem_cons.mp member with rfl | member
      · exact below
      · exact below.trans (above f member)
    · split
      · rename_i notBelow same
        refine List.pairwise_cons.mpr ⟨fun f member => ?_, tail⟩
        exact same ▸ above f member
      · rename_i notBelow other
        refine List.pairwise_cons.mpr ⟨fun f member => ?_, ih tail⟩
        rcases (mem_insertEntry tail).mp member with ⟨key, -⟩ | ⟨-, member⟩
        · exact key ▸ lt_of_le_of_ne (not_lt.mp notBelow) (Ne.symm other)
        · exact above f member

def set (m : OrderedMap κ ν) (k : κ) (x : ν) : OrderedMap κ ν :=
  ⟨insertEntry k x m.entries, insertEntry_sorted k x m.sorted⟩

def delete (m : OrderedMap κ ν) (k : κ) : OrderedMap κ ν :=
  ⟨m.entries.filter (·.1 ≠ k), m.sorted.filter _⟩

/-- What an iterator visits from a key on. -/
def seek (m : OrderedMap κ ν) (k : κ) : List (κ × ν) := m.entries.filter (k ≤ ·.1)

/-- What a reverse iterator visits from a key on. -/
def seekBack (m : OrderedMap κ ν) (k : κ) : List (κ × ν) := (m.entries.filter (·.1 ≤ k)).reverse

/-! ## Looking up -/

theorem get_eq_some_iff (m : OrderedMap κ ν) {k : κ} {x : ν} :
    m.get k = some x ↔ (k, x) ∈ m.entries := by
  obtain ⟨entries, sorted⟩ := m
  simp only [get]
  induction entries with
  | nil => simp
  | cons e rest ih =>
    obtain ⟨above, tail⟩ := List.pairwise_cons.mp sorted
    obtain ⟨key, y⟩ := e
    by_cases same : k = key
    · subst same
      have absent : (k, x) ∉ rest := fun member => lt_irrefl k (above (k, x) member)
      simp [absent, eq_comm]
    · rw [List.lookup_cons, beq_eq_false_iff_ne.mpr same, List.mem_cons, Prod.mk.injEq]
      simp [same, ih tail]

theorem get_empty (k : κ) : (empty : OrderedMap κ ν).get k = none := rfl

theorem get_set (m : OrderedMap κ ν) (k j : κ) (x : ν) :
    (m.set k x).get j = if j = k then some x else m.get j := by
  apply Option.ext
  intro y
  rw [get_eq_some_iff, set, mem_insertEntry m.sorted]
  split
  · rename_i same
    simp [same, eq_comm]
  · rename_i other
    simp [other, get_eq_some_iff]

theorem get_delete (m : OrderedMap κ ν) (k j : κ) :
    (m.delete k).get j = if j = k then none else m.get j := by
  apply Option.ext
  intro y
  rw [get_eq_some_iff, delete, List.mem_filter]
  split
  · rename_i same
    simp [same]
  · rename_i other
    simp [other, get_eq_some_iff]

theorem get_deleteAll (keys : List κ) (m : OrderedMap κ ν) (j : κ) :
    (keys.foldl delete m).get j = if j ∈ keys then none else m.get j := by
  induction keys generalizing m with
  | nil => simp
  | cons k keys ih =>
    rw [List.foldl_cons, ih, get_delete]
    by_cases member : j ∈ keys
    · simp [member]
    · simp [member]

/-! ## Iterating -/

theorem mem_seek (m : OrderedMap κ ν) {k j : κ} {x : ν} :
    (j, x) ∈ m.seek k ↔ k ≤ j ∧ m.get j = some x := by
  rw [seek, List.mem_filter, get_eq_some_iff, decide_eq_true_eq, and_comm]

theorem seek_sorted (m : OrderedMap κ ν) (k : κ) :
    (m.seek k).Pairwise fun first second => first.1 < second.1 :=
  m.sorted.filter _

theorem mem_seekBack (m : OrderedMap κ ν) {k j : κ} {x : ν} :
    (j, x) ∈ m.seekBack k ↔ j ≤ k ∧ m.get j = some x := by
  rw [seekBack, List.mem_reverse, List.mem_filter, get_eq_some_iff, decide_eq_true_eq, and_comm]

theorem seekBack_sorted (m : OrderedMap κ ν) (k : κ) :
    (m.seekBack k).Pairwise fun first second => second.1 < first.1 :=
  List.pairwise_reverse.mpr (m.sorted.filter _)

theorem seek_head (m : OrderedMap κ ν) {k j i : κ} {x y : ν} {rest : List (κ × ν)}
    (visited : m.seek k = (j, x) :: rest) (above : k ≤ i) (bound : m.get i = some y) :
    k ≤ j ∧ j ≤ i := by
  have sorted := m.seek_sorted k
  have first : (j, x) ∈ m.seek k := visited ▸ List.mem_cons_self
  have member : (i, y) ∈ m.seek k := m.mem_seek.mpr ⟨above, bound⟩
  rw [visited] at sorted member
  refine ⟨(m.mem_seek.mp first).1, ?_⟩
  rcases List.mem_cons.mp member with same | later
  · exact (congrArg Prod.fst same).ge
  · exact ((List.pairwise_cons.mp sorted).1 _ later).le

theorem seekBack_head (m : OrderedMap κ ν) {k j i : κ} {x y : ν} {rest : List (κ × ν)}
    (visited : m.seekBack k = (j, x) :: rest) (below : i ≤ k) (bound : m.get i = some y) :
    i ≤ j ∧ j ≤ k := by
  have sorted := m.seekBack_sorted k
  have first : (j, x) ∈ m.seekBack k := visited ▸ List.mem_cons_self
  have member : (i, y) ∈ m.seekBack k := m.mem_seekBack.mpr ⟨below, bound⟩
  rw [visited] at sorted member
  refine ⟨?_, (m.mem_seekBack.mp first).1⟩
  rcases List.mem_cons.mp member with same | later
  · exact (congrArg Prod.fst same).le
  · exact ((List.pairwise_cons.mp sorted).1 _ later).le

/-- Keys that begin alike stand together. -/
theorem isPrefix_of_between {α : Type u} [LinearOrder α] {p a k c : List α} (low : a ≤ k)
    (high : k ≤ c) (first : p <+: a) (last : p <+: c) : p <+: k := by
  rw [← not_lt] at low high
  induction p generalizing a k c with
  | nil => exact List.nil_prefix
  | cons x p ih =>
    obtain ⟨a, rfl⟩ := first
    obtain ⟨c, rfl⟩ := last
    cases k with
    | nil => exact absurd (List.nil_lt_cons _ _) low
    | cons y k =>
      simp only [List.cons_append, List.cons_lt_cons_iff, not_or, not_and] at low high
      obtain rfl : x = y := le_antisymm (not_lt.mp low.1) (not_lt.mp high.1)
      have rest := ih (low.2 rfl) (high.2 rfl) ⟨a, rfl⟩ ⟨c, rfl⟩
      exact (List.prefix_cons_inj x).mpr rest

end OrderedMap
