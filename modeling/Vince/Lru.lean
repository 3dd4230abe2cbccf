import Mathlib.Data.List.Nodup

/-!
# The least recently used keys

The keys a cache of limited size should hold, the most recent one in front. Whoever uses a key
moves it to the front, and a new key takes the place of the last one once the cache is full.
-/

namespace Lru

universe u
variable {κ : Type u} [DecidableEq κ] {capacity : Nat} {keys : List κ} {key : κ}

/-! ## On lists of keys -/

def toFront (key : κ) (keys : List κ) : List κ := key :: keys.filter (· ≠ key)

/-- The keys after the use of one that need not be there. -/
def touch (key : κ) (keys : List κ) : List κ := if key ∈ keys then toFront key keys else keys

/-- What makes room for one more key. -/
def evict (capacity : Nat) (keys : List κ) : List κ :=
  if capacity ≤ keys.length then keys.dropLast else keys

def insert (capacity : Nat) (key : κ) (keys : List κ) : List κ :=
  if key ∈ keys then toFront key keys else key :: evict capacity keys

def remove (gone keys : List κ) : List κ := keys.filter (· ∉ gone)

theorem nodup_toFront (nodup : keys.Nodup) (key : κ) : (toFront key keys).Nodup := by
  refine List.nodup_cons.mpr ⟨?_, nodup.filter _⟩
  intro mem
  simpa using (List.mem_filter.mp mem).2

theorem length_toFront (mem : key ∈ keys) : (toFront key keys).length ≤ keys.length := by
  have shorter : (keys.filter (· ≠ key)).length < keys.length :=
    List.length_filter_lt_length_iff_exists.mpr ⟨key, mem, by simp⟩
  exact shorter

omit [DecidableEq κ] in
theorem evict_sublist (capacity : Nat) (keys : List κ) : (evict capacity keys).Sublist keys := by
  unfold evict
  split
  · exact List.dropLast_sublist _
  · exact List.Sublist.refl _

omit [DecidableEq κ] in
theorem length_evict (room : 0 < capacity) (bounded : keys.length ≤ capacity) :
    (evict capacity keys).length < capacity := by
  unfold evict
  split
  · rw [List.length_dropLast]
    omega
  · omega

theorem remove_nil (keys : List κ) : remove [] keys = keys := by
  simp [remove]

theorem remove_cons (key : κ) (gone keys : List κ) :
    remove (key :: gone) keys = remove gone (keys.filter (· ≠ key)) := by
  rw [remove, remove, List.filter_filter]
  refine List.filter_congr fun k _ => ?_
  simp [Bool.and_comm]

theorem filter_ne_last {first : List κ} (nodup : (first ++ [key]).Nodup) :
    (first ++ [key]).filter (· ≠ key) = first := by
  have absent : key ∉ first := fun mem =>
    (List.nodup_append.mp nodup).2.2 key mem key (List.mem_singleton_self key) rfl
  rw [List.filter_append, List.filter_eq_self.mpr]
  · simp
  · intro k mem
    have other : k ≠ key := fun same => absent (same ▸ mem)
    simpa using other

/-! ## The cache -/

/-- The keys held, which are never more than fit. -/
structure Recency (κ : Type u) (capacity : Nat) where
  keys : List κ
  nodup : keys.Nodup
  bounded : keys.length ≤ capacity

def Recency.empty (κ : Type u) (capacity : Nat) : Recency κ capacity :=
  ⟨[], List.nodup_nil, Nat.zero_le _⟩

def Recency.touch (r : Recency κ capacity) (key : κ) : Recency κ capacity where
  keys := Lru.touch key r.keys
  nodup := by
    unfold Lru.touch
    split
    · exact nodup_toFront r.nodup key
    · exact r.nodup
  bounded := by
    unfold Lru.touch
    split
    · exact Nat.le_trans (length_toFront ‹_›) r.bounded
    · exact r.bounded

def Recency.insert (r : Recency κ capacity) (room : 0 < capacity) (key : κ) :
    Recency κ capacity where
  keys := Lru.insert capacity key r.keys
  nodup := by
    have sublist := evict_sublist capacity r.keys
    unfold Lru.insert
    split
    · exact nodup_toFront r.nodup key
    · next absent =>
      exact List.nodup_cons.mpr ⟨fun kept => absent (sublist.subset kept), r.nodup.sublist sublist⟩
  bounded := by
    unfold Lru.insert
    split
    · exact Nat.le_trans (length_toFront ‹_›) r.bounded
    · exact length_evict room r.bounded

def Recency.remove (r : Recency κ capacity) (gone : List κ) : Recency κ capacity :=
  ⟨Lru.remove gone r.keys, r.nodup.filter _, Nat.le_trans (List.length_filter_le _ _) r.bounded⟩

end Lru
