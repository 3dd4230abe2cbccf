import Mathlib.Data.Nat.Notation
import Mathlib.Data.List.Basic

/-!
# Slices and their backing arrays

A memory of backing arrays. A slice is a number of cells from the start of an array, or nil.
`append` writes behind the slice if the array has room, whoever else may use it, and otherwise
copies into a new array, of a size that is left open. The lemmas say what a slice holds afterwards
and which arrays are as before: all but the slice's own, and that one too if it is new.
-/

namespace GoSlices

universe u
variable {α : Type u}

/-- An array: the cells written so far and how many there can be. -/
structure Backing (α : Type u) where
  cells : List α
  cap : ℕ
  fits : cells.length ≤ cap

abbrev Memory (α : Type u) := List (Backing α)

structure Slice where
  array : ℕ
  len : ℕ

/-- The size of a new array, for the size of the old one and the cells that are needed. -/
structure Growth where
  cap : ℕ → ℕ → ℕ
  enough : ∀ old needed, needed ≤ cap old needed

def contents (mem : Memory α) (s : Option Slice) : List α :=
  match s with
  | none => []
  | some s => ((mem[s.array]?).map (·.cells.take s.len)).getD []

/-- Cells written from position `len` on, over what was there. -/
def Backing.write (b : Backing α) (len : ℕ) (xs : List α) (room : len + xs.length ≤ b.cap) :
    Backing α where
  cells := b.cells.take len ++ xs ++ b.cells.drop (len + xs.length)
  cap := b.cap
  fits := by
    have fits := b.fits
    simp only [List.length_append, List.length_take, List.length_drop]
    omega

def alloc (growth : Growth) (mem : Memory α) (old : ℕ) (cells : List α) :
    Option Slice × Memory α :=
  (some ⟨mem.length, cells.length⟩,
    mem ++ [⟨cells, growth.cap old cells.length, growth.enough old cells.length⟩])

def append (growth : Growth) (mem : Memory α) (s : Option Slice) (xs : List α) :
    Option Slice × Memory α :=
  if xs.isEmpty then (s, mem)
  else match s with
    | none => alloc growth mem 0 xs
    | some t =>
      match mem[t.array]? with
      | none => (s, mem)
      | some b =>
        if room : t.len + xs.length ≤ b.cap then
          (some ⟨t.array, t.len + xs.length⟩, mem.set t.array (b.write t.len xs room))
        else alloc growth mem b.cap (contents mem s ++ xs)

/-- The slice is nil or its cells are there. -/
def Valid (mem : Memory α) (s : Option Slice) : Prop :=
  ∀ t ∈ s, ∃ b, mem[t.array]? = some b ∧ t.len ≤ b.cells.length

/-- The slice is nil or in an array from `k` on. -/
def Since (k : ℕ) (s : Option Slice) : Prop := ∀ t ∈ s, k ≤ t.array

/-- The slice is nil or in an array below `k`. -/
def Below (k : ℕ) (s : Option Slice) : Prop := ∀ t ∈ s, t.array < k

/-- The arrays below `k` are the same. -/
def Agree (k : ℕ) (mem mem' : Memory α) : Prop := ∀ j < k, mem'[j]? = mem[j]?

variable {growth : Growth} {mem mem' mem'' : Memory α} {s : Option Slice} {xs : List α} {k : ℕ}

theorem Agree.refl (k : ℕ) (mem : Memory α) : Agree k mem mem := fun _ _ => rfl

theorem Agree.trans (first : Agree k mem mem') (second : Agree k mem' mem'') :
    Agree k mem mem'' :=
  fun j below => (second j below).trans (first j below)

theorem Agree.mono {j : ℕ} (agree : Agree k mem mem') (le : j ≤ k) : Agree j mem mem' :=
  fun i below => agree i (by omega)

theorem Agree.contents (agree : Agree k mem mem') (below : Below k s) :
    contents mem' s = GoSlices.contents mem s := by
  cases s with
  | none => rfl
  | some t => rw [GoSlices.contents, GoSlices.contents, agree t.array (below t rfl)]

theorem Agree.valid (agree : Agree k mem mem') (below : Below k s) (valid : Valid mem s) :
    Valid mem' s := by
  intro t here
  obtain ⟨b, found, inside⟩ := valid t here
  exact ⟨b, (agree t.array (below t here)).trans found, inside⟩

theorem Valid.below (valid : Valid mem s) : Below mem.length s := by
  intro t here
  obtain ⟨b, found, -⟩ := valid t here
  exact (List.getElem?_eq_some_iff.mp found).1

/-- What `append` does: the slice gets the elements, no array but its own changes, and if it is
not in its old array it is in a new one. -/
structure Appended (mem : Memory α) (s : Option Slice) (xs : List α)
    (result : Option Slice × Memory α) : Prop where
  valid : Valid result.2 result.1
  contents_eq : contents result.2 result.1 = contents mem s ++ xs
  grows : mem.length ≤ result.2.length
  others : ∀ j < mem.length, (∀ t ∈ s, t.array ≠ j) → result.2[j]? = mem[j]?
  array : ∀ t ∈ result.1, (∃ t' ∈ s, t.array = t'.array) ∨ mem.length ≤ t.array

theorem appended_alloc (growth : Growth) (old : ℕ) {cells : List α}
    (holds : cells = contents mem s ++ xs) : Appended mem s xs (alloc growth mem old cells) := by
  have stored : (alloc growth mem old cells).2[mem.length]? =
      some ⟨cells, growth.cap old cells.length, growth.enough old cells.length⟩ := by
    simp [alloc]
  constructor
  · rintro t ⟨⟩
    exact ⟨_, stored, Nat.le_refl _⟩
  · change ((alloc growth mem old cells).2[mem.length]?.map _).getD [] = _
    rw [stored, Option.map_some, Option.getD_some, List.take_length, holds]
  · simp [alloc]
  · intro j inside _
    exact List.getElem?_append_left inside
  · rintro t ⟨⟩
    exact .inr (Nat.le_refl _)

theorem appended_write {t : Slice} {b : Backing α} (found : mem[t.array]? = some b)
    (inside : t.len ≤ b.cells.length) (room : t.len + xs.length ≤ b.cap) :
    Appended mem (some t) xs
      (some ⟨t.array, t.len + xs.length⟩, mem.set t.array (b.write t.len xs room)) := by
  have bound : t.array < mem.length := (List.getElem?_eq_some_iff.mp found).1
  have stored : (mem.set t.array (b.write t.len xs room))[t.array]? =
      some (b.write t.len xs room) := by
    simp [bound]
  constructor
  · rintro t' ⟨⟩
    refine ⟨_, stored, ?_⟩
    simp only [Backing.write, List.length_append, List.length_take]
    omega
  · change ((mem.set t.array (b.write t.len xs room))[t.array]?.map _).getD [] = _
    rw [stored, contents, found]
    have cut : List.take (t.len + xs.length) (b.cells.take t.len) = b.cells.take t.len := by
      rw [List.take_take, Nat.min_eq_right (by omega)]
    simp [Backing.write, List.take_append, inside, cut]
  · simp
  · intro j _ other
    exact List.getElem?_set_ne (other t rfl)
  · rintro t' ⟨⟩
    exact .inl ⟨t, rfl, rfl⟩

theorem appended_append (growth : Growth) (valid : Valid mem s) (xs : List α) :
    Appended mem s xs (append growth mem s xs) := by
  unfold append
  cases xs with
  | nil =>
    rw [if_pos List.isEmpty_nil]
    exact ⟨valid, by simp, Nat.le_refl _, fun _ _ _ => rfl, fun t here => .inl ⟨t, here, rfl⟩⟩
  | cons x xs =>
    rw [if_neg (by simp)]
    cases s with
    | none => exact appended_alloc growth 0 rfl
    | some t =>
      obtain ⟨b, found, inside⟩ := valid t rfl
      dsimp only
      rw [found]
      dsimp only
      split
      · rename_i room
        exact appended_write found inside room
      · exact appended_alloc growth b.cap rfl

/-- A slice that is new since `k` stays so, and the arrays below `k` are not touched. -/
theorem Appended.since {result : Option Slice × Memory α} (appended : Appended mem s xs result)
    (since : Since k s) (bound : k ≤ mem.length) :
    Since k result.1 ∧ Agree k mem result.2 := by
  constructor
  · intro t here
    rcases appended.array t here with ⟨t', old, same⟩ | fresh
    · rw [same]
      exact since t' old
    · exact Nat.le_trans bound fresh
  · intro j below
    refine appended.others j (by omega) fun t here => ?_
    have from' := since t here
    omega

/-- A slice that is nil or in an array that `mem` does not have, in a later memory that has the
arrays of `mem` as they are. -/
structure Fresh (mem : Memory α) (result : Option Slice × Memory α) : Prop where
  valid : Valid result.2 result.1
  since : Since mem.length result.1
  agree : Agree mem.length mem result.2
  grows : mem.length ≤ result.2.length

variable {result : Option Slice × Memory α}

theorem fresh_nil (mem : Memory α) : Fresh mem (none, mem) :=
  ⟨nofun, nofun, Agree.refl _ mem, Nat.le_refl _⟩

theorem Fresh.append (fresh : Fresh mem result) (growth : Growth) (xs : List α) :
    Fresh mem (append growth result.2 result.1 xs) := by
  have appended := appended_append growth fresh.valid xs
  obtain ⟨since, agree⟩ := appended.since fresh.since fresh.grows
  exact ⟨appended.valid, since, fresh.agree.trans agree, Nat.le_trans fresh.grows appended.grows⟩

theorem Fresh.after (fresh : Fresh mem' result) (agree : Agree mem.length mem mem')
    (grows : mem.length ≤ mem'.length) : Fresh mem result where
  valid := fresh.valid
  since t here := Nat.le_trans grows (fresh.since t here)
  agree := agree.trans (fresh.agree.mono grows)
  grows := Nat.le_trans grows fresh.grows

end GoSlices
