import Mathlib.Data.List.Basic
import Mathlib.Data.List.Induction

/-!
# Loops over elements with keys

The elements of a list have keys, and some of them write to a field. What the field holds after the
loop need not depend on the elements of one key alone; it does in every order that keeps the
elements of each key in theirs iff the last write of every key is the one of that key.
-/

namespace KeyedWrites

variable {σ α β γ κ : Type}

/-- A loop whose steps may combine what they write with what the field holds. -/
theorem foldl_combine (field : σ → γ) {step : σ → α → σ} {write : α → Option β}
    {combine : γ → β → γ}
    (sets : ∀ s a, field (step s a) = ((write a).map (combine (field s))).getD (field s))
    (l : List α) (s : σ) :
    field (l.foldl step s) = (l.filterMap write).foldl combine (field s) := by
  induction l generalizing s with
  | nil => rfl
  | cons a l ih =>
    rw [List.foldl_cons, ih, sets s a]
    cases write : write a with
    | none => rw [List.filterMap_cons_none write, Option.map_none, Option.getD_none]
    | some b =>
      rw [List.filterMap_cons_some write, Option.map_some, Option.getD_some, List.foldl_cons]

def lastWrite (write : α → Option β) (l : List α) : Option β := (l.filterMap write).getLast?

theorem lastWrite_append (write : α → Option β) (l l' : List α) :
    lastWrite write (l ++ l') = (lastWrite write l').or (lastWrite write l) := by
  rw [lastWrite, List.filterMap_append, List.getLast?_append]
  rfl

theorem lastWrite_singleton (write : α → Option β) (a : α) : lastWrite write [a] = write a := by
  rw [lastWrite]
  cases written : write a with
  | none => rw [List.filterMap_cons_none written]; rfl
  | some b => rw [List.filterMap_cons_some written]; rfl

theorem lastWrite_eq_none_iff {write : α → Option β} {l : List α} :
    lastWrite write l = none ↔ ∀ a ∈ l, write a = none := by
  rw [lastWrite, List.getLast?_eq_none_iff, List.filterMap_eq_nil_iff]

/-- Without a combination only the last write counts. -/
theorem foldl_last (f : β → γ) (l : List β) (start : γ) :
    l.foldl (fun _ b => f b) start = (l.getLast?.map f).getD start := by
  induction l using List.reverseRecOn with
  | nil => rfl
  | append_singleton l b _ =>
    rw [List.foldl_append, List.getLast?_concat]
    rfl

/-- What is left of writes that are appended to each other. -/
def appended (write : α → Option (List β)) (l : List α) : Option (List β) :=
  if (l.filterMap write).isEmpty then none else some (l.filterMap write).flatten

theorem appended_eq_none_iff {write : α → Option (List β)} {l : List α} :
    appended write l = none ↔ ∀ a ∈ l, write a = none := by
  rw [appended, ← List.filterMap_eq_nil_iff]
  cases l.filterMap write with
  | nil => simp
  | cons b rest => simp

theorem appended_concat {write : α → Option (List β)} {a : α} {b : List β}
    (written : write a = some b) (l : List α) :
    appended write (l ++ [a]) = some ((l.filterMap write).flatten ++ b) := by
  rw [appended, List.filterMap_append, List.filterMap_cons_some written, List.filterMap_nil]
  simp

theorem flatten_filterMap_eq_nil_iff {write : α → Option (List β)} {l : List α} :
    (l.filterMap write).flatten = [] ↔ ∀ a ∈ l, write a = none ∨ write a = some [] := by
  rw [List.flatten_eq_nil_iff]
  constructor
  · intro empty a member
    cases wrote : write a with
    | none => exact .inl rfl
    | some b =>
      rw [empty b (List.mem_filterMap.mpr ⟨a, member, wrote⟩)]
      exact .inr rfl
  · intro silent b member
    obtain ⟨a, inside, wrote⟩ := List.mem_filterMap.mp member
    rcases silent a inside with none | empty
    · rw [none] at wrote
      cases wrote
    · rw [empty] at wrote
      exact (Option.some.inj wrote).symm

section Keys

variable [DecidableEq κ]

/-- The elements with a key, in their order. -/
def ofKey (key : α → κ) (k : κ) (l : List α) : List α := l.filter (key · = k)

/-- What the last element with a key writes. -/
def lastOf (key : α → κ) (write : α → Option β) (k : κ) (l : List α) : Option β :=
  (ofKey key k l).getLast?.bind write

/-- The elements in another order, in which those with the same key are in the same one. -/
def Rearranges (key : α → κ) (l' l : List α) : Prop := ∀ k, ofKey key k l' = ofKey key k l

variable {key : α → κ} {write : α → Option β} {k : κ} {l l' : List α}

theorem mem_ofKey {a : α} : a ∈ ofKey key k l ↔ a ∈ l ∧ key a = k := by
  rw [ofKey, List.mem_filter, decide_eq_true_iff]

theorem Rearranges.refl (l : List α) : Rearranges key l l := fun _ => rfl

theorem Rearranges.mem_iff (rearranges : Rearranges key l' l) {a : α} : a ∈ l' ↔ a ∈ l := by
  have same : a ∈ ofKey key (key a) l' ↔ a ∈ ofKey key (key a) l := by rw [rearranges]
  simpa [mem_ofKey] using same

/-- The elements of one key may be put last. -/
theorem rearranges_last (key : α → κ) (j : κ) (l : List α) :
    Rearranges key (l.filter (key · ≠ j) ++ ofKey key j l) l := by
  intro k
  rw [ofKey, ofKey, ofKey, List.filter_append, List.filter_filter, List.filter_filter]
  by_cases same : k = j
  · subst same
    simp
  · have other : ∀ a, (decide (key a = k) && decide (key a ≠ j)) = decide (key a = k) := by
      intro a
      by_cases named : key a = k
      · simp [named, same]
      · simp [named]
    have none : l.filter (fun a => decide (key a = k) && decide (key a = j)) = [] := by
      refine List.filter_eq_nil_iff.mpr fun a _ => ?_
      by_cases named : key a = k
      · simp [named, same]
      · simp [named]
    rw [none, List.append_nil]
    simp only [other]

/-- The last write of all is the last one among the elements of some key. -/
theorem exists_lastWrite_ofKey (key : α → κ) {b : β} (last : lastWrite write l = some b) :
    ∃ j, lastWrite write (ofKey key j l) = some b := by
  induction l using List.reverseRecOn with
  | nil => cases last
  | append_singleton l a ih =>
    rw [lastWrite_append, lastWrite_singleton] at last
    cases written : write a with
    | some c =>
      refine ⟨key a, ?_⟩
      rw [ofKey, List.filter_append, List.filter_cons_of_pos (by simp), List.filter_nil,
        lastWrite_append, lastWrite_singleton]
      rw [written] at last ⊢
      exact last
    | none =>
      rw [written] at last
      obtain ⟨j, lastOfKey⟩ := ih last
      refine ⟨j, ?_⟩
      rw [ofKey, List.filter_append, lastWrite_append]
      have silent : lastWrite write ([a].filter (key · = j)) = none := by
        refine lastWrite_eq_none_iff.mpr fun c member => ?_
        rw [List.mem_singleton.mp (List.mem_filter.mp member).1]
        exact written
      rw [silent]
      exact lastOfKey

theorem exists_of_lastOf {b : β} (last : lastOf key write k l = some b) :
    ∃ a ∈ ofKey key k l, write a = some b := by
  obtain ⟨a, getLast, written⟩ := Option.bind_eq_some_iff.mp last
  exact ⟨a, List.mem_of_getLast? getLast, written⟩

theorem lastWrite_of_lastOf {b : β} (last : lastOf key write k l = some b) :
    lastWrite write (ofKey key k l) = some b := by
  obtain ⟨a, getLast, written⟩ := Option.bind_eq_some_iff.mp last
  obtain ⟨before, concat⟩ := List.getLast?_eq_some_iff.mp getLast
  rw [concat, lastWrite_append, lastWrite_singleton, written]
  rfl

/-- In every order the last write is the one of the last element with the key `k`, iff no key has a
last write that is another. -/
theorem lastWrite_rearranged_iff :
    (∀ l', Rearranges key l' l → lastWrite write l' = lastOf key write k l) ↔
      ∀ j b, lastWrite write (ofKey key j l) = some b → lastOf key write k l = some b := by
  constructor
  · intro determined j b last
    rw [← determined _ (rearranges_last key j l), lastWrite_append, last]
    rfl
  · intro agree l' rearranges
    cases last : lastWrite write l' with
    | some b =>
      obtain ⟨j, lastOfKey⟩ := exists_lastWrite_ofKey key last
      rw [rearranges j] at lastOfKey
      exact (agree j b lastOfKey).symm
    | none =>
      cases own : lastOf key write k l with
      | none => rfl
      | some b =>
        obtain ⟨a, member, written⟩ := exists_of_lastOf own
        have inside := rearranges.mem_iff.mpr (mem_ofKey.mp member).1
        rw [lastWrite_eq_none_iff.mp last a inside] at written
        cases written

/-- Among the elements of one key the last write is by the last element iff that one writes, or
none does. -/
theorem lastWrite_ofKey_iff :
    (∀ b, lastWrite write (ofKey key k l) = some b → lastOf key write k l = some b) ↔
      ∀ a ∈ ofKey key k l, (write a).isSome → (lastOf key write k l).isSome := by
  rw [lastOf]
  cases List.eq_nil_or_concat (ofKey key k l) with
  | inl empty =>
    rw [empty]
    simp [lastWrite]
  | inr concat =>
    obtain ⟨before, a, concat⟩ := concat
    rw [concat, List.concat_eq_append, List.getLast?_concat, Option.bind_some]
    constructor
    · intro agree c member writes
      cases last : lastWrite write (before ++ [a]) with
      | some b =>
        rw [agree b last]
        rfl
      | none =>
        rw [lastWrite_eq_none_iff.mp last c member] at writes
        cases writes
    · intro writes b last
      rw [lastWrite_append, lastWrite_singleton] at last
      cases written : write a with
      | some c =>
        rw [written] at last
        exact last
      | none =>
        rw [written, Option.none_or] at last
        obtain ⟨c, member, wrote⟩ := List.mem_filterMap.mp (List.mem_of_getLast? last)
        have := writes c (List.mem_append_left _ member) (Option.isSome_of_eq_some wrote)
        rw [written] at this
        cases this

/-- A field that only one key writes to does not depend on the order. -/
theorem filterMap_ofKey (own : ∀ a ∈ l, (write a).isSome → key a = k) :
    l.filterMap write = (ofKey key k l).filterMap write := by
  rw [ofKey, List.filterMap_filter]
  refine List.filterMap_congr fun a member => ?_
  by_cases named : key a = k
  · simp [named]
  · have silent : write a = none := by
      by_contra writes
      exact named (own a member (Option.isSome_iff_ne_none.mpr writes))
    simp [silent]

/-- Where writes are appended, and all are by elements with the key `k`, the last of these elements
has to be the only one that has something to write. -/
theorem appended_rearranged_iff {write : α → Option (List β)}
    (own : ∀ a, (write a).isSome → key a = k) :
    (∀ l', Rearranges key l' l → appended write l' = lastOf key write k l) ↔
      (∀ a ∈ (ofKey key k l).dropLast, write a = none ∨ write a = some []) ∧
        ∀ a ∈ ofKey key k l, (write a).isSome → (lastOf key write k l).isSome := by
  have same {l' : List α} (rearranges : Rearranges key l' l) :
      appended write l' = appended write (ofKey key k l) := by
    rw [appended, appended, filterMap_ofKey fun a _ => own a, rearranges k]
  have alone : (∀ l', Rearranges key l' l → appended write l' = lastOf key write k l) ↔
      appended write (ofKey key k l) = lastOf key write k l := by
    constructor
    · intro determined
      rw [← same (Rearranges.refl l)]
      exact determined l (Rearranges.refl l)
    · intro determined l' rearranges
      rw [same rearranges, determined]
  rw [alone, lastOf]
  cases List.eq_nil_or_concat (ofKey key k l) with
  | inl empty => simp [empty, appended]
  | inr concat =>
    obtain ⟨before, a, concat⟩ := concat
    rw [concat, List.concat_eq_append, List.getLast?_concat, List.dropLast_concat,
      Option.bind_some]
    cases written : write a with
    | some b =>
      rw [appended_concat written, ← flatten_filterMap_eq_nil_iff]
      simp
    | none =>
      rw [appended_eq_none_iff]
      constructor
      · intro silent
        refine ⟨fun c member => .inl (silent c (List.mem_append_left _ member)), ?_⟩
        intro c member writes
        rw [silent c member] at writes
        exact writes
      · rintro ⟨-, writes⟩ c member
        by_contra wrote
        cases writes c member (Option.isSome_iff_ne_none.mpr wrote)

end Keys

end KeyedWrites
