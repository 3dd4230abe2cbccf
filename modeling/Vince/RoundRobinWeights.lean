import Vince.Rotation
import Mathlib.Algebra.Ring.Nat
import Mathlib.Data.Int.GCD
import Mathlib.Data.List.Induction

/-!
# The weighted round robin (`weighted.RRW`)

The balancer goes round its items at a falling level: an item is returned at each level that its
weight reaches. The levels are the multiples of the greatest common divisor up to the greatest
weight.
-/

namespace RoundRobinWeights

open Rotation (run)

variable {α : Type}

/-- The state of a balancer. The field `n` is the number of items. -/
structure RRW (α : Type) where
  items : List (α × ℤ) := []
  gcd : ℤ := 0
  maxW : ℤ := 0
  i : ℤ := 0
  cw : ℤ := 0

/-- The loop of `gcd`, for a number of rounds. -/
def gcdLoop : ℕ → ℤ → ℤ → Option ℤ
  | 0, _, _ => none
  | fuel + 1, x, y =>
    let t := x.tmod y
    if 0 < t then gcdLoop fuel y t else some y

/-- The remainders fall, so the loop has ended after as many rounds as the divisor says. -/
def gcd (x y : ℤ) : Option ℤ := gcdLoop y.toNat x y

/-- The method `Add`; nothing if the loop of `gcd` did not end. -/
def RRW.add (w : RRW α) (item : α) (weight : ℤ) : Option (RRW α) :=
  if 0 < weight then
    if w.gcd = 0 then
      some { items := w.items ++ [(item, weight)], gcd := weight, maxW := weight, i := -1, cw := 0 }
    else
      (RoundRobinWeights.gcd w.gcd weight).map fun g =>
        { w with
          items := w.items ++ [(item, weight)]
          gcd := g
          maxW := if w.maxW < weight then weight else w.maxW }
  else
    some { w with items := w.items ++ [(item, weight)] }

/-- What a call of `Next` ends with. -/
inductive Answer (α : Type) where
  | item (a : α)
  | nil
  /-- The loop had not ended after the rounds that were looked at. -/
  | endless
  deriving DecidableEq

/-- What the head of the loop does to the level, when the walk comes to this place. -/
def RRW.level (w : RRW α) (i : ℤ) : ℤ :=
  if i = 0 then (if w.cw - w.gcd ≤ 0 then w.maxW else w.cw - w.gcd) else w.cw

/-- The loop of `Next`, for a number of rounds. -/
def RRW.search : ℕ → RRW α → Answer α × RRW α
  | 0, w => (.endless, w)
  | fuel + 1, w =>
    let i := (w.i + 1).tmod w.items.length
    let w' := { w with i := i, cw := w.level i }
    if i = 0 ∧ w'.cw = 0 then (.nil, w')
    else
      match w.items[i.toNat]? with
      | some (a, weight) => if w'.cw ≤ weight then (.item a, w') else w'.search fuel
      | none => (.endless, w')

/-- The method `Next`. Two rounds through the items are enough for the loop. -/
def RRW.next (w : RRW α) : Answer α × RRW α :=
  match w.items with
  | [] => (.nil, w)
  | [(a, _)] => (.item a, w)
  | _ => w.search (2 * w.items.length)

/-- A balancer to which the items have been added one after another. -/
def addAll (servers : List (α × ℤ)) : Option (RRW α) :=
  servers.foldlM (fun w s => w.add s.1 s.2) {}

/-! ## What is added -/

/-- The greatest common divisor of the weights that count. -/
def common (servers : List (α × ℤ)) : ℕ := servers.foldl (fun g s => g.gcd s.2.toNat) 0

def highest (servers : List (α × ℤ)) : ℕ := servers.foldl (fun m s => max m s.2.toNat) 0

theorem gcdLoop_eq {fuel x y : ℕ} (pos : 0 < y) (enough : y ≤ fuel) :
    gcdLoop fuel x y = some (x.gcd y : ℤ) := by
  induction fuel generalizing x y with
  | zero => omega
  | succ fuel ih =>
    have rest : (x : ℤ).tmod y = ((x % y : ℕ) : ℤ) := by
      rw [Int.tmod_eq_emod_of_nonneg (by omega), Int.natCast_mod]
    have less : x % y < y := Nat.mod_lt x pos
    simp only [gcdLoop, rest]
    by_cases more : 0 < x % y
    · rw [if_pos (by omega), ih more (by omega), Nat.gcd_comm y, ← Nat.gcd_rec, Nat.gcd_comm]
    · have none : x % y = 0 := by omega
      rw [if_neg (by omega), Nat.gcd_eq_right (Nat.dvd_of_mod_eq_zero none)]

theorem gcd_eq {x y : ℕ} (pos : 0 < y) : gcd x y = some (x.gcd y : ℤ) :=
  gcdLoop_eq pos (by simp)

/-- Once an item has a weight, the walk stands before the first item. -/
def built (servers : List (α × ℤ)) : RRW α where
  items := servers
  gcd := common servers
  maxW := highest servers
  i := if common servers = 0 then 0 else -1
  cw := 0

theorem common_append (servers : List (α × ℤ)) (s : α × ℤ) :
    common (servers ++ [s]) = (common servers).gcd s.2.toNat := by
  simp [common]

theorem highest_append (servers : List (α × ℤ)) (s : α × ℤ) :
    highest (servers ++ [s]) = max (highest servers) s.2.toNat := by
  simp [highest]

theorem common_dvd {servers : List (α × ℤ)} {s : α × ℤ} (mem : s ∈ servers) :
    common servers ∣ s.2.toNat := by
  induction servers using List.reverseRecOn with
  | nil => simp at mem
  | append_singleton servers t ih =>
    rw [common_append]
    rcases List.mem_append.mp mem with mem | mem
    · exact (Nat.gcd_dvd_left _ _).trans (ih mem)
    · rw [List.mem_singleton.mp mem]
      exact Nat.gcd_dvd_right _ _

theorem le_highest {servers : List (α × ℤ)} {s : α × ℤ} (mem : s ∈ servers) :
    s.2.toNat ≤ highest servers := by
  induction servers using List.reverseRecOn with
  | nil => simp at mem
  | append_singleton servers t ih =>
    rw [highest_append]
    rcases List.mem_append.mp mem with mem | mem
    · exact (ih mem).trans (le_max_left _ _)
    · rw [List.mem_singleton.mp mem]
      exact le_max_right _ _

theorem highest_mem {servers : List (α × ℤ)} (pos : 0 < highest servers) :
    ∃ s ∈ servers, s.2.toNat = highest servers := by
  induction servers using List.reverseRecOn with
  | nil => simp [highest] at pos
  | append_singleton servers t ih =>
    rw [highest_append] at pos ⊢
    by_cases higher : highest servers ≤ t.2.toNat
    · exact ⟨t, by simp, by rw [max_eq_right higher]⟩
    · rw [max_eq_left (by omega)] at pos ⊢
      obtain ⟨s, mem, same⟩ := ih pos
      exact ⟨s, List.mem_append_left _ mem, same⟩

theorem highest_of_common_zero {servers : List (α × ℤ)} (none : common servers = 0) :
    highest servers = 0 := by
  by_contra some
  obtain ⟨s, mem, same⟩ := highest_mem (Nat.pos_of_ne_zero some)
  have zero := common_dvd mem
  rw [none, Nat.zero_dvd] at zero
  omega

theorem addAll_eq (servers : List (α × ℤ)) : addAll servers = some (built servers) := by
  unfold addAll
  induction servers using List.reverseRecOn with
  | nil => rfl
  | append_singleton servers s ih =>
    rw [List.foldlM_append, ih]
    show ((built servers).add s.1 s.2).bind some = _
    rw [Option.bind_fun_some]
    unfold RRW.add
    by_cases pos : 0 < s.2
    · have weight : ((s.2.toNat : ℕ) : ℤ) = s.2 := by omega
      rw [if_pos pos]
      by_cases first : common servers = 0
      · have low := highest_of_common_zero first
        have most : highest (servers ++ [s]) = s.2.toNat := by
          rw [highest_append, low, Nat.zero_max]
        have some : s.2.toNat ≠ 0 := by omega
        simp [built, first, most, common_append, weight, some]
      · have some : (common servers).gcd s.2.toNat ≠ 0 :=
          fun h => first (Nat.eq_zero_of_gcd_eq_zero_left h)
        have divisor := gcd_eq (x := common servers) (show 0 < s.2.toNat by omega)
        rw [weight] at divisor
        have top : (if (highest servers : ℤ) < s.2 then s.2 else (highest servers : ℤ)) =
            ((max (highest servers) s.2.toNat : ℕ) : ℤ) := by
          split <;> omega
        simp [built, first, some, divisor, common_append, highest_append, top]
    · have nothing : s.2.toNat = 0 := by omega
      rw [if_neg pos]
      simp [built, common_append, highest_append, nothing]

/-! ## One call -/

/-- The items whose weight reaches a level. -/
def reach (c : ℤ) (items : List (α × ℤ)) : List (α × ℤ) := items.filter (c ≤ ·.2)

/-- The walk has passed the items in front; before the first call it has passed none. -/
structure Stands (w : RRW α) (front rest : List (α × ℤ)) : Prop where
  items : w.items = front ++ rest
  place : w.i = front.length - 1

theorem Stands.step {w : RRW α} {front rest : List (α × ℤ)} {x : α × ℤ}
    (stands : Stands w front (x :: rest)) (inside : front ≠ []) (fuel : ℕ) :
    Stands { w with i := front.length } (front ++ [x]) rest ∧
      w.search (fuel + 1) =
        if w.cw ≤ x.2 then (.item x.1, { w with i := front.length })
        else RRW.search fuel { w with i := front.length } := by
  have passed := List.length_pos_of_ne_nil inside
  have many : w.items.length = front.length + (rest.length + 1) := by
    rw [stands.items, List.length_append, List.length_cons]
  have place : (w.i + 1).tmod w.items.length = front.length := by
    rw [stands.place, many, Int.tmod_eq_emod_of_nonneg (by omega), Int.emod_eq_of_lt] <;> omega
  have here : w.items[front.length]? = some x := by
    rw [stands.items]
    simp
  refine ⟨⟨by simp [stands.items], by simp⟩, ?_⟩
  simp [RRW.search, place, here, inside, RRW.level]

/-- The walk passes the items that do not reach the level, and stops at the first that does. -/
theorem Stands.scan {w : RRW α} {front rest : List (α × ℤ)} (stands : Stands w front rest)
    (inside : front ≠ []) (fuel : ℕ) :
    (reach w.cw rest = [] → w.search (rest.length + fuel) =
        RRW.search fuel { w with i := w.items.length - 1 }) ∧
      ∀ x tail, reach w.cw rest = x :: tail →
        ∃ front' rest' i, Stands { w with i := i } front' rest' ∧ front' ≠ [] ∧
          reach w.cw rest' = tail ∧
          w.search (rest.length + fuel) = (.item x.1, { w with i := i }) := by
  induction rest generalizing w front with
  | nil =>
    refine ⟨fun _ => ?_, fun x tail found => ?_⟩
    · have last : w.i = w.items.length - 1 := by
        rw [stands.place, stands.items, List.append_nil]
      rw [List.length_nil, Nat.zero_add, ← last]
    · simp [reach] at found
  | cons y rest ih =>
    obtain ⟨after, called⟩ := stands.step inside (rest.length + fuel)
    have count : (y :: rest).length + fuel = rest.length + fuel + 1 := by
      rw [List.length_cons]
      omega
    rw [count, called]
    by_cases reached : w.cw ≤ y.2
    · have first : reach w.cw (y :: rest) = y :: reach w.cw rest := by
        simp [reach, reached]
      rw [first, if_pos reached]
      refine ⟨fun none => by simp at none, fun x tail found => ?_⟩
      obtain ⟨rfl, rfl⟩ := List.cons_eq_cons.mp found
      exact ⟨_, rest, _, after, by simp, rfl, rfl⟩
    · have passed : reach w.cw (y :: rest) = reach w.cw rest := by
        simp [reach, reached]
      rw [passed, if_neg reached]
      exact ih after (by simp)

theorem wrap {w : RRW α} {x : α × ℤ} {rest : List (α × ℤ)} (items : w.items = x :: rest)
    (ends : w.i = -1 ∨ w.i = w.items.length - 1) (level : w.level 0 ≠ 0) (fuel : ℕ) :
    Stands { w with i := 0, cw := w.level 0 } [x] rest ∧
      w.search (fuel + 1) =
        if w.level 0 ≤ x.2 then (.item x.1, { w with i := 0, cw := w.level 0 })
        else RRW.search fuel { w with i := 0, cw := w.level 0 } := by
  have place : (w.i + 1).tmod w.items.length = 0 := by
    rcases ends with first | last
    · rw [first]
      rfl
    · rw [last, Int.sub_add_cancel, Int.tmod_self]
  have here : w.items[0]? = some x := by
    rw [items]
    rfl
  refine ⟨⟨by simp [items], by simp⟩, ?_⟩
  simp [RRW.search, place, here, level]

/-- The walk comes to a new level, which some item reaches. -/
theorem wrap_scan {w : RRW α} (ends : w.i = -1 ∨ w.i = w.items.length - 1) (level : w.level 0 ≠ 0)
    {y : α × ℤ} {tail : List (α × ℤ)} (found : reach (w.level 0) w.items = y :: tail) (fuel : ℕ) :
    ∃ front' rest' i, Stands { w with i := i, cw := w.level 0 } front' rest' ∧ front' ≠ [] ∧
      reach (w.level 0) rest' = tail ∧
      w.search (w.items.length + fuel) = (.item y.1, { w with i := i, cw := w.level 0 }) := by
  obtain ⟨x, rest, items⟩ : ∃ x rest, w.items = x :: rest := by
    cases shape : w.items with
    | nil => simp [shape, reach] at found
    | cons x rest => exact ⟨x, rest, rfl⟩
  obtain ⟨after, called⟩ := wrap items ends level (rest.length + fuel)
  have count : w.items.length + fuel = rest.length + fuel + 1 := by
    rw [items, List.length_cons]
    omega
  rw [count, called]
  rw [items] at found
  by_cases reached : w.level 0 ≤ x.2
  · have first : reach (w.level 0) (x :: rest) = x :: reach (w.level 0) rest := by
      simp [reach, reached]
    rw [first] at found
    obtain ⟨rfl, rfl⟩ := List.cons_eq_cons.mp found
    rw [if_pos reached]
    exact ⟨_, rest, _, after, by simp, rfl, rfl⟩
  · have passed : reach (w.level 0) (x :: rest) = reach (w.level 0) rest := by
      simp [reach, reached]
    rw [passed] at found
    rw [if_neg reached]
    obtain ⟨front', rest', i, stands', inside, left, ended⟩ :=
      (after.scan (by simp) fuel).2 y tail found
    exact ⟨front', rest', i, stands', inside, left, ended⟩

/-! ## Whole runs -/

/-- The level after this one. -/
def below (g top : ℕ) (c : ℤ) : ℤ := if c - g ≤ 0 then top else c - g

theorem below_pos {g top : ℕ} (pos : 0 < top) (c : ℤ) : 0 < below g top c := by
  unfold below
  split <;> omega

theorem below_le {g top : ℕ} {c : ℤ} (le : c ≤ top) : below g top c ≤ top := by
  unfold below
  split <;> omega

variable {servers pending : List (α × ℤ)} {w : RRW α} {c : ℤ}

/-- The balancer of the servers at a level, with the items it will still return there. -/
structure Walk (servers : List (α × ℤ)) (w : RRW α) (c : ℤ) (pending : List (α × ℤ)) : Prop where
  items : w.items = servers
  gcd : w.gcd = common servers
  maxW : w.maxW = highest servers
  cw : w.cw = c
  place : (w.i = -1 ∧ pending = []) ∨
    ∃ front rest, Stands w front rest ∧ front ≠ [] ∧ reach c rest = pending

theorem Walk.level (walk : Walk servers w c pending) :
    w.level 0 = below (common servers) (highest servers) c := by
  rw [RRW.level, if_pos rfl, walk.cw, walk.gcd, walk.maxW, below]

theorem Walk.next_eq (walk : Walk servers w c pending) (several : 2 ≤ servers.length) :
    w.next = w.search (2 * servers.length) := by
  rw [← walk.items] at several ⊢
  unfold RRW.next
  match shape : w.items with
  | [] => simp [shape] at several
  | [_] => simp [shape] at several
  | _ :: _ :: _ => rfl

theorem Walk.next_pending {x : α × ℤ} {tail : List (α × ℤ)} (walk : Walk servers w c (x :: tail))
    (several : 2 ≤ servers.length) :
    ∃ w', w.next = (.item x.1, w') ∧ Walk servers w' c tail := by
  obtain ⟨_, none⟩ | ⟨front, rest, stands, inside, left⟩ := walk.place
  · simp at none
  · have count : 2 * servers.length = rest.length + (2 * servers.length - rest.length) := by
      have items : servers.length = front.length + rest.length := by
        rw [← walk.items, stands.items, List.length_append]
      omega
    rw [← walk.cw] at left
    obtain ⟨front', rest', i, stands', inside', left', ended⟩ :=
      (stands.scan inside (2 * servers.length - rest.length)).2 x tail left
    rw [walk.next_eq several, count, ended]
    rw [walk.cw] at left'
    exact ⟨_, rfl, walk.items, walk.gcd, walk.maxW, walk.cw,
      .inr ⟨front', rest', stands', inside', left'⟩⟩

theorem Walk.next_level {x : α × ℤ} {tail : List (α × ℤ)} (walk : Walk servers w c [])
    (several : 2 ≤ servers.length) (pos : 0 < highest servers)
    (found : reach (below (common servers) (highest servers) c) servers = x :: tail) :
    ∃ w', w.next = (.item x.1, w') ∧
      Walk servers w' (below (common servers) (highest servers) c) tail := by
  have up : w.level 0 ≠ 0 := by
    rw [walk.level]
    exact Int.ne_of_gt (below_pos pos c)
  rw [← walk.level] at found ⊢
  rw [walk.next_eq several]
  obtain ⟨first, _⟩ | ⟨front, rest, stands, inside, left⟩ := walk.place
  · rw [← walk.items] at found
    obtain ⟨front', rest', i, stands', inside', left', ended⟩ :=
      wrap_scan (.inl first) up found servers.length
    rw [Nat.two_mul]
    nth_rewrite 1 [← walk.items]
    rw [ended]
    exact ⟨_, rfl, walk.items, walk.gcd, walk.maxW, rfl,
      .inr ⟨front', rest', stands', inside', left'⟩⟩
  · -- the rest of this level is passed first
    have count : 2 * servers.length =
        rest.length + (w.items.length + (servers.length - rest.length)) := by
      have items : servers.length = front.length + rest.length := by
        rw [← walk.items, stands.items, List.length_append]
      rw [walk.items]
      omega
    rw [← walk.cw] at left
    rw [count, (stands.scan inside _).1 left]
    rw [← walk.items] at found
    obtain ⟨front', rest', i, stands', inside', left', ended⟩ :=
      wrap_scan (w := { w with i := w.items.length - 1 }) (.inr rfl) up found
        (servers.length - rest.length)
    refine ⟨_, ended, walk.items, walk.gcd, walk.maxW, rfl,
      .inr ⟨front', rest', stands', inside', left'⟩⟩

def levels (g top : ℕ) : ℕ → ℤ → List ℤ
  | 0, _ => []
  | m + 1, c => below g top c :: levels g top m (below g top c)

/-- What is returned at the next levels. -/
def ahead (servers : List (α × ℤ)) (m : ℕ) (c : ℤ) : List (α × ℤ) :=
  (levels (common servers) (highest servers) m c).flatMap fun c => reach c servers

theorem reach_ne_nil (pos : 0 < highest servers) (le : c ≤ highest servers) :
    reach c servers ≠ [] := by
  obtain ⟨s, mem, top⟩ := highest_mem pos
  refine List.ne_nil_of_mem (a := s) (List.mem_filter.mpr ⟨mem, ?_⟩)
  rw [decide_eq_true_eq]
  omega

theorem length_ahead (pos : 0 < highest servers) (le : c ≤ highest servers) (m : ℕ) :
    m ≤ (ahead servers m c).length := by
  induction m generalizing c with
  | zero => exact Nat.zero_le _
  | succ m ih =>
    have one := List.length_pos_of_ne_nil
      (reach_ne_nil pos (below_le (g := common servers) le))
    have more := ih (below_le (g := common servers) le)
    simp only [ahead, levels, List.flatMap_cons, List.length_append] at more ⊢
    omega

theorem Walk.run_eq (walk : Walk servers w c pending) (several : 2 ≤ servers.length)
    (pos : 0 < highest servers) (le : c ≤ highest servers) {k m : ℕ}
    (enough : k ≤ (pending ++ ahead servers m c).length) :
    (run RRW.next k w).1 = ((pending ++ ahead servers m c).take k).map fun x => .item x.1 := by
  induction k generalizing w c pending m with
  | zero => simp [run]
  | succ k ih =>
    cases pending with
    | cons x tail =>
      obtain ⟨w', called, walk'⟩ := walk.next_pending several
      have rest := ih walk' le (Nat.le_of_succ_le_succ enough)
      simp only [run, called, rest, List.cons_append, List.take_succ_cons, List.map_cons]
    | nil =>
      cases m with
      | zero => simp [ahead, levels] at enough
      | succ m =>
        have split : ahead servers (m + 1) c =
            reach (below (common servers) (highest servers) c) servers ++
              ahead servers m (below (common servers) (highest servers) c) := by
          simp only [ahead, levels, List.flatMap_cons]
        obtain ⟨x, tail, found⟩ := List.exists_cons_of_ne_nil
          (reach_ne_nil pos (below_le (g := common servers) le))
        obtain ⟨w', called, walk'⟩ := walk.next_level several pos found
        rw [split, found] at enough ⊢
        have rest := ih walk' (below_le le) (Nat.le_of_succ_le_succ enough)
        simp only [run, called, rest, List.nil_append, List.cons_append, List.take_succ_cons,
          List.map_cons]

/-! ## The period -/

theorem levels_congr {g top : ℕ} {c d : ℤ} (same : below g top c = below g top d) (m : ℕ) :
    levels g top m c = levels g top m d := by
  cases m with
  | zero => rfl
  | succ m => rw [levels, levels, same]

/-- From the highest level the multiples of the divisor follow one after another. -/
theorem levels_fall {g top : ℕ} (pos : 0 < g) (a m : ℕ) :
    levels g top (a + m) (g * (a + 1) : ℕ) =
      ((List.range a).map fun j => ((g * (j + 1) : ℕ) : ℤ)).reverse ++ levels g top m g := by
  induction a with
  | zero => simp
  | succ a ih =>
    have low : below g top (g * (a + 1 + 1) : ℕ) = (g * (a + 1) : ℕ) := by
      have some : 0 < g * (a + 1) := Nat.mul_pos pos (Nat.succ_pos a)
      have sum : g * (a + 1 + 1) = g * (a + 1) + g := by rw [Nat.mul_succ]
      unfold below
      split <;> omega
    rw [Nat.succ_add, levels, low, ih, List.range_succ, List.map_append, List.reverse_append]
    rfl

theorem levels_period {g q : ℕ} (pos : 0 < g) (some : 0 < q) (m : ℕ) :
    levels g (g * q) (q + m) 0 =
      ((List.range q).map fun j => ((g * (j + 1) : ℕ) : ℤ)).reverse ++ levels g (g * q) m 0 := by
  have top : 0 < g * q := Nat.mul_pos pos some
  have start : below g (g * q) 0 = below g (g * q) (g * (q + 1) : ℕ) := by
    have sum : g * (q + 1) = g * q + g := by rw [Nat.mul_succ]
    unfold below
    split <;> split <;> omega
  have again : below g (g * q) g = below g (g * q) 0 := by
    unfold below
    split <;> split <;> omega
  rw [levels_congr start, levels_fall pos, levels_congr again]

theorem flatMap_reach_cons (s : α × ℤ) (rest : List (α × ℤ)) (ls : List ℤ) :
    (ls.flatMap fun c => reach c (s :: rest)).Perm
      (List.replicate (ls.countP (· ≤ s.2)) s ++ ls.flatMap fun c => reach c rest) := by
  induction ls with
  | nil => simp
  | cons c ls ih =>
    simp only [List.flatMap_cons]
    have moved : (reach c rest ++ ls.flatMap fun c => reach c (s :: rest)).Perm
        (List.replicate (ls.countP (· ≤ s.2)) s ++
          (reach c rest ++ ls.flatMap fun c => reach c rest)) := by
      refine (ih.append_left _).trans ?_
      rw [← List.append_assoc, ← List.append_assoc]
      exact List.perm_append_comm.append_right _
    by_cases reached : c ≤ s.2
    · have first : reach c (s :: rest) = s :: reach c rest := by simp [reach, reached]
      rw [first, List.countP_cons_of_pos (by simpa using reached), List.replicate_succ]
      exact moved.cons s
    · have passed : reach c (s :: rest) = reach c rest := by simp [reach, reached]
      rw [passed, List.countP_cons_of_neg (by simpa using reached)]
      exact moved

/-- Going round the items level by level gives every item as often as levels are below its
weight. -/
theorem flatMap_reach (servers : List (α × ℤ)) (ls : List ℤ) :
    (ls.flatMap fun c => reach c servers).Perm
      (servers.flatMap fun s => List.replicate (ls.countP (· ≤ s.2)) s) := by
  induction servers with
  | nil => simp [reach]
  | cons s rest ih =>
    rw [List.flatMap_cons]
    exact (flatMap_reach_cons s rest ls).trans (ih.append_left _)

theorem countP_range_lt (t q : ℕ) (le : t ≤ q) : (List.range q).countP (· < t) = t := by
  induction q with
  | zero =>
    obtain rfl : t = 0 := by omega
    rfl
  | succ q ih =>
    rw [List.range_succ, List.countP_append, List.countP_singleton]
    by_cases whole : t = q + 1
    · subst whole
      have all : (List.range q).countP (· < q + 1) = (List.range q).length :=
        List.countP_eq_length.mpr fun j mem => by
          have := List.mem_range.mp mem
          simp only [decide_eq_true_eq]
          omega
      rw [all, List.length_range]
      simp
    · rw [ih (by omega), if_neg (by simp only [decide_eq_true_eq]; omega), Nat.add_zero]

theorem countP_levels {g q : ℕ} (pos : 0 < g) {weight : ℤ} (dvd : g ∣ weight.toNat)
    (le : weight.toNat ≤ g * q) :
    ((List.range q).map fun j => ((g * (j + 1) : ℕ) : ℤ)).reverse.countP (· ≤ weight) =
      weight.toNat / g := by
  obtain ⟨t, share⟩ := dvd
  have few : t ≤ q := Nat.le_of_mul_le_mul_left (share ▸ le) pos
  rw [List.countP_reverse, List.countP_map, share, Nat.mul_div_cancel_left t pos]
  refine Eq.trans (List.countP_congr fun j _ => ?_) (countP_range_lt t q few)
  have level : 0 < g * (j + 1) := Nat.mul_pos pos (Nat.succ_pos j)
  have reaches : g * (j + 1) ≤ g * t ↔ j + 1 ≤ t := Nat.mul_le_mul_left_iff pos
  simp only [Function.comp_apply, decide_eq_true_eq]
  omega

/-- What every server gets in a period. -/
def shares (servers : List (α × ℤ)) : List (Answer α) :=
  servers.flatMap fun s => List.replicate (s.2.toNat / common servers) (.item s.1)

theorem length_shares (servers : List (α × ℤ)) :
    (shares servers).length = (servers.map (·.2.toNat / common servers)).sum := by
  simp [shares, List.length_flatMap]

/-- What is returned from the start on until the levels come round again. -/
def period (servers : List (α × ℤ)) : List (α × ℤ) :=
  ahead servers (highest servers / common servers) 0

theorem common_dvd_highest (servers : List (α × ℤ)) : common servers ∣ highest servers := by
  by_cases pos : 0 < highest servers
  · obtain ⟨s, mem, top⟩ := highest_mem pos
    rw [← top]
    exact common_dvd mem
  · obtain none : highest servers = 0 := by omega
    rw [none]
    exact ⟨0, rfl⟩

theorem common_pos (pos : 0 < highest servers) : 0 < common servers := by
  refine Nat.pos_of_ne_zero fun none => ?_
  have low := highest_of_common_zero none
  omega

theorem levels_servers (pos : 0 < highest servers) (m : ℕ) :
    levels (common servers) (highest servers) (highest servers / common servers + m) 0 =
      ((List.range (highest servers / common servers)).map
        fun j => ((common servers * (j + 1) : ℕ) : ℤ)).reverse ++
        levels (common servers) (highest servers) m 0 := by
  have whole : common servers * (highest servers / common servers) = highest servers :=
    Nat.mul_div_cancel' (common_dvd_highest servers)
  have some : 0 < highest servers / common servers :=
    Nat.div_pos (Nat.le_of_dvd pos (common_dvd_highest servers)) (common_pos pos)
  have fall := levels_period (common_pos pos) some m
  rwa [whole] at fall

theorem ahead_add (pos : 0 < highest servers) (m : ℕ) :
    ahead servers (highest servers / common servers + m) 0 =
      period servers ++ ahead servers m 0 := by
  have first := levels_servers pos 0
  rw [Nat.add_zero, levels, List.append_nil] at first
  rw [period, ahead, ahead, ahead, levels_servers pos, first, List.flatMap_append]

theorem period_shares (pos : 0 < highest servers) :
    ((period servers).map fun x => Answer.item x.1).Perm (shares servers) := by
  have first := levels_servers pos 0
  rw [Nat.add_zero, levels, List.append_nil] at first
  have whole : common servers * (highest servers / common servers) = highest servers :=
    Nat.mul_div_cancel' (common_dvd_highest servers)
  have counted : (servers.flatMap fun s => List.replicate
      ((levels (common servers) (highest servers) (highest servers / common servers) 0).countP
        (· ≤ s.2)) s) =
      servers.flatMap fun s => List.replicate (s.2.toNat / common servers) s := by
    refine List.flatMap_congr fun s mem => ?_
    rw [first, countP_levels (common_pos pos) (common_dvd mem)
      (by rw [whole]; exact le_highest mem)]
  refine ((flatMap_reach servers _).map _).trans (List.Perm.of_eq ?_)
  rw [counted, List.map_flatMap, shares]
  simp only [List.map_replicate]

theorem built_walk (pos : 0 < highest servers) : Walk servers (built servers) 0 [] :=
  ⟨rfl, rfl, rfl, rfl, .inl ⟨by simp [built, (common_pos pos).ne'], rfl⟩⟩

theorem built_run (several : 2 ≤ servers.length) (pos : 0 < highest servers) {k m : ℕ}
    (enough : k ≤ (ahead servers m 0).length) :
    (run RRW.next k (built servers)).1 =
      ((ahead servers m 0).take k).map fun x => .item x.1 :=
  (built_walk pos).run_eq several pos (Int.natCast_nonneg _) enough

/-- The answers of a period come round again. -/
theorem built_again (several : 2 ≤ servers.length) (pos : 0 < highest servers) (k : ℕ) :
    (run RRW.next ((period servers).length + k) (built servers)).1 =
      (period servers).map (fun x => .item x.1) ++ (run RRW.next k (built servers)).1 := by
  have few := length_ahead pos (Int.natCast_nonneg (highest servers)) k
  have many : (period servers).length + k ≤
      (ahead servers (highest servers / common servers + k) 0).length := by
    rw [ahead_add pos, List.length_append]
    omega
  rw [built_run several pos many, built_run several pos few, ahead_add pos,
    List.take_length_add_append, List.map_append]

theorem run_singleton (s : α × ℤ) (w : RRW α) (items : w.items = [s]) (k : ℕ) :
    run RRW.next k w = (List.replicate k (.item s.1), w) := by
  have called : w.next = (.item s.1, w) := by
    rw [RRW.next, items]
  induction k with
  | zero => rfl
  | succ k ih => simp only [run, called, ih, List.replicate_succ]

/-- The balancer can always be built, and whenever one starts to count, one period of calls returns
every server as often as the divisor goes into its weight. -/
theorem rrw_window_shares (servers : List (α × ℤ)) (k : ℕ) :
    ∃ w, addAll servers = some w ∧
      (run RRW.next (servers.map (·.2.toNat / common servers)).sum (run RRW.next k w).2).1.Perm
        (shares servers) := by
  refine ⟨built servers, addAll_eq servers, ?_⟩
  rw [← length_shares]
  by_cases pos : 0 < highest servers
  · match servers with
    | [] => simp [highest] at pos
    | [s] =>
      rw [run_singleton s (built [s]) rfl k, run_singleton s (built [s]) rfl]
      simp [shares]
    | s :: t :: rest =>
      generalize held : s :: t :: rest = servers at pos ⊢
      have several : 2 ≤ servers.length := by
        rw [← held, List.length_cons, List.length_cons]
        omega
      have counted := period_shares pos
      have again := built_again several pos
      have length : ((period servers).map fun x => Answer.item x.1).length =
          (period servers).length := List.length_map _
      rw [← length] at again
      rw [← counted.length_eq]
      exact (Rotation.window_perm RRW.next again k).trans counted
  · -- no weight counts, so there is nothing to share
    have none : shares servers = [] := by
      refine List.flatMap_eq_nil_iff.mpr fun s mem => ?_
      have low := le_highest mem
      have zero : s.2.toNat = 0 := by omega
      rw [zero, Nat.zero_div]
      rfl
    rw [none]
    exact .nil

end RoundRobinWeights
