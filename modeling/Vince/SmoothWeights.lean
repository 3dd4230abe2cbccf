import Vince.FairRounds
import Vince.Rotation
import Mathlib.Algebra.BigOperators.Fin
import Mathlib.Data.List.OfFn
import Mathlib.Data.List.Induction

/-!
# The smooth weighted round robin (`weighted.SW`)

Every call raises the current weight of each item by its weight, takes the first item with the
greatest current weight and lowers it by the sum of what was distributed. Seen from outside, this is
a round in which whoever has most pays for all, as long as no current weight leaves the range of an
`int`.
-/

namespace SmoothWeights

open Rotation (run)
open FairRounds (Fair Round Rounds)

variable {α : Type}

/-- The value of an `int` after an operation with the result `n`. -/
def wrap (n : ℤ) : ℤ := n.bmod (2 ^ 64)

theorem wrap_of_fits {n : ℤ} (low : -2 ^ 63 ≤ n) (high : n < 2 ^ 63) : wrap n = n :=
  Int.bmod_eq_of_le (by omega) (by omega)

structure SmoothWeighted (α : Type) where
  item : α
  weight : ℤ
  currentWeight : ℤ
  effectiveWeight : ℤ

abbrev SW (α : Type) := List (SmoothWeighted α)

/-- The method `Add`. -/
def add (w : SW α) (item : α) (weight : ℤ) : SW α :=
  w ++ [⟨item, weight, 0, weight⟩]

/-- What the loop of `nextSmoothWeighted` does to an item. -/
def SmoothWeighted.raise (w : SmoothWeighted α) : SmoothWeighted α :=
  { w with
    currentWeight := wrap (w.currentWeight + w.effectiveWeight)
    effectiveWeight :=
      if w.effectiveWeight < w.weight then wrap (w.effectiveWeight + 1) else w.effectiveWeight }

/-- The loop's variables: the items it has passed, the sum, and where the best item stands, with its
current weight. -/
structure Pass (α : Type) where
  items : List (SmoothWeighted α) := []
  total : ℤ := 0
  best : Option (ℕ × ℤ) := none

def Pass.visit (p : Pass α) (w : SmoothWeighted α) : Pass α where
  items := p.items ++ [w.raise]
  total := wrap (p.total + w.effectiveWeight)
  best :=
    match p.best with
    | none => some (p.items.length, w.raise.currentWeight)
    | some b =>
      if b.2 < w.raise.currentWeight then some (p.items.length, w.raise.currentWeight) else some b

def SmoothWeighted.pay (total : ℤ) (w : SmoothWeighted α) : SmoothWeighted α :=
  { w with currentWeight := wrap (w.currentWeight - total) }

/-- Where the item stands that is taken (none without items), and the items afterwards. -/
def nextSmoothWeighted (items : SW α) : Option ℕ × SW α :=
  let p := items.foldl Pass.visit {}
  match p.best with
  | none => (none, p.items)
  | some b => (some b.1, p.items.modify b.1 (.pay p.total))

/-- The method `nextWeighted`, with the place of the item for the item. -/
def nextWeighted (w : SW α) : Option ℕ × SW α :=
  match w with
  | [] => (none, w)
  | [_] => (some 0, w)
  | _ => nextSmoothWeighted w

/-- The method `Next`: without items it returns nil. -/
def next (w : SW α) : Option α × SW α :=
  let r := nextWeighted w
  ((r.1.bind (r.2[·]?)).map (·.item), r.2)

/-- A balancer to which the items have been added one after another. -/
def addAll (servers : List (α × ℤ)) : SW α :=
  servers.foldl (fun w s => add w s.1 s.2) []

theorem addAll_eq (servers : List (α × ℤ)) :
    addAll servers = servers.map fun s => ⟨s.1, s.2, 0, s.2⟩ := by
  unfold addAll
  induction servers using List.reverseRecOn with
  | nil => rfl
  | append_singleton servers s ih =>
    rw [List.foldl_append, ih, List.map_append]
    rfl

/-! ## The loop -/

/-- What holds between two rounds of the loop. -/
structure Pass.Good (p : Pass α) : Prop where
  nothing : p.best = none → p.items = []
  greatest : ∀ b, p.best = some b →
    (∃ w, p.items[b.1]? = some w ∧ w.currentWeight = b.2) ∧
      ∀ w ∈ p.items, w.currentWeight ≤ b.2

theorem Pass.Good.visit {p : Pass α} (good : p.Good) (w : SmoothWeighted α) :
    (p.visit w).Good := by
  have last : (p.visit w).items[p.items.length]? = some w.raise := by
    simp [Pass.visit]
  refine ⟨?_, ?_⟩
  · intro none
    simp only [Pass.visit] at none
    split at none
    · simp at none
    · split at none <;> simp at none
  · intro b found
    simp only [Pass.visit] at found
    split at found
    next first =>
      obtain rfl : _ = b := Option.some_inj.mp found
      refine ⟨⟨w.raise, last, rfl⟩, ?_⟩
      intro v mem
      have only : v = w.raise := by
        simpa [Pass.visit, good.nothing first] using mem
      rw [only]
    next old first =>
      obtain ⟨⟨v, place, current⟩, most⟩ := good.greatest old first
      split at found
      next less =>
        obtain rfl : _ = b := Option.some_inj.mp found
        refine ⟨⟨w.raise, last, rfl⟩, ?_⟩
        intro u mem
        rcases List.mem_append.mp mem with mem | mem
        · exact (most u mem).trans less.le
        · rw [List.mem_singleton.mp mem]
      next notLess =>
        obtain rfl : old = b := Option.some_inj.mp found
        refine ⟨⟨v, ?_, current⟩, ?_⟩
        · have inside : old.1 < p.items.length := (List.getElem?_eq_some_iff.mp place).1
          simpa [Pass.visit, List.getElem?_append_left inside] using place
        · intro u mem
          rcases List.mem_append.mp mem with mem | mem
          · exact most u mem
          · rw [List.mem_singleton.mp mem]
            exact not_lt.mp notLess

theorem Pass.Good.foldl {p : Pass α} (good : p.Good) (items : SW α) :
    (items.foldl Pass.visit p).Good := by
  induction items generalizing p with
  | nil => exact good
  | cons w items ih => exact ih (good.visit w)

theorem foldl_visit_items (p : Pass α) (items : SW α) :
    (items.foldl Pass.visit p).items = p.items ++ items.map (·.raise) := by
  induction items generalizing p with
  | nil => simp
  | cons w items ih =>
    rw [List.foldl_cons, ih]
    simp [Pass.visit]

theorem foldl_visit_total (p : Pass α) (fits : wrap p.total = p.total) (items : SW α) :
    (items.foldl Pass.visit p).total = wrap (p.total + (items.map (·.effectiveWeight)).sum) := by
  induction items generalizing p with
  | nil => simp [fits]
  | cons w items ih =>
    rw [List.foldl_cons, ih (p.visit w) Int.bmod_bmod]
    simp only [Pass.visit, List.map_cons, List.sum_cons, ← add_assoc]
    exact Int.bmod_add_bmod

/-- The item taken has the greatest current weight once all are raised, and it alone pays. -/
theorem nextSmoothWeighted_spec {items : SW α} (some_item : items ≠ []) :
    ∃ b < items.length,
      (∀ v ∈ items.map (·.raise), ∀ w, (items.map (·.raise))[b]? = some w →
        v.currentWeight ≤ w.currentWeight) ∧
      nextSmoothWeighted items = (some b,
        (items.map (·.raise)).modify b (.pay (wrap (items.map (·.effectiveWeight)).sum))) := by
  have good : (items.foldl Pass.visit ({} : Pass α)).Good :=
    Pass.Good.foldl ⟨fun _ => rfl, by simp⟩ items
  have passed : (items.foldl Pass.visit ({} : Pass α)).items = items.map (·.raise) := by
    rw [foldl_visit_items, List.nil_append]
  have total : (items.foldl Pass.visit ({} : Pass α)).total =
      wrap (items.map (·.effectiveWeight)).sum := by
    rw [foldl_visit_total _ rfl, zero_add]
  cases best : (items.foldl Pass.visit ({} : Pass α)).best with
  | none =>
    have empty := good.nothing best
    rw [passed, List.map_eq_nil_iff] at empty
    exact absurd empty some_item
  | some b =>
    obtain ⟨⟨w, place, current⟩, most⟩ := good.greatest b best
    rw [passed] at place most
    have inside := (List.getElem?_eq_some_iff.mp place).1
    rw [List.length_map] at inside
    refine ⟨b.1, inside, ?_, ?_⟩
    · intro v mem w' place'
      obtain rfl : w = w' := Option.some_inj.mp (place.symm.trans place')
      rw [current]
      exact most v mem
    · simp only [nextSmoothWeighted, best, passed, total]

/-! ## Whole runs -/

variable (servers : List (α × ℤ))

abbrev weights (i : Fin servers.length) : ℤ := (servers.get i).2

/-- The balancer of the servers, with these current weights: what a call leaves of the others. -/
def holding (cur : Fin servers.length → ℤ) : SW α :=
  List.ofFn fun i => ⟨(servers.get i).1, (servers.get i).2, cur i, (servers.get i).2⟩

theorem addAll_holding : addAll servers = holding servers 0 := by
  rw [addAll_eq, holding]
  conv_lhs => rw [← List.ofFn_get servers, List.map_ofFn]
  rfl

theorem holding_raise {cur : Fin servers.length → ℤ}
    (fits : ∀ i, wrap (cur i + weights servers i) = cur i + weights servers i) :
    (holding servers cur).map (·.raise) =
      holding servers fun i => cur i + weights servers i := by
  rw [holding, List.map_ofFn]
  refine congrArg List.ofFn (funext fun i => ?_)
  simpa [SmoothWeighted.raise, weights] using fits i

theorem holding_effective (cur : Fin servers.length → ℤ) :
    ((holding servers cur).map (·.effectiveWeight)).sum = ∑ i, weights servers i := by
  rw [holding, List.map_ofFn, List.sum_ofFn]
  rfl

theorem holding_get? (cur : Fin servers.length → ℤ) (i : Fin servers.length) :
    (holding servers cur)[i.1]? =
      some ⟨(servers.get i).1, (servers.get i).2, cur i, (servers.get i).2⟩ := by
  simp [holding]

theorem holding_pay {cur : Fin servers.length → ℤ} {b : Fin servers.length} {total : ℤ}
    (fits : wrap (cur b - total) = cur b - total) :
    (holding servers cur).modify b.1 (.pay total) =
      holding servers fun i => cur i - if i = b then total else 0 := by
  refine List.ext_getElem? fun i => ?_
  rw [List.getElem?_modify]
  by_cases inside : i < servers.length
  · lift i to Fin servers.length using inside
    rw [holding_get?, holding_get?]
    by_cases same : i = b
    · subst same
      simpa [SmoothWeighted.pay] using fits
    · have other : ¬ b.1 = i.1 := fun h => same (Fin.ext h.symm)
      simp [other, same]
  · simp [holding, inside]

variable {servers}

/-- Weights for which nothing wraps around: none is negative, and their sum, taken once for every
server, fits. -/
structure Small (servers : List (α × ℤ)) : Prop where
  nonneg : ∀ s ∈ servers, 0 ≤ s.2
  bounded : servers.length * (servers.map (·.2)).sum < 2 ^ 63

theorem Small.weights_nonneg (small : Small servers) (j : Fin servers.length) :
    0 ≤ weights servers j :=
  small.nonneg _ (List.get_mem servers j)

theorem sum_weights (servers : List (α × ℤ)) :
    ∑ i, weights servers i = (servers.map (·.2)).sum := by
  rw [Fin.sum_univ_def]
  conv_rhs => rw [← List.map_get_finRange servers, List.map_map]
  rfl

/-- A call is a round. -/
theorem next_round (several : 2 ≤ servers.length) (small : Small servers)
    {cur : Fin servers.length → ℤ} (fair : Fair (weights servers) cur) :
    ∃ b cur', Round (weights servers) cur b cur' ∧
      next (holding servers cur) = (some (servers.get b).1, holding servers cur') := by
  have length : (holding servers cur).length = servers.length := List.length_ofFn
  have nonempty : holding servers cur ≠ [] := List.ne_nil_of_length_pos (by omega)
  have nonneg := small.weights_nonneg
  have bounded := small.bounded
  rw [← sum_weights] at bounded
  have positive : 0 ≤ ∑ i, weights servers i := Finset.sum_nonneg fun j _ => nonneg j
  have twice : 2 * ∑ i, weights servers i ≤ servers.length * ∑ i, weights servers i :=
    mul_le_mul_of_nonneg_right (by exact_mod_cast several) positive
  have fits (j : Fin servers.length) : -∑ i, weights servers i < cur j + weights servers j ∧
      cur j + weights servers j < 2 ^ 63 := by
    have above := fair.above j
    have below := fair.below j
    have part := Finset.single_le_sum (fun i _ => nonneg i) (Finset.mem_univ j)
    have credit := nonneg j
    rw [Fintype.card_fin] at below
    constructor <;> omega
  obtain ⟨b, inside, most, called⟩ := nextSmoothWeighted_spec nonempty
  rw [length] at inside
  lift b to Fin servers.length using inside
  have low := (fits b).1
  have high := (fits b).2
  rw [holding_raise servers fun j => wrap_of_fits (by have := (fits j).1; omega) (fits j).2]
    at most called
  rw [holding_effective, wrap_of_fits (n := ∑ i, weights servers i) (by omega) (by omega),
    holding_pay servers (wrap_of_fits (by omega) (by omega))] at called
  refine ⟨b, _, ⟨fun j => ?_, fun j => rfl⟩, ?_⟩
  · have member : _ ∈ holding servers _ :=
      List.mem_of_getElem? (holding_get? servers (fun i => cur i + weights servers i) j)
    exact most _ member _ (holding_get? servers _ b)
  · have whole : nextWeighted (holding servers cur) = nextSmoothWeighted (holding servers cur) := by
      match shape : holding servers cur with
      | [] => exact absurd shape nonempty
      | [_] =>
        rw [shape] at length
        simp at length
        omega
      | _ :: _ :: _ => rfl
    simp only [next, whole, called, Option.bind_some, holding_get?, Option.map_some]

theorem run_rounds (several : 2 ≤ servers.length) (small : Small servers)
    (pos : 0 < ∑ i, weights servers i) (k : ℕ) {cur : Fin servers.length → ℤ}
    (fair : Fair (weights servers) cur) :
    ∃ picks cur', picks.length = k ∧ Rounds (weights servers) cur picks cur' ∧
      run next k (holding servers cur) =
        (picks.map fun b => some (servers.get b).1, holding servers cur') := by
  induction k generalizing cur with
  | zero => exact ⟨[], cur, rfl, .nil cur, rfl⟩
  | succ k ih =>
    obtain ⟨b, cur', round, called⟩ := next_round several small fair
    obtain ⟨picks, cur'', length, rounds, rest⟩ := ih (round.fair small.weights_nonneg pos fair)
    refine ⟨b :: picks, cur'', by rw [List.length_cons, length], .cons round rounds, ?_⟩
    simp only [run, called, rest, List.map_cons]

/-- As many places as their weights say. -/
def shares (servers : List (α × ℤ)) : List (Option α) :=
  servers.flatMap fun s => List.replicate s.2.toNat (some s.1)

theorem shares_of_count {picks : List (Fin servers.length)}
    (count : ∀ j, (picks.count j : ℤ) = weights servers j) :
    (picks.map fun b => some (servers.get b).1).Perm (shares servers) := by
  have places : picks.Perm ((List.finRange servers.length).flatMap fun j =>
      List.replicate (weights servers j).toNat j) := by
    rw [List.perm_iff_count]
    intro j
    have mine := count j
    rw [List.count_flatMap, ← Fin.sum_univ_def]
    simp only [Function.comp_apply, List.count_replicate, beq_iff_eq, Finset.sum_ite_eq',
      Finset.mem_univ, if_true]
    omega
  refine (places.map _).trans (List.Perm.of_eq ?_)
  rw [List.map_flatMap, shares]
  conv_rhs => rw [← List.map_get_finRange servers, List.flatMap_map]
  simp only [List.map_replicate]

theorem run_singleton (w : SmoothWeighted α) (k : ℕ) :
    run next k [w] = (List.replicate k (some w.item), [w]) := by
  induction k with
  | zero => rfl
  | succ k ih =>
    have called : next [w] = (some w.item, [w]) := rfl
    simp only [run, called, ih, List.replicate_succ]

theorem sum_toNat (nonneg : ∀ s ∈ servers, 0 ≤ s.2) :
    (((servers.map (·.2.toNat)).sum : ℕ) : ℤ) = (servers.map (·.2)).sum := by
  induction servers with
  | nil => rfl
  | cons s servers ih =>
    have first := nonneg s List.mem_cons_self
    have rest := ih fun t mem => nonneg t (List.mem_cons_of_mem _ mem)
    simp only [List.map_cons, List.sum_cons]
    omega

theorem shares_eq_nil (nothing : (servers.map (·.2.toNat)).sum = 0) : shares servers = [] := by
  rw [shares, List.flatMap_eq_nil_iff]
  intro s mem
  have zero := List.sum_eq_zero_iff.mp nothing _ (List.mem_map_of_mem mem)
  rw [zero, List.replicate_zero]

/-- After as many calls as the weights sum up to, everybody has had its share, and the balancer is
as it was. -/
theorem run_whole (small : Small servers) :
    (run next (servers.map (·.2.toNat)).sum (addAll servers)).1.Perm (shares servers) ∧
      (run next (servers.map (·.2.toNat)).sum (addAll servers)).2 = addAll servers := by
  match servers, small with
  | [], _ => exact ⟨.nil, rfl⟩
  | [s], _ =>
    rw [addAll_eq, List.map_singleton, List.map_singleton, run_singleton]
    simp [shares]
  | s :: t :: rest, small =>
    generalize held : s :: t :: rest = servers at small ⊢
    have several : 2 ≤ servers.length := by
      rw [← held, List.length_cons, List.length_cons]
      omega
    have sum := sum_toNat small.nonneg
    rw [← sum_weights] at sum
    by_cases pos : 0 < ∑ i, weights servers i
    · have even : Fair (weights servers) 0 := ⟨by simp, fun j => by simpa using pos⟩
      obtain ⟨picks, cur, length, rounds, whole⟩ :=
        run_rounds several small pos (servers.map (·.2.toNat)).sum even
      have exact := rounds.exact small.weights_nonneg pos (by rw [length, sum])
      rw [addAll_holding, whole]
      refine ⟨shares_of_count fun j => (exact j).1, ?_⟩
      exact congrArg (holding servers) (funext fun j => (exact j).2)
    · -- without weights there is no call
      have none : (servers.map (·.2.toNat)).sum = 0 := by omega
      rw [shares_eq_nil none, none]
      exact ⟨.nil, rfl⟩

/-- Whenever one starts to count, as many calls as the weights sum up to return every server as
often as its weight says, if no weight is negative and the weights are not too large. -/
theorem smooth_window_shares (servers : List (α × ℤ)) (small : Small servers) (k : ℕ) :
    (run next (servers.map (·.2.toNat)).sum (run next k (addAll servers)).2).1.Perm
      (shares servers) := by
  obtain ⟨counted, same⟩ := run_whole small
  have length := Rotation.length_run next (servers.map (·.2.toNat)).sum (addAll servers)
  refine List.Perm.trans ?_ counted
  have again (k : ℕ) :
      (run next ((run next (servers.map (·.2.toNat)).sum (addAll servers)).1.length + k)
        (addAll servers)).1 =
      (run next (servers.map (·.2.toNat)).sum (addAll servers)).1 ++
        (run next k (addAll servers)).1 := by
    rw [length, Rotation.run_add, same]
  have window := Rotation.window_perm next again k
  rwa [length] at window

theorem smooth_window_shares_five_one_one :
    (run next 7 (run next 3 (addAll [('a', 5), ('b', 1), ('c', 1)])).2).1.Perm
      (shares [('a', 5), ('b', 1), ('c', 1)]) :=
  smooth_window_shares [('a', 5), ('b', 1), ('c', 1)] ⟨by decide, by decide⟩ 3

/-- Two weights whose sum is out of range: the second call should return the second server. -/
example : (run next 2 (addAll [('a', 2 ^ 62), ('b', 2 ^ 62)])).1 = [some 'a', some 'a'] := by
  decide +kernel

end SmoothWeights
