import Vince.Transitions
import Mathlib.Data.List.Nodup
import Mathlib.Data.List.Perm.Subperm

/-!
# A work list that grows while it is walked

Each item handled appends the items `next` finds in it, with no test for items already there.
The walk ends with a list without repetitions exactly when, from the start item on, the edges
of `next` form a tree: nothing leads back to the start, no item is found twice in one item or
in two. Finiteness is needed for one direction only. It also ends, perhaps with repetitions,
where every item finds only items below it.
-/

namespace Worklist

open StateTransition Relation Transitions

universe u
variable {α : Type u} {next : α → List α} {start a b : α} {queue : List α}

structure Walk (α : Type u) where
  done : List α
  pending : List α

def step (next : α → List α) : Walk α → Option (Walk α)
  | ⟨_, []⟩ => none
  | ⟨done, a :: pending⟩ => some ⟨done ++ [a], pending ++ next a⟩

/-- The walk from the start item ends, having handled the items of the queue in this order. -/
def Drains (next : α → List α) (start : α) (queue : List α) : Prop :=
  Reaches (step next) ⟨[], [start]⟩ ⟨queue, []⟩

def Reachable (next : α → List α) (start : α) : α → Prop :=
  ReflTransGen (fun a b => b ∈ next a) start

structure TreeShaped (next : α → List α) (start : α) : Prop where
  root : ∀ a, Reachable next start a → start ∉ next a
  nodup : ∀ a, Reachable next start a → (next a).Nodup
  disjoint : ∀ a b, Reachable next start a → Reachable next start b → a ≠ b →
    (next a).Disjoint (next b)

/-- What holds all along the walk. -/
structure Inv (next : α → List α) (start : α) (w : Walk α) : Prop where
  queue_eq : w.done ++ w.pending = start :: w.done.flatMap next
  reachable : ∀ a ∈ w.done ++ w.pending, Reachable next start a

theorem inv_start : Inv next start ⟨[], [start]⟩ where
  queue_eq := rfl
  reachable := by
    intro a mem
    rw [List.nil_append, List.mem_singleton] at mem
    exact mem ▸ .refl

theorem step_cases {w w' : Walk α} (edge : step next w = some w') :
    ∃ a pending, w.pending = a :: pending ∧ w' = ⟨w.done ++ [a], pending ++ next a⟩ := by
  obtain ⟨done, _ | ⟨a, pending⟩⟩ := w
  · cases edge
  · cases edge
    exact ⟨a, pending, rfl, rfl⟩

theorem inv_step {w w' : Walk α} (inv : Inv next start w) (edge : step next w = some w') :
    Inv next start w' := by
  obtain ⟨a, pending, shape, rfl⟩ := step_cases edge
  obtain ⟨queue_eq, reachable⟩ := inv
  rw [shape] at queue_eq reachable
  refine ⟨?_, ?_⟩
  · rw [List.flatMap_append, ← List.cons_append, ← queue_eq]
    simp
  · intro b mem
    have old : b ∈ w.done ++ a :: pending ∨ b ∈ next a := by
      simp only [List.mem_append, List.mem_cons] at mem ⊢
      tauto
    rcases old with mem | mem
    · exact reachable b mem
    · exact (reachable a (by simp)).tail mem

theorem inv_reaches {w w' : Walk α} (inv : Inv next start w) (path : Reaches (step next) w w') :
    Inv next start w' := by
  induction path with
  | refl => exact inv
  | tail _ edge ih => exact inv_step ih edge

theorem done_subset {w w' : Walk α} (path : Reaches (step next) w w') : w.done ⊆ w'.done := by
  induction path with
  | refl => exact List.Subset.refl _
  | tail _ edge ih =>
    obtain ⟨a, pending, -, rfl⟩ := step_cases edge
    exact List.Subset.trans ih (List.subset_append_left _ _)

/-- The items handled are the reachable ones. -/
theorem Drains.mem_iff (drains : Drains next start queue) :
    a ∈ queue ↔ Reachable next start a := by
  obtain ⟨queue_eq, reachable⟩ := inv_reaches inv_start drains
  simp only [List.append_nil] at queue_eq reachable
  refine ⟨reachable a, fun path => ?_⟩
  induction path with
  | refl => rw [queue_eq]; exact List.mem_cons_self
  | tail _ edge ih =>
    rw [queue_eq]
    exact List.mem_cons_of_mem _ (List.mem_flatMap.mpr ⟨_, ih, edge⟩)

theorem Drains.treeShaped (drains : Drains next start queue) (nodup : queue.Nodup) :
    TreeShaped next start := by
  have queue_eq := (inv_reaches inv_start drains).queue_eq
  simp only [List.append_nil] at queue_eq
  have parts := nodup
  rw [queue_eq, List.nodup_cons, List.nodup_flatMap] at parts
  obtain ⟨root, each, apart⟩ := parts
  refine ⟨fun a path mem => ?_, fun a path => each a (drains.mem_iff.mpr path),
    fun a b pathA pathB differ => ?_⟩
  · exact root (List.mem_flatMap.mpr ⟨a, drains.mem_iff.mpr path, mem⟩)
  · have : Std.Symm (Function.onFun List.Disjoint next) := ⟨fun _ _ h => List.Disjoint.symm h⟩
    exact apart.forall (drains.mem_iff.mpr pathA) (drains.mem_iff.mpr pathB) differ

/-- Where every item finds another, the walk never ends. -/
theorem not_drains (busy : ∀ a, Reachable next start a → next a ≠ []) :
    ¬ Drains next start queue := by
  intro drains
  have pending : ∀ {w}, Reaches (step next) ⟨[], [start]⟩ w → w.pending ≠ [] := by
    intro w path
    cases path with
    | refl => simp
    | tail path edge =>
      obtain ⟨a, rest, shape, rfl⟩ := step_cases edge
      have reached := (inv_reaches inv_start path).reachable a (by simp [shape])
      simp [busy a reached]
  exact pending drains rfl

theorem nodup_step {w w' : Walk α} (tree : TreeShaped next start) (inv : Inv next start w)
    (nodup : (w.done ++ w.pending).Nodup) (edge : step next w = some w') :
    (w'.done ++ w'.pending).Nodup := by
  have inv' := inv_step inv edge
  have handled : w'.done.Nodup := by
    obtain ⟨a, pending, shape, rfl⟩ := step_cases edge
    rw [shape] at nodup
    exact nodup.sublist (by simp)
  have reached : ∀ a ∈ w'.done, Reachable next start a :=
    fun a mem => inv'.reachable a (List.mem_append_left _ mem)
  rw [inv'.queue_eq, List.nodup_cons, List.nodup_flatMap]
  refine ⟨fun mem => ?_, fun a mem => tree.nodup a (reached a mem), ?_⟩
  · obtain ⟨a, memDone, mem⟩ := List.mem_flatMap.mp mem
    exact tree.root a (reached a memDone) mem
  · refine handled.imp_of_mem ?_
    intro a b memA memB differ
    exact tree.disjoint a b (reached a memA) (reached b memB) differ

theorem nodup_reaches {w : Walk α} (tree : TreeShaped next start)
    (path : Reaches (step next) ⟨[], [start]⟩ w) : (w.done ++ w.pending).Nodup := by
  induction path with
  | refl => simp
  | tail path edge ih => exact nodup_step tree (inv_reaches inv_start path) ih edge

/-- As long as items are pending, every step has handled one. -/
theorem length_run (n : Nat) (w : Walk α) (busy : (run (step next) n w).pending ≠ []) :
    (run (step next) n w).done.length = w.done.length + n := by
  induction n generalizing w with
  | zero => rfl
  | succ n ih =>
    cases edge : step next w with
    | none =>
      simp only [run, edge] at busy
      obtain ⟨done, _ | ⟨a, pending⟩⟩ := w
      · exact absurd rfl busy
      · cases edge
    | some w' =>
      simp only [run, edge] at busy ⊢
      obtain ⟨a, pending, -, rfl⟩ := step_cases edge
      rw [ih _ busy, List.length_append, List.length_singleton]
      omega

/-- Over finitely many items, a tree is walked to its end, each item once. -/
theorem TreeShaped.drains (tree : TreeShaped next start) (items : List α)
    (finite : ∀ a, Reachable next start a → a ∈ items) :
    ∃ queue, Drains next start queue ∧ queue.Nodup := by
  have path : Reaches (step next) ⟨[], [start]⟩
      (run (step next) (items.length + 1) ⟨[], [start]⟩) :=
    reaches_run _ _
  have length : (run (step next) (items.length + 1) ⟨[], [start]⟩).pending ≠ [] → _ :=
    length_run (items.length + 1) ⟨[], [start]⟩
  generalize run (step next) (items.length + 1) ⟨[], [start]⟩ = w at path length
  have nodup := nodup_reaches tree path
  obtain ⟨done, pending⟩ := w
  have bound : done.length ≤ items.length := by
    have handled : done.Nodup := nodup.sublist (List.sublist_append_left _ _)
    refine (List.subperm_of_subset handled fun a mem => finite a ?_).length_le
    exact (inv_reaches inv_start path).reachable a (List.mem_append_left _ mem)
  cases pending with
  | nil => exact ⟨done, path, by simpa using nodup⟩
  | cons a pending =>
    have := length (by simp)
    simp only [List.length_nil] at this
    omega

/-- Handling all that is pending leaves what they find, behind what was pending later. -/
theorem walk_through (done pending later : List α) :
    Reaches (step next) ⟨done, pending ++ later⟩
      ⟨done ++ pending, later ++ pending.flatMap next⟩ := by
  induction pending generalizing done later with
  | nil =>
    rw [List.nil_append, List.append_nil, List.flatMap_nil, List.append_nil]
    exact .refl
  | cons a pending ih =>
    have rest := ih (done ++ [a]) (later ++ next a)
    rw [List.append_assoc done, List.append_assoc later, ← List.append_assoc pending] at rest
    exact .head rfl rest

/-- Where every item finds lower ones only, the walk comes to its end. -/
theorem drains_of_rank {rank : α → Nat} (acyclic : ∀ a, ∀ b ∈ next a, rank b < rank a)
    (start : α) : ∃ queue, Drains next start queue := by
  suffices ends : ∀ bound done pending, (∀ a ∈ pending, rank a < bound) →
      ∃ queue, Reaches (step next) ⟨done, pending⟩ ⟨queue, []⟩ from
    ends (rank start + 1) [] [start] (by simp)
  intro bound
  induction bound with
  | zero =>
    intro done pending low
    have empty : pending = [] := List.eq_nil_iff_forall_not_mem.mpr
      fun a mem => absurd (low a mem) (Nat.not_lt_zero _)
    exact ⟨done, empty ▸ .refl⟩
  | succ bound ih =>
    intro done pending low
    have first := @walk_through _ next done pending []
    rw [List.append_nil, List.nil_append] at first
    have lower : ∀ b ∈ pending.flatMap next, rank b < bound := by
      intro b mem
      obtain ⟨a, memA, edge⟩ := List.mem_flatMap.mp mem
      have := low a memA
      have := acyclic a b edge
      omega
    obtain ⟨queue, rest⟩ := ih (done ++ pending) _ lower
    exact ⟨queue, first.trans rest⟩

end Worklist
