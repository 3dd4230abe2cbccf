import Vince.RuleCollect

/-!
# The heap of rules and the tree

What the heap means: the rule of `ServerRules` that a pointer stands for, and the `Place` of a rule
in its tree. `collect` refines what a place collects.
-/

namespace RuleHeap

open GoText ConfigAnalyze GoSlices

open ServerRules (Rule Parent Place)

variable {growth : Growth} {h h' : Heap} {r : ℕ}

mutual

def Denotes (h : Heap) : Rule → ℕ → Prop
  | ⟨name, args, children⟩, r =>
    h.label r = some (name, args) ∧ DenotesAll h children (h.children r)
termination_by structural rule => rule

def DenotesAll (h : Heap) : List Rule → List ℕ → Prop
  | [], rs => rs = []
  | rule :: rules, rs => ∃ r rest, rs = r :: rest ∧ Denotes h rule r ∧ DenotesAll h rules rest
termination_by structural rules => rules

end

theorem denotesAll_iff (rules : List Rule) (rs : List ℕ) :
    DenotesAll h rules rs ↔ List.Forall₂ (Denotes h) rules rs := by
  induction rules generalizing rs with
  | nil => rw [DenotesAll, List.forall₂_nil_left_iff]
  | cons rule rules ih =>
    rw [DenotesAll, List.forall₂_cons_left_iff]
    constructor
    · rintro ⟨r, rest, rfl, first, others⟩
      exact ⟨r, rest, first, (ih rest).mp others, rfl⟩
    · rintro ⟨r, rest, first, others, rfl⟩
      exact ⟨r, rest, rfl, first, (ih rest).mpr others⟩

theorem label_inside {label : Text × List Text} (found : h.label r = some label) :
    r < h.nodes.length := by
  obtain ⟨node, here, -⟩ := Option.map_eq_some_iff.mp found
  exact (List.getElem?_eq_some_iff.mp here).1

mutual

/-- What a pointer stands for depends on the rules from there on only. -/
theorem Denotes.frame {m : ℕ} (good : Good h)
    (same : ∀ n, m ≤ n → n < h.nodes.length → Same h h' n) (rule : Rule) (r : ℕ) (from' : m ≤ r)
    (denotes : Denotes h rule r) : Denotes h' rule r := by
  match rule with
  | ⟨name, args, children⟩ =>
    rw [Denotes] at denotes ⊢
    have here := same r from' (label_inside denotes.1)
    refine ⟨here.label.trans denotes.1, ?_⟩
    rw [here.2]
    refine DenotesAll.frame good same children _ (fun c child => ?_) denotes.2
    exact Nat.le_trans from' (Nat.le_of_lt (good.down r c child).1)
termination_by structural rule

theorem DenotesAll.frame {m : ℕ} (good : Good h)
    (same : ∀ n, m ≤ n → n < h.nodes.length → Same h h' n) (rules : List Rule) (rs : List ℕ)
    (from' : ∀ r ∈ rs, m ≤ r) (denotes : DenotesAll h rules rs) : DenotesAll h' rules rs := by
  match rules with
  | [] =>
    rw [DenotesAll] at denotes ⊢
    exact denotes
  | rule :: rules =>
    rw [DenotesAll] at denotes ⊢
    obtain ⟨r, rest, rfl, first, others⟩ := denotes
    rw [List.forall_mem_cons] at from'
    exact ⟨r, rest, rfl, Denotes.frame good same rule r from'.1 first,
      DenotesAll.frame good same rules rest from'.2 others⟩
termination_by structural rules

end

/-- The children so far and the one that is added. -/
theorem denotes_child (growth : Growth) (inside : r < h.nodes.length) (good : Good h)
    {made : ℕ × Heap} (spec : Made (some r) h made) {done : List Rule} {rule : Rule}
    (so_far : DenotesAll h done (h.children r)) (next : Denotes made.2 rule made.1) :
    DenotesAll (made.2.addChild growth r made.1) (done ++ [rule])
      ((made.2.addChild growth r made.1).children r) := by
  have inside' : r < made.2.nodes.length := Nat.lt_trans inside spec.inside
  have same : ∀ n, r + 1 ≤ n → n < made.2.nodes.length →
      Same made.2 (made.2.addChild growth r made.1) n := by
    intro n after _
    have other : n ≠ r := by omega
    exact ⟨addChild_old other, (addChild_others spec.good other).1⟩
  have kept : DenotesAll made.2 done (h.children r) := by
    refine DenotesAll.frame good (fun n _ below => spec.same n below) done _ ?_ so_far (m := 0)
    exact fun _ _ => Nat.zero_le _
  rw [addChild_children spec.good inside', (spec.same r inside).2, denotesAll_iff]
  refine List.rel_append ?_ (.cons ?_ .nil)
  · rw [← denotesAll_iff]
    exact DenotesAll.frame spec.good same done _ (fun c child => (good.down r c child).1) kept
  · refine Denotes.frame spec.good same rule made.1 ?_ next
    rw [spec.address]
    exact inside

theorem denotes_alloc (parent : Option ℕ) (name : Text) (args : List Text) :
    Denotes (h.alloc parent name args) ⟨name, args, []⟩ h.nodes.length := by
  rw [Denotes, DenotesAll, Heap.label, alloc_new, alloc_children, Heap.children,
    slice_outside (Nat.le_refl _)]
  exact ⟨rfl, rfl⟩

mutual

theorem denotes_ruleFromStmt (growth : Growth) (stmt : Stmt) (parent : Option ℕ) (h : Heap)
    (good : Good h) :
    Denotes (ruleFromStmt growth stmt parent h).2 (ServerRules.ruleFromStmt stmt)
      (ruleFromStmt growth stmt parent h).1 := by
  match stmt with
  | ⟨directive, _, _, args, _, _, none⟩ => exact denotes_alloc parent directive args
  | ⟨directive, _, _, args, _, _, some body⟩ =>
    have spec := made_alloc good parent directive args
    have fresh : Denotes _ _ _ := denotes_alloc parent directive args (h := h)
    have filled := filled_rulesFromStmts growth body _ _ spec.good spec.inside spec.hung
    rw [Denotes] at fresh
    rw [ServerRules.ruleFromStmt, Denotes]
    exact ⟨filled.label.trans fresh.1, denotes_rulesFromStmts growth body _ _ spec.good
      spec.inside spec.hung [] fresh.2⟩
termination_by structural stmt

theorem denotes_rulesFromStmts (growth : Growth) (stmts : List Stmt) (r : ℕ) (h : Heap)
    (good : Good h) (inside : r < h.nodes.length) (hung : Hung r h) (done : List Rule)
    (so_far : DenotesAll h done (h.children r)) :
    DenotesAll (rulesFromStmts growth stmts r h) (done ++ ServerRules.rulesFromStmts stmts)
      ((rulesFromStmts growth stmts r h).children r) := by
  match stmts with
  | [] =>
    rw [ServerRules.rulesFromStmts, List.append_nil]
    exact so_far
  | stmt :: rest =>
    have spec := made_ruleFromStmt growth stmt (some r) h good
    have round := filled_child growth inside hung good spec
    have next := denotes_ruleFromStmt growth stmt (some r) h good
    have longer := denotes_child growth inside good spec so_far next
    have all := denotes_rulesFromStmts growth rest r _ round.good
      (Nat.lt_of_lt_of_le inside round.grows) round.hung _ longer
    rw [List.append_assoc] at all
    exact all
termination_by structural stmts

end

/-- The address of the rule at a place of a tree: one goes down by the positions of the children. -/
inductive At (h : Heap) (root : Rule) (top : ℕ) : Place → ℕ → Prop
  | root : At h root top ⟨root, []⟩ top
  | child {name : Text} {args : List Text} {before after : List Rule} {rule : Rule}
    {parents : List Parent} {p c : ℕ} :
    At h root top ⟨⟨name, args, before ++ rule :: after⟩, parents⟩ p →
    (h.children p)[before.length]? = some c →
    At h root top ⟨rule, ⟨name, args, before⟩ :: parents⟩ c

/-- The pointers before a position are those up to the pointer there. -/
theorem takeWhile_position {c : ℕ} {rs : List ℕ} {i : ℕ} (nodup : rs.Nodup)
    (here : rs[i]? = some c) : rs.takeWhile (· ≠ c) = rs.take i := by
  obtain ⟨inside, same⟩ := List.getElem?_eq_some_iff.mp here
  have split : rs = rs.take i ++ c :: rs.drop (i + 1) := by
    rw [← same, ← List.drop_eq_getElem_cons inside, List.take_append_drop]
  have new : c ∉ rs.take i := by
    rw [split] at nodup
    exact fun mem => List.disjoint_of_nodup_append nodup mem List.mem_cons_self
  conv_lhs => rw [split]
  rw [List.takeWhile_append_of_pos fun x mem => by simpa using ne_of_mem_of_not_mem mem new,
    List.takeWhile_cons_of_neg (by simp), List.append_nil]

/-- The rule there stands for the one of the place, and what it collects for what the place
collects. -/
theorem at_collects {root : Rule} {top : ℕ} (good : Good h) (denotes : Denotes h root top)
    (orphan : h.parent top = none) {place : Place} (at' : At h root top place r) :
    ∃ ps, Line h r ps ∧ Denotes h place.rule r ∧
      List.Forall₂ (Denotes h) (ServerRules.collectBefore place.parents) (inherited h r ps) := by
  induction at' with
  | root =>
    obtain ⟨name, args, children⟩ := root
    have inside : top < h.nodes.length := by
      rw [Denotes] at denotes
      exact label_inside denotes.1
    exact ⟨[], .root inside orphan, denotes, .nil⟩
  | @child name args before after rule parents p c _ position ih =>
    obtain ⟨ps, line, here, above⟩ := ih
    rw [Denotes, denotesAll_iff] at here
    have first := List.forall₂_take before.length here.2
    have rest := List.forall₂_drop before.length here.2
    obtain ⟨inside, rfl⟩ := List.getElem?_eq_some_iff.mp position
    rw [List.take_left] at first
    rw [List.drop_left, List.drop_eq_getElem_cons inside, List.forall₂_cons] at rest
    have child := List.getElem_mem inside
    refine ⟨p :: ps, line.child child (good.down p _ child).2.2, rest.1, ?_⟩
    rw [inherited, takeWhile_position (good.nodup p) position]
    exact List.rel_append above first

/-- What `collect(nil)` returns at a place of the tree that was built stands for what the place
collects. -/
theorem collect_refines_place (reached : Reached growth h) (stmt : Stmt) {made : ℕ × Heap}
    (built : made = ruleFromStmt growth stmt none h) {place : Place}
    (at' : At made.2 (ServerRules.ruleFromStmt stmt) made.1 place r) :
    List.Forall₂ (Denotes made.2) place.collect (collected growth made.2 r) := by
  have spec := made_ruleFromStmt growth stmt none h reached.good.1
  have denotes := denotes_ruleFromStmt growth stmt none h reached.good.1
  subst built
  obtain ⟨ps, line, here, above⟩ := at_collects spec.good denotes (spec.address ▸ spec.points) at'
  rw [collected_eq growth spec.good line]
  refine List.rel_append above ?_
  rw [← denotesAll_iff]
  obtain ⟨⟨name, args, children⟩, parents⟩ := place
  rw [Denotes] at here
  exact here.2

end RuleHeap
