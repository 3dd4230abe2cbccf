import Vince.GoSlices
import Vince.ServerRules

/-!
# Rules as they lie in memory (`ngx_startup.go`)

Rules with their parent pointers and their slices of children, as `ruleFromStmt` builds them. A
rule is known by its address, which is what the source compares; addresses are given out in order,
so that a child's address is greater than its parent's. How much `append` allocates is a parameter.
-/

namespace RuleHeap

open GoText ConfigAnalyze GoSlices

structure Node where
  parent : Option ℕ
  name : Text
  args : List Text
  children : Option Slice

structure Heap where
  nodes : List Node
  mem : Memory ℕ

def Heap.empty : Heap := ⟨[], []⟩

def Heap.slice (h : Heap) (r : ℕ) : Option Slice := (h.nodes[r]?).bind (·.children)

def Heap.children (h : Heap) (r : ℕ) : List ℕ := contents h.mem (h.slice r)

def Heap.parent (h : Heap) (r : ℕ) : Option ℕ := (h.nodes[r]?).bind (·.parent)

def Heap.label (h : Heap) (r : ℕ) : Option (Text × List Text) :=
  (h.nodes[r]?).map fun node => (node.name, node.args)

/-- Reading rules at their addresses. -/
abbrev Heap.rules (h : Heap) : ServerRules.RulePtr ℕ where
  name r := ((h.label r).map Prod.fst).getD []
  args r := ((h.label r).map Prod.snd).getD []
  children := h.children

/-- `&rule{name: directive, parent: parent, args: args}`. -/
def Heap.alloc (h : Heap) (parent : Option ℕ) (name : Text) (args : List Text) : Heap :=
  { h with nodes := h.nodes ++ [⟨parent, name, args, none⟩] }

/-- `r.children = append(r.children, c)`. -/
def Heap.addChild (growth : Growth) (h : Heap) (r c : ℕ) : Heap :=
  let result := append growth h.mem (h.slice r) [c]
  ⟨h.nodes.modify r ({ · with children := result.1 }), result.2⟩

mutual

def ruleFromStmt (growth : Growth) : Stmt → Option ℕ → Heap → ℕ × Heap
  | ⟨directive, _, _, args, _, _, none⟩, parent, h =>
    (h.nodes.length, h.alloc parent directive args)
  | ⟨directive, _, _, args, _, _, some body⟩, parent, h =>
    (h.nodes.length,
      rulesFromStmts growth body h.nodes.length (h.alloc parent directive args))
termination_by structural stmt => stmt

/-- The loop over the block of the statement of `r`. -/
def rulesFromStmts (growth : Growth) : List Stmt → ℕ → Heap → Heap
  | [], _, h => h
  | stmt :: rest, r, h =>
    let made := ruleFromStmt growth stmt (some r) h
    rulesFromStmts growth rest r (made.2.addChild growth r made.1)
termination_by structural stmts => stmts

end

/-! ## What building keeps -/

/-- Slices are there, and no two rules share an array; children come after their parent and point
back to it, in the order in which they were made. -/
structure Good (h : Heap) : Prop where
  valid : ∀ r, Valid h.mem (h.slice r)
  apart : ∀ r r', ∀ t ∈ h.slice r, ∀ t' ∈ h.slice r', t.array = t'.array → r = r'
  down : ∀ r, ∀ c ∈ h.children r, r < c ∧ c < h.nodes.length ∧ h.parent c = some r
  ordered : ∀ r, (h.children r).Pairwise (· < ·)

/-- The rule at `r` is the same and has the same children. -/
def Same (h h' : Heap) (r : ℕ) : Prop :=
  h'.nodes[r]? = h.nodes[r]? ∧ h'.children r = h.children r

/-- The rules after `n` hang in the tree of the one at `n`. -/
def Hung (n : ℕ) (h : Heap) : Prop :=
  ∀ c, n < c → c < h.nodes.length → ∃ p, n ≤ p ∧ c ∈ h.children p

variable {growth : Growth} {h h' h'' : Heap} {n r c : ℕ}

theorem good_empty : Good Heap.empty := by
  constructor <;> simp [Heap.empty, Heap.slice, Heap.children, Valid, contents]

theorem Same.trans (first : Same h h' r) (second : Same h' h'' r) : Same h h'' r :=
  ⟨second.1.trans first.1, second.2.trans first.2⟩

theorem Same.parent (same : Same h h' r) : h'.parent r = h.parent r := by
  rw [Heap.parent, Heap.parent, same.1]

theorem Same.label (same : Same h h' r) : h'.label r = h.label r := by
  rw [Heap.label, Heap.label, same.1]

section Alloc

variable (parent : Option ℕ) (name : Text) (args : List Text)

theorem alloc_length : (h.alloc parent name args).nodes.length = h.nodes.length + 1 := by
  simp [Heap.alloc]

theorem alloc_old (below : r < h.nodes.length) :
    (h.alloc parent name args).nodes[r]? = h.nodes[r]? :=
  List.getElem?_append_left below

theorem alloc_new :
    (h.alloc parent name args).nodes[h.nodes.length]? = some ⟨parent, name, args, none⟩ := by
  simp [Heap.alloc]

theorem alloc_slice (r : ℕ) : (h.alloc parent name args).slice r = h.slice r := by
  by_cases below : r < h.nodes.length
  · rw [Heap.slice, alloc_old parent name args below, Heap.slice]
  · have out : h.nodes[r]? = none := List.getElem?_eq_none (by omega)
    rw [Heap.slice, Heap.slice, out]
    by_cases here : r = h.nodes.length
    · rw [here, alloc_new]
      rfl
    · rw [List.getElem?_eq_none (by rw [alloc_length]; omega)]

theorem alloc_children (r : ℕ) : (h.alloc parent name args).children r = h.children r := by
  rw [Heap.children, alloc_slice]
  rfl

theorem same_alloc (below : r < h.nodes.length) : Same h (h.alloc parent name args) r :=
  ⟨alloc_old parent name args below, alloc_children parent name args r⟩

theorem Good.alloc (good : Good h) : Good (h.alloc parent name args) where
  valid r := by
    rw [alloc_slice]
    exact good.valid r
  apart r r' := by
    rw [alloc_slice, alloc_slice]
    exact good.apart r r'
  down r c child := by
    rw [alloc_children] at child
    obtain ⟨less, below, points⟩ := good.down r c child
    refine ⟨less, ?_, (same_alloc parent name args below).parent.trans points⟩
    rw [alloc_length]
    omega
  ordered r := by
    rw [alloc_children]
    exact good.ordered r

end Alloc

/-! `addChild` writes into the array of `r` or a new one, and no other rule is in either. -/

theorem slice_outside (out : h.nodes.length ≤ r) : h.slice r = none := by
  rw [Heap.slice, List.getElem?_eq_none out]
  rfl

section AddChild

theorem addChild_length : (h.addChild growth r c).nodes.length = h.nodes.length := by
  simp [Heap.addChild]

theorem addChild_node (n : ℕ) :
    (h.addChild growth r c).nodes[n]? = (h.nodes[n]?).map fun node =>
      if r = n then { node with children := (append growth h.mem (h.slice r) [c]).1 }
      else node := by
  rw [Heap.addChild, List.getElem?_modify]
  rfl

theorem addChild_old (other : n ≠ r) :
    (h.addChild growth r c).nodes[n]? = h.nodes[n]? := by
  rw [addChild_node]
  simp [other.symm]

theorem addChild_slice_old (other : n ≠ r) :
    (h.addChild growth r c).slice n = h.slice n := by
  rw [Heap.slice, addChild_old other, Heap.slice]

theorem addChild_slice (inside : r < h.nodes.length) :
    (h.addChild growth r c).slice r = (append growth h.mem (h.slice r) [c]).1 := by
  rw [Heap.slice, addChild_node, List.getElem?_eq_getElem inside]
  simp

theorem addChild_parent (n : ℕ) : (h.addChild growth r c).parent n = h.parent n := by
  rw [Heap.parent, Heap.parent, addChild_node]
  cases h.nodes[n]? with
  | none => rfl
  | some node => by_cases here : r = n <;> simp [here]

theorem addChild_label (n : ℕ) : (h.addChild growth r c).label n = h.label n := by
  rw [Heap.label, Heap.label, addChild_node]
  cases h.nodes[n]? with
  | none => rfl
  | some node => by_cases here : r = n <;> simp [here]

variable (good : Good h) (inside : r < h.nodes.length)
include good

theorem appended_child : Appended h.mem (h.slice r) [c] (append growth h.mem (h.slice r) [c]) :=
  appended_append growth (good.valid r) [c]

theorem addChild_others (other : n ≠ r) :
    (h.addChild growth r c).children n = h.children n ∧
      Valid (h.addChild growth r c).mem (h.slice n) := by
  have below := (good.valid n).below
  have kept : ∀ t ∈ h.slice n, (h.addChild growth r c).mem[t.array]? = h.mem[t.array]? := by
    intro t here
    refine (appended_child good).others t.array (below t here) fun t' mine same => ?_
    exact other (good.apart n r t here t' mine same.symm)
  constructor
  · rw [Heap.children, addChild_slice_old other, Heap.children]
    cases slice : h.slice n with
    | none => rfl
    | some t => rw [contents, contents, kept t slice]
  · intro t here
    rw [kept t here]
    exact good.valid n t here

include inside

theorem addChild_children :
    (h.addChild growth r c).children r = h.children r ++ [c] := by
  rw [Heap.children, addChild_slice inside]
  exact (appended_child good).contents_eq

theorem addChild_apart (other : n ≠ r) (t t' : Slice)
    (mine : t ∈ (h.addChild growth r c).slice r) (theirs : t' ∈ h.slice n) :
    t.array ≠ t'.array := by
  intro same
  rw [addChild_slice inside] at mine
  rcases (appended_child good).array t mine with ⟨old, here, at_old⟩ | fresh
  · exact other (good.apart n r t' theirs old here (same.symm.trans at_old))
  · have below := (good.valid n).below t' theirs
    omega

theorem Good.addChild (last : ∀ x ∈ h.children r, x < c) (after : r < c)
    (made : c < h.nodes.length) (points : h.parent c = some r) :
    Good (h.addChild growth r c) where
  valid n := by
    by_cases here : n = r
    · rw [here, addChild_slice inside]
      exact (appended_child good).valid
    · rw [addChild_slice_old here]
      exact (addChild_others good here).2
  apart n n' t mine t' theirs same := by
    by_cases here : n = r <;> by_cases here' : n' = r
    · rw [here, here']
    · subst here
      rw [addChild_slice_old here'] at theirs
      exact absurd same (addChild_apart good inside here' t t' mine theirs)
    · subst here'
      rw [addChild_slice_old here] at mine
      exact absurd same.symm (addChild_apart good inside here t' t theirs mine)
    · rw [addChild_slice_old here] at mine
      rw [addChild_slice_old here'] at theirs
      exact good.apart n n' t mine t' theirs same
  down n x child := by
    rw [addChild_length, addChild_parent]
    by_cases here : n = r
    · subst here
      rw [addChild_children good inside, List.mem_append, List.mem_singleton] at child
      rcases child with child | rfl
      · exact good.down n x child
      · exact ⟨after, made, points⟩
    · rw [(addChild_others good here).1] at child
      exact good.down n x child
  ordered n := by
    by_cases here : n = r
    · subst here
      rw [addChild_children good inside, List.pairwise_append]
      refine ⟨good.ordered n, List.pairwise_singleton _ _, fun x child y rest => ?_⟩
      rw [List.mem_singleton.mp rest]
      exact last x child
    · rw [(addChild_others good here).1]
      exact good.ordered n

end AddChild

/-! ## Building a tree -/

/-- What `ruleFromStmt` returns: the next address, with the rules before it as they were. -/
structure Made (parent : Option ℕ) (h : Heap) (made : ℕ × Heap) : Prop where
  address : made.1 = h.nodes.length
  good : Good made.2
  inside : h.nodes.length < made.2.nodes.length
  same : ∀ r < h.nodes.length, Same h made.2 r
  points : made.2.parent h.nodes.length = parent
  hung : Hung h.nodes.length made.2

/-- What the loop over the block of `r` does. -/
structure Filled (r : ℕ) (h h' : Heap) : Prop where
  good : Good h'
  grows : h.nodes.length ≤ h'.nodes.length
  same : ∀ n < h.nodes.length, n ≠ r → Same h h' n
  points : h'.parent r = h.parent r
  label : h'.label r = h.label r
  hung : Hung r h'

theorem Filled.refl (good : Good h) (hung : Hung r h) : Filled r h h :=
  ⟨good, Nat.le_refl _, fun _ _ _ => ⟨rfl, rfl⟩, rfl, rfl, hung⟩

theorem Filled.trans (first : Filled r h h') (second : Filled r h' h'') : Filled r h h'' where
  good := second.good
  grows := Nat.le_trans first.grows second.grows
  same n below other :=
    (first.same n below other).trans
      (second.same n (Nat.lt_of_lt_of_le below first.grows) other)
  points := second.points.trans first.points
  label := second.label.trans first.label
  hung := second.hung

/-- One round of the loop. -/
theorem filled_child (growth : Growth) (inside : r < h.nodes.length) (hung : Hung r h)
    (good : Good h) {made : ℕ × Heap} (spec : Made (some r) h made) :
    Filled r h (made.2.addChild growth r made.1) := by
  have inside' : r < made.2.nodes.length := Nat.lt_trans inside spec.inside
  have kept : made.2.children r = h.children r := (spec.same r inside).2
  have extended : Good (made.2.addChild growth r made.1) := by
    refine spec.good.addChild inside' ?_ ?_ ?_ ?_
    · intro x child
      rw [kept] at child
      rw [spec.address]
      exact (good.down r x child).2.1
    · rw [spec.address]
      exact inside
    · rw [spec.address]
      exact spec.inside
    · rw [spec.address]
      exact spec.points
  refine ⟨extended, ?_, ?_, ?_, ?_, ?_⟩
  · rw [addChild_length]
    exact Nat.le_of_lt spec.inside
  · intro n below other
    exact (spec.same n below).trans ⟨addChild_old other, (addChild_others spec.good other).1⟩
  · rw [addChild_parent]
    exact (spec.same r inside).parent
  · rw [addChild_label]
    exact (spec.same r inside).label
  · intro c after below
    rw [addChild_length] at below
    -- An older rule, the new one, or a rule of its tree.
    rcases Nat.lt_trichotomy c h.nodes.length with older | new | younger
    · obtain ⟨p, from', child⟩ := hung c after older
      refine ⟨p, from', ?_⟩
      by_cases here : p = r
      · rw [here, addChild_children spec.good inside', kept, List.mem_append]
        exact .inl (here ▸ child)
      · have parent_below : p < h.nodes.length := by
          have := (good.down p c child).1
          omega
        rw [(addChild_others spec.good here).1, (spec.same p parent_below).2]
        exact child
    · refine ⟨r, Nat.le_refl r, ?_⟩
      rw [addChild_children spec.good inside', spec.address, new]
      simp
    · obtain ⟨p, from', child⟩ := spec.hung c younger below
      refine ⟨p, by omega, ?_⟩
      rw [(addChild_others spec.good (by omega : p ≠ r)).1]
      exact child

theorem made_alloc (good : Good h) (parent : Option ℕ) (name : Text) (args : List Text) :
    Made parent h (h.nodes.length, h.alloc parent name args) where
  address := rfl
  good := good.alloc parent name args
  inside := by
    rw [alloc_length]
    omega
  same _ below := same_alloc parent name args below
  points := by
    rw [Heap.parent, alloc_new]
    rfl
  hung c after below := by
    rw [alloc_length] at below
    omega

theorem Made.filled {parent : Option ℕ} (spec : Made parent h (h.nodes.length, h'))
    (filled : Filled h.nodes.length h' h'') : Made parent h (h.nodes.length, h'') where
  address := rfl
  good := filled.good
  inside := Nat.lt_of_lt_of_le spec.inside filled.grows
  same r below := (spec.same r below).trans
    (filled.same r (Nat.lt_trans below spec.inside) (Nat.ne_of_lt below))
  points := filled.points.trans spec.points
  hung := filled.hung

mutual

theorem made_ruleFromStmt (growth : Growth) (stmt : Stmt) (parent : Option ℕ) (h : Heap)
    (good : Good h) : Made parent h (ruleFromStmt growth stmt parent h) := by
  match stmt with
  | ⟨directive, _, _, args, _, _, none⟩ => exact made_alloc good parent directive args
  | ⟨directive, _, _, args, _, _, some body⟩ =>
    have spec := made_alloc good parent directive args
    exact spec.filled (filled_rulesFromStmts growth body _ _ spec.good spec.inside spec.hung)
termination_by structural stmt

theorem filled_rulesFromStmts (growth : Growth) (stmts : List Stmt) (r : ℕ) (h : Heap)
    (good : Good h) (inside : r < h.nodes.length) (hung : Hung r h) :
    Filled r h (rulesFromStmts growth stmts r h) := by
  match stmts with
  | [] => exact Filled.refl good hung
  | stmt :: rest =>
    have round := filled_child growth inside hung good
      (made_ruleFromStmt growth stmt (some r) h good)
    exact round.trans (filled_rulesFromStmts growth rest r _ round.good
      (Nat.lt_of_lt_of_le inside round.grows) round.hung)
termination_by structural stmts

end

end RuleHeap
