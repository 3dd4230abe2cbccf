import Mathlib.Data.List.TakeWhile
import Vince.RuleHeap

/-!
# Collecting the rules above a rule (`ngx_startup.go`)

`collect` goes up the parent pointers and appends, level by level, the children that come before
the rule it came from. It compares pointers and appends to slices that it did not make, so that
what it returns, and that it leaves the rules alone, rests on how the rules lie in memory.
-/

namespace RuleHeap

open GoText ConfigAnalyze GoSlices

/-- The loop of `collect(n)` from the child at `i` on, for the children in `s`. -/
def gather (growth : Growth) (s : Option Slice) (n : ℕ) :
    ℕ → ℕ → Option Slice → Memory ℕ → Option Slice × Memory ℕ
  | 0, _, v, mem => (v, mem)
  | todo + 1, i, v, mem =>
    match (contents mem s)[i]? with
    | none => (v, mem)
    | some a =>
      if a = n then (v, mem)
      else
        let longer := append growth mem v [a]
        gather growth s n todo (i + 1) longer.1 longer.2

/-- The `v` of `collect(n)`: for a nil `n` the slice of children itself. -/
def own (growth : Growth) (children : Option Slice) (mem : Memory ℕ) :
    Option ℕ → Option Slice × Memory ℕ
  | none => (children, mem)
  | some n => gather growth children n (contents mem children).length 0 none mem

/-- `collect`, in at most the given number of calls. The rules stay as they are. -/
def collect (growth : Growth) (nodes : List Node) :
    ℕ → Memory ℕ → ℕ → Option ℕ → Option (Option Slice × Memory ℕ)
  | 0, _, _, _ => none
  | fuel + 1, mem, r, n => do
    let node ← nodes[r]?
    let v := own growth node.children mem n
    match node.parent with
    | none => some v
    | some p => do
      let up ← collect growth nodes fuel v.2 p (some r)
      some (append growth up.2 up.1 (contents up.2 v.1))

variable {growth : Growth} {h : Heap} {r c : ℕ}

/-! ## What collecting writes

Only into arrays that are new since the call began: the slice that `collect(n)` returns for a
child `n` is nil or in such an array, and this is the slice that is appended to. -/

section Collect

variable {mem mem' : Memory ℕ} {result : Option Slice × Memory ℕ} {nodes : List Node}
  {s v : Option Slice}

theorem fresh_gather (growth : Growth) (s : Option Slice) (n todo i : ℕ)
    (fresh : Fresh mem (v, mem')) : Fresh mem (gather growth s n todo i v mem') := by
  induction todo generalizing i v mem' with
  | zero => exact fresh
  | succ todo ih =>
    rw [gather]
    split
    · exact fresh
    · rename_i a _
      split
      · exact fresh
      · exact ih (i + 1) (fresh.append growth [a])

theorem agree_own (growth : Growth) (s : Option Slice) (mem : Memory ℕ) (n : Option ℕ) :
    Agree mem.length mem (own growth s mem n).2 ∧ mem.length ≤ (own growth s mem n).2.length := by
  cases n with
  | none => exact ⟨Agree.refl _ mem, Nat.le_refl _⟩
  | some n =>
    have fresh := fresh_gather growth s n (contents mem s).length 0 (fresh_nil mem)
    exact ⟨fresh.agree, fresh.grows⟩

theorem collect_cases {fuel : ℕ} {n : Option ℕ}
    (returns : collect growth nodes fuel mem r n = some result) :
    ∃ fuel' node, fuel = fuel' + 1 ∧ nodes[r]? = some node ∧
      (node.parent = none ∧ result = own growth node.children mem n ∨
        ∃ p up, node.parent = some p ∧
          collect growth nodes fuel' (own growth node.children mem n).2 p (some r) = some up ∧
          result = append growth up.2 up.1
            (contents up.2 (own growth node.children mem n).1)) := by
  cases fuel with
  | zero => cases returns
  | succ fuel =>
    rw [collect] at returns
    obtain ⟨node, found, returns⟩ := Option.bind_eq_some_iff.mp returns
    refine ⟨fuel, node, rfl, found, ?_⟩
    cases parent : node.parent with
    | none =>
      simp only [parent, Option.some.injEq] at returns
      exact .inl ⟨rfl, returns.symm⟩
    | some p =>
      simp only [parent] at returns
      obtain ⟨up, above, returns⟩ := Option.bind_eq_some_iff.mp returns
      exact .inr ⟨p, up, rfl, above, (Option.some.inj returns).symm⟩

theorem fresh_collect {fuel n : ℕ}
    (returns : collect growth nodes fuel mem r (some n) = some result) : Fresh mem result := by
  induction fuel generalizing mem r n result with
  | zero => cases returns
  | succ fuel ih =>
    obtain ⟨fuel', node, counted, -, cases⟩ := collect_cases returns
    obtain rfl : fuel = fuel' := by omega
    rcases cases with ⟨-, rfl⟩ | ⟨p, up, -, above, rfl⟩
    · exact fresh_gather growth _ n _ 0 (fresh_nil mem)
    · obtain ⟨agree, grows⟩ := agree_own growth node.children mem (some n)
      exact ((ih above).append growth _).after agree grows

/-- Whatever the call is, no array that was there is written to. -/
theorem agree_collect {fuel : ℕ} {n : Option ℕ}
    (returns : collect growth nodes fuel mem r n = some result) :
    Agree mem.length mem result.2 ∧ mem.length ≤ result.2.length := by
  obtain ⟨fuel', node, -, -, cases⟩ := collect_cases returns
  have ⟨agree, grows⟩ := agree_own growth node.children mem n
  rcases cases with ⟨-, rfl⟩ | ⟨p, up, -, above, rfl⟩
  · exact ⟨agree, grows⟩
  · have fresh := ((fresh_collect above).append growth
      (contents up.2 (own growth node.children mem n).1)).after agree grows
    exact ⟨fresh.agree, fresh.grows⟩

/-! ## What collecting reads -/

/-- The children are read while the result grows; they are in an array that was there before. -/
theorem contents_gather (growth : Growth) (n : ℕ) (below : Below mem.length s) (i todo : ℕ)
    (enough : (contents mem s).length ≤ i + todo) (fresh : Fresh mem (v, mem')) :
    contents (gather growth s n todo i v mem').2 (gather growth s n todo i v mem').1 =
      contents mem' v ++ ((contents mem s).drop i).takeWhile (· ≠ n) := by
  induction todo generalizing i v mem' with
  | zero =>
    rw [Nat.add_zero] at enough
    rw [gather, List.drop_eq_nil_of_le enough]
    simp
  | succ todo ih =>
    have read : contents mem' s = contents mem s := fresh.agree.contents below
    rw [gather, read]
    cases here : (contents mem s)[i]? with
    | none =>
      rw [List.drop_eq_nil_of_le (List.getElem?_eq_none_iff.mp here)]
      simp
    | some a =>
      obtain ⟨inside, rfl⟩ := List.getElem?_eq_some_iff.mp here
      rw [List.drop_eq_getElem_cons inside]
      dsimp only
      split
      · rename_i found
        simp [found]
      · rename_i other
        have appended := appended_append growth fresh.valid [(contents mem s)[i]]
        have longer : Fresh mem ((append growth mem' v [(contents mem s)[i]]).1,
            (append growth mem' v [(contents mem s)[i]]).2) :=
          fresh.append growth [(contents mem s)[i]]
        rw [ih (i + 1) (by omega) longer, appended.contents_eq,
          List.takeWhile_cons_of_pos (by simp [other]), List.append_assoc]
        rfl

/-- The children that `collect(n)` takes from one rule. -/
def part (h : Heap) (r : ℕ) : Option ℕ → List ℕ
  | none => h.children r
  | some n => (h.children r).takeWhile (· ≠ n)

theorem own_spec (growth : Growth) (good : Good h) (agree : Agree h.mem.length h.mem mem)
    (r : ℕ) (n : Option ℕ) :
    Valid (own growth (h.slice r) mem n).2 (own growth (h.slice r) mem n).1 ∧
      contents (own growth (h.slice r) mem n).2 (own growth (h.slice r) mem n).1 =
        part h r n := by
  have below := (good.valid r).below
  have read : contents mem (h.slice r) = h.children r := agree.contents below
  have valid : Valid mem (h.slice r) := agree.valid below (good.valid r)
  cases n with
  | none => exact ⟨valid, read⟩
  | some n =>
    refine ⟨(fresh_gather growth _ n _ 0 (fresh_nil mem)).valid, ?_⟩
    rw [own, contents_gather growth n valid.below 0 _ (by omega) (fresh_nil mem), read]
    rfl

end Collect

/-- The rule at `r` hangs in a tree, its parents being the second argument, the nearest first. -/
inductive Line (h : Heap) : ℕ → List ℕ → Prop
  | root {r : ℕ} : r < h.nodes.length → h.parent r = none → Line h r []
  | child {p c : ℕ} {ps : List ℕ} :
    Line h p ps → c ∈ h.children p → h.parent c = some p → Line h c (p :: ps)

/-- From the root down, the children of each parent that come before the next rule of the line. -/
def inherited (h : Heap) : ℕ → List ℕ → List ℕ
  | _, [] => []
  | r, p :: ps => inherited h p ps ++ (h.children p).takeWhile (· ≠ r)

/-- The children of the parents from the next rule of the line on. -/
def behind (h : Heap) : ℕ → List ℕ → List ℕ
  | _, [] => []
  | r, p :: ps => behind h p ps ++ (h.children p).dropWhile (· ≠ r)

theorem parent_eq_some {p : ℕ} (points : h.parent r = some p) :
    ∃ node, h.nodes[r]? = some node ∧ node.parent = some p ∧ h.slice r = node.children := by
  obtain ⟨node, found, parent⟩ := Option.bind_eq_some_iff.mp points
  refine ⟨node, found, parent, ?_⟩
  rw [Heap.slice, found]
  rfl

/-- `collect` on the rules of a line, in any memory that still has the rules' slices. -/
theorem collect_line {ps : List ℕ} (growth : Growth) (good : Good h) (line : Line h r ps)
    {fuel : ℕ} (enough : ps.length < fuel) {mem : Memory ℕ}
    (agree : Agree h.mem.length h.mem mem) (grows : h.mem.length ≤ mem.length) (n : Option ℕ) :
    ∃ result, collect growth h.nodes fuel mem r n = some result ∧
      contents result.2 result.1 = inherited h r ps ++ part h r n := by
  obtain ⟨fuel, rfl⟩ : ∃ k, fuel = k + 1 := ⟨fuel - 1, by omega⟩
  induction line generalizing fuel mem n with
  | @root r inside orphan =>
    have found := List.getElem?_eq_getElem inside
    have slice : h.slice r = h.nodes[r].children := by
      rw [Heap.slice, found]
      rfl
    rw [Heap.parent, found] at orphan
    refine ⟨own growth (h.slice r) mem n, ?_, (own_spec growth good agree r n).2⟩
    rw [collect, found, slice]
    simp only [bind, Option.bind] at orphan ⊢
    rw [orphan]
  | @child p c ps line child points ih =>
    obtain ⟨node, found, parent, slice⟩ := parent_eq_some points
    obtain ⟨agree', grows'⟩ := agree_own growth (h.slice c) mem n
    obtain ⟨valid, holds⟩ := own_spec growth good agree c n
    simp only [List.length_cons] at enough
    obtain ⟨fuel, rfl⟩ : ∃ k, fuel = k + 1 := ⟨fuel - 1, by omega⟩
    obtain ⟨up, above, upper⟩ := ih (agree.trans (agree'.mono grows))
      (Nat.le_trans grows grows') (some c) fuel (by omega)
    have fresh := fresh_collect above
    refine ⟨append growth up.2 up.1 (contents up.2 (own growth (h.slice c) mem n).1), ?_, ?_⟩
    · rw [collect, found]
      simp only [bind, Option.bind, parent]
      rw [← slice, above]
    · rw [(appended_append growth fresh.valid _).contents_eq, upper,
        fresh.agree.contents valid.below, holds]
      rfl

/-! ## What is collected

A child points back to its parent, so that a rule is told from the rules of other levels by its
parent pointer alone. -/

section Collected

variable {ps : List ℕ}

theorem Line.parents_lt (good : Good h) (line : Line h r ps) : ∀ p ∈ ps, p < r := by
  induction line with
  | root => simp
  | @child p c ps line child _ ih =>
    have less := (good.down p c child).1
    rw [List.forall_mem_cons]
    exact ⟨less, fun q mem => Nat.lt_trans (ih q mem) less⟩

theorem line_length (good : Good h) (line : Line h r ps) : ps.length ≤ r := by
  induction line with
  | root => exact Nat.zero_le _
  | child _ child _ ih =>
    have below := (good.down _ _ child).1
    rw [List.length_cons]
    omega

/-- What `collect(nil)` returns for a rule. -/
def collected (growth : Growth) (h : Heap) (l : ℕ) : List ℕ :=
  ((collect growth h.nodes (l + 1) h.mem l none).map
    fun result => contents result.2 result.1).getD []

theorem collected_eq (growth : Growth) (good : Good h) (line : Line h r ps) :
    collected growth h r = inherited h r ps ++ h.children r := by
  obtain ⟨result, returns, holds⟩ := collect_line growth good line
    (Nat.lt_succ_of_le (line_length good line)) (Agree.refl _ h.mem) (Nat.le_refl _) none
  rw [collected, returns, Option.map_some, Option.getD_some, holds]
  rfl

/-- The children of the parents are before the line or behind it. -/
theorem mem_levels {x : ℕ} :
    x ∈ inherited h r ps ∨ x ∈ behind h r ps ↔ ∃ p ∈ ps, x ∈ h.children p := by
  induction ps generalizing r with
  | nil => simp [inherited, behind]
  | cons p ps ih =>
    have split : x ∈ (h.children p).takeWhile (· ≠ r) ∨ x ∈ (h.children p).dropWhile (· ≠ r) ↔
        x ∈ h.children p := by
      rw [← List.mem_append, List.takeWhile_append_dropWhile]
    simp only [inherited, behind, List.mem_append, List.mem_cons, exists_eq_or_imp]
    rw [← ih (r := p), ← split]
    tauto

theorem parent_of_level (good : Good h) {x : ℕ}
    (level : x ∈ inherited h r ps ∨ x ∈ behind h r ps) : ∃ p ∈ ps, h.parent x = some p := by
  obtain ⟨p, above, child⟩ := mem_levels.mp level
  exact ⟨p, above, (good.down p x child).2.2⟩

/-- A rule whose parent is above `r` is no child of `r`. -/
theorem Line.not_child (good : Good h) (line : Line h r ps) {x : ℕ}
    (above : ∃ p ∈ ps, h.parent x = some p) : x ∉ h.children r := by
  intro child
  obtain ⟨p, mem, points⟩ := above
  have less := line.parents_lt good p mem
  have points' := (good.down r x child).2.2
  rw [points, Option.some.injEq] at points'
  omega

theorem Good.nodup (good : Good h) (r : ℕ) : (h.children r).Nodup :=
  (good.ordered r).imp Nat.ne_of_lt

theorem nodup_collected (good : Good h) (line : Line h r ps) :
    (inherited h r ps ++ h.children r).Nodup := by
  induction line with
  | @root r _ _ => exact good.nodup r
  | @child p c ps line child points ih =>
    have shorter : (inherited h p ps ++ (h.children p).takeWhile (· ≠ c)).Sublist
        (inherited h p ps ++ h.children p) :=
      (List.Sublist.refl _).append (List.takeWhile_sublist _)
    refine (ih.sublist shorter).append (good.nodup c) fun x mem => ?_
    have above : ∃ q ∈ p :: ps, h.parent x = some q := parent_of_level good (.inl mem)
    exact (line.child child points).not_child good above

theorem not_collected_behind (good : Good h) (line : Line h r ps) :
    ∀ x ∈ behind h r ps, x ∉ inherited h r ps ++ h.children r := by
  induction line with
  | root => simp [behind]
  | @child p c ps line child points ih =>
    intro x later collected
    have below := (line.child child points).not_child good (parent_of_level good (.inr later))
    rcases List.mem_append.mp later with upper | later
    · -- Behind the line further up.
      have apart := ih x upper
      rcases List.mem_append.mp collected with collected | collected
      · refine apart (List.mem_append.mpr ?_)
        rcases List.mem_append.mp collected with collected | collected
        · exact .inl collected
        · exact .inr ((List.takeWhile_sublist _).subset collected)
      · exact below collected
    · -- A child of `p` that is not before `c`.
      have sibling := (List.dropWhile_sublist _).subset later
      rcases List.mem_append.mp collected with collected | collected
      · rcases List.mem_append.mp collected with collected | collected
        · exact line.not_child good (parent_of_level good (.inl collected)) sibling
        · have parts := good.nodup p
          rw [← List.takeWhile_append_dropWhile (p := (· ≠ c)) (l := h.children p)] at parts
          exact List.disjoint_of_nodup_append parts collected later
      · exact below collected

/-- The rules of a line other than its root are behind it. -/
theorem Line.self_or_behind (line : Line h r ps) :
    ∀ a ∈ r :: ps, h.parent a = none ∨ a ∈ behind h r ps := by
  induction line with
  | @root r _ orphan =>
    intro a mem
    rw [List.mem_singleton.mp mem]
    exact .inl orphan
  | @child p c ps line child points ih =>
    intro a mem
    rcases List.mem_cons.mp mem with rfl | mem
    · refine .inr (List.mem_append.mpr (.inr ?_))
      have split := List.takeWhile_append_dropWhile (p := (· ≠ a)) (l := h.children p)
      rw [← split, List.mem_append] at child
      refine child.resolve_left fun before => ?_
      have differs := List.mem_takeWhile_imp before
      simp at differs
    · refine (ih a mem).imp_right fun behind => ?_
      exact List.mem_append.mpr (.inl behind)

theorem not_collected_line (good : Good h) (line : Line h r ps) :
    ∀ a ∈ r :: ps, a ∉ inherited h r ps ++ h.children r := by
  intro a mem collected
  rcases line.self_or_behind a mem with orphan | behind
  · have points : ∃ p, h.parent a = some p := by
      rcases List.mem_append.mp collected with collected | collected
      · obtain ⟨p, -, points⟩ := parent_of_level good (.inl collected)
        exact ⟨p, points⟩
      · exact ⟨r, (good.down r a collected).2.2⟩
    obtain ⟨p, points⟩ := points
    rw [orphan] at points
    cases points
  · exact not_collected_behind good line a behind collected

end Collected

/-! ## Every run -/

/-- The heaps that a program gets to by building trees and collecting rules. -/
inductive Reached (growth : Growth) : Heap → Prop
  | start : Reached growth Heap.empty
  | build {h : Heap} (stmt : Stmt) :
    Reached growth h → Reached growth (ruleFromStmt growth stmt none h).2
  | collected {h : Heap} {fuel r : ℕ} {result : Option Slice × Memory ℕ} :
    Reached growth h → collect growth h.nodes fuel h.mem r none = some result →
    Reached growth ⟨h.nodes, result.2⟩

/-- A rule that points to a parent is one of its children. -/
def Whole (h : Heap) : Prop := ∀ c p, h.parent c = some p → c ∈ h.children p

theorem parent_inside {p : ℕ} (points : h.parent c = some p) : c < h.nodes.length := by
  obtain ⟨node, found, -⟩ := parent_eq_some points
  exact (List.getElem?_eq_some_iff.mp found).1

theorem Made.whole {made : ℕ × Heap} (spec : Made none h made) (good : Good h)
    (whole : Whole h) : Whole made.2 := by
  intro c p points
  rcases Nat.lt_trichotomy c h.nodes.length with older | root | younger
  · rw [(spec.same c older).parent] at points
    have child := whole c p points
    have less := (good.down p c child).1
    rw [(spec.same p (by omega)).2]
    exact child
  · rw [root, spec.points] at points
    cases points
  · obtain ⟨q, -, child⟩ := spec.hung c younger (parent_inside points)
    have points' := (spec.good.down q c child).2.2
    rw [points, Option.some.injEq] at points'
    rwa [points']

/-- A heap in a memory that has its arrays as they are. -/
theorem children_agree (good : Good h) {mem : Memory ℕ} (agree : Agree h.mem.length h.mem mem)
    (r : ℕ) : Heap.children ⟨h.nodes, mem⟩ r = h.children r :=
  agree.contents (good.valid r).below

theorem Good.agree (good : Good h) {mem : Memory ℕ} (agree : Agree h.mem.length h.mem mem) :
    Good ⟨h.nodes, mem⟩ where
  valid r := agree.valid (good.valid r).below (good.valid r)
  apart := good.apart
  down r c child := by
    rw [children_agree good agree] at child
    exact good.down r c child
  ordered r := by
    rw [children_agree good agree]
    exact good.ordered r

theorem Reached.good (reached : Reached growth h) : Good h ∧ Whole h := by
  induction reached with
  | start => exact ⟨good_empty, by simp [Whole, Heap.empty, Heap.parent]⟩
  | @build h stmt _ ih =>
    have spec := made_ruleFromStmt growth stmt none h ih.1
    exact ⟨spec.good, spec.whole ih.1 ih.2⟩
  | @collected h fuel r result _ returns ih =>
    have agree := (agree_collect returns).1
    refine ⟨ih.1.agree agree, fun c p points => ?_⟩
    rw [children_agree ih.1 agree]
    exact ih.2 c p points

theorem exists_line (good : Good h) (whole : Whole h) (r : ℕ) (inside : r < h.nodes.length) :
    ∃ ps, Line h r ps := by
  induction r using Nat.strongRecOn with
  | ind r ih =>
    cases points : h.parent r with
    | none => exact ⟨[], .root inside points⟩
    | some p =>
      have child := whole r p points
      have less := (good.down p r child).1
      obtain ⟨ps, line⟩ := ih p less (by omega)
      exact ⟨p :: ps, line.child child points⟩

/-- What `collect(nil)` does on the rule at `r` with the parents `ps`. -/
structure Collects (h : Heap) (r : ℕ) (ps : List ℕ)
    (result : Option Slice × Memory ℕ) : Prop where
  contents_eq : contents result.2 result.1 = inherited h r ps ++ h.children r
  once : (contents result.2 result.1).Nodup
  no_ancestor : ∀ a ∈ r :: ps, a ∉ contents result.2 result.1
  nothing_behind : ∀ x ∈ behind h r ps, x ∉ contents result.2 result.1
  unchanged : ∀ n, Heap.children ⟨h.nodes, result.2⟩ n = h.children n

/-- Every rule has a line of parents, and its `collect(nil)` returns what precedes the line,
level by level from the root down, and then all the rule's children. -/
theorem collect_inherits (growth : Growth) (h : Heap) (reached : Reached growth h) (r : ℕ)
    (inside : r < h.nodes.length) :
    ∃ ps, Line h r ps ∧ ∀ fuel, ps.length < fuel →
      ∃ result, collect growth h.nodes fuel h.mem r none = some result ∧
        Collects h r ps result := by
  obtain ⟨good, whole⟩ := reached.good
  obtain ⟨ps, line⟩ := exists_line good whole r inside
  refine ⟨ps, line, fun fuel enough => ?_⟩
  obtain ⟨result, returns, holds⟩ :=
    collect_line growth good line enough (Agree.refl _ h.mem) (Nat.le_refl _) none
  rw [part] at holds
  refine ⟨result, returns, holds, ?_, ?_, ?_, ?_⟩
  · rw [holds]
    exact nodup_collected good line
  · rw [holds]
    exact not_collected_line good line
  · rw [holds]
    exact not_collected_behind good line
  · exact children_agree good (agree_collect returns).1

def exactly : Growth := ⟨fun _ needed => needed, fun _ needed => Nat.le_refl needed⟩

def plain (name : String) (body : Option (List Stmt)) : Stmt :=
  ⟨name.toList, [], 0, [], [], [], body⟩

def sample : Stmt :=
  plain "main" (some [plain "pid" none, plain "http" (some [plain "gzip" none,
    plain "server" (some [plain "listen" none]), plain "charset" none]), plain "events" none])

def sampleHeap : Heap := (ruleFromStmt exactly sample none Heap.empty).2

theorem collect_inherits_sample :
    ∃ ps, Line sampleHeap 4 ps ∧ ∀ fuel, ps.length < fuel →
      ∃ result, collect exactly sampleHeap.nodes fuel sampleHeap.mem 4 none = some result ∧
        Collects sampleHeap 4 ps result :=
  collect_inherits exactly sampleHeap (.build sample .start) 4 (by decide)

example : (collect exactly sampleHeap.nodes 3 sampleHeap.mem 4 none).map
    (fun result => contents result.2 result.1) = some [1, 3, 5] := by
  decide

end RuleHeap
