import Vince.LocationMatch
import Vince.RulePlaces
import Vince.SliceOwners

/-!
# Requests served at the same time (`vinceHandler` in `ngx_startup.go`)

The handler of a listener serves its requests concurrently. They share the rules, which lie in
memory as in `RuleHeap`, and the `sync.Map` of loaded locations. A request goes through the
handler in small steps: it looks for the locations of its server, loads and stores them if they
are missing, chooses a location, and collects the rules for it with one `append` a step. Requests
take their steps in any order.

A request is followed up to the list of rules that `chain` gets. The map of variables, which the
requests of a listener share as well, is left out: what a proxy makes of it comes after that, and
the writes to it are not synchronized, so that the program may also stop there. The server of a
request is given. What is used of the function that chooses a location is that it chooses a
loaded one, as `match` does (`locationMatch`).
-/

namespace RequestRaces

open GoText GoSlices SliceOwners RuleHeap
open ConfigParse (Fault)
open ServerRules (Rule RulePtr)
open LocationMatch (Match matchPath)

/-! ## The handler -/

/-- `locationMatch.load`. -/
def load (h : Heap) (srv : ℕ) : List (Match ℕ) := @LocationMatch.load ℕ h.rules srv

/-- A function for `locationMatch.match`, which reads the rules. What it chooses of the locations of
a server was loaded. -/
structure Matcher where
  choose : RulePtr ℕ → Text → List (Match ℕ) → Except Fault (Option ℕ)
  chosen : ∀ rules path srv l, choose rules path (@LocationMatch.load ℕ rules srv) = .ok (some l) →
    ∃ r, ∃ m ∈ @LocationMatch.load ℕ rules r, m.rule = l

/-- `locationMatch.match` -/
def locationMatch (quickSort : Bool → List (Match ℕ) → Except Fault (List (Match ℕ)))
    (matchString : Text → Text → Bool) : Matcher where
  choose rules path ls := (@matchPath ℕ rules quickSort matchString path ls).map
    (Option.map Match.rule)
  chosen rules path srv l found := by
    cases run : @matchPath ℕ rules quickSort matchString path (@LocationMatch.load ℕ rules srv) with
    | error fault =>
      rw [run] at found
      cases found
    | ok result =>
      rw [run] at found
      obtain ⟨m, rfl, rule⟩ := Option.map_eq_some_iff.mp (Except.ok.inj found)
      obtain ⟨r, loaded⟩ := LocationMatch.matchPath_loaded run
      exact ⟨r, m, loaded, rule⟩

/-- A request, with the server that was picked for it. -/
structure Call where
  srv : ℕ
  path : Text

/-- Where a request is. The frames are the `v` of the calls of `collect` that wait for the call on
the parent, the last one first. -/
inductive Phase where
  | arrived
  | missed
  | loaded (ls : List (Match ℕ))
  | matching (ls : List (Match ℕ))
  | collect (frames : List (Option Slice)) (r : ℕ) (n : Option ℕ)
  | gathering (frames : List (Option Slice)) (r n i : ℕ) (v : Option Slice)
  | gathered (frames : List (Option Slice)) (r : ℕ) (v : Option Slice)
  | returned (frames : List (Option Slice)) (result : Option Slice)
  /-- `chain` is called with the rules, or there is no location and the answer is 404. -/
  | chained (rules : Except Fault (Option (List ℕ)))

/-- What the requests share: the arrays, and the map from servers to their locations. -/
structure Shared where
  mem : Memory ℕ
  location : ℕ → Option (List (Match ℕ))

section Handler

variable (growth : Growth) (matcher : Matcher) (h : Heap)

/-- One step of a request. The nodes of the heap are never written. -/
def advance (call : Call) (shared : Shared) : Phase → Shared × Phase
  | .arrived =>
    match shared.location call.srv with
    | some ls => (shared, .matching ls)
    | none => (shared, .missed)
  | .missed => (shared, .loaded (load ⟨h.nodes, shared.mem⟩ call.srv))
  | .loaded ls =>
    ({ shared with location := Function.update shared.location call.srv (some ls) }, .matching ls)
  | .matching ls =>
    match matcher.choose (Heap.rules ⟨h.nodes, shared.mem⟩) call.path ls with
    | .error fault => (shared, .chained (.error fault))
    | .ok none => (shared, .chained (.ok none))
    | .ok (some l) => (shared, .collect [] l none)
  | .collect frames r none => (shared, .gathered frames r (h.slice r))
  | .collect frames r (some n) => (shared, .gathering frames r n 0 none)
  | .gathering frames r n i v =>
    match (contents shared.mem (h.slice r))[i]? with
    | none => (shared, .gathered frames r v)
    | some a =>
      if a = n then (shared, .gathered frames r v)
      else
        let longer := append growth shared.mem v [a]
        ({ shared with mem := longer.2 }, .gathering frames r n (i + 1) longer.1)
  | .gathered frames r v =>
    match h.parent r with
    | none => (shared, .returned frames v)
    | some p => (shared, .collect (v :: frames) p (some r))
  | .returned (v :: frames) result =>
    let longer := append growth shared.mem result (contents shared.mem v)
    ({ shared with mem := longer.2 }, .returned frames longer.1)
  | .returned [] result => (shared, .chained (.ok (some (contents shared.mem result))))
  | .chained rules => (shared, .chained rules)

structure State (ι : Type) where
  shared : Shared
  phase : ι → Phase

variable {ι : Type} [DecidableEq ι] (calls : ι → Call)

def step (s : State ι) (i : ι) : State ι :=
  let moved := advance growth matcher h (calls i) s.shared (s.phase i)
  ⟨moved.1, Function.update s.phase i moved.2⟩

def start : State ι := ⟨⟨h.mem, fun _ => none⟩, fun _ => .arrived⟩

/-- The requests take steps as the schedule says. -/
def run (schedule : List ι) : State ι := schedule.foldl (step growth matcher h calls) (start h)

/-- The list for a request that is alone, on rules just built. -/
def alone (call : Call) : Except Fault (Option (List ℕ)) :=
  (matcher.choose h.rules call.path (load h call.srv)).map (Option.map (collected growth h))

end Handler

/-- The slices a request holds, the one it appends to first. -/
def Phase.stack : Phase → List (Option Slice)
  | .collect frames _ _ => frames
  | .gathering frames _ _ _ v => v :: frames
  | .gathered frames _ v => v :: frames
  | .returned frames result => result :: frames
  | _ => []

/-- A bound on the steps a request still takes. A call on a parent is one on a lower address. -/
def weight (h : Heap) : Phase → ℕ
  | .arrived => h.nodes.length * (h.nodes.length + 5) + 4
  | .missed => h.nodes.length * (h.nodes.length + 5) + 3
  | .loaded _ => h.nodes.length * (h.nodes.length + 5) + 2
  | .matching _ => h.nodes.length * (h.nodes.length + 5) + 1
  | .collect frames r _ => r * (h.nodes.length + 5) + frames.length + h.nodes.length + 4
  | .gathering frames r _ i _ =>
    r * (h.nodes.length + 5) + frames.length + 3 + (h.nodes.length - i)
  | .gathered frames r _ => r * (h.nodes.length + 5) + frames.length + 2
  | .returned frames _ => frames.length + 1
  | .chained _ => 0

/-! ## What a request knows -/

variable {growth : Growth} {matcher : Matcher} {h : Heap} {call : Call}
  {mem mem' : Memory ℕ} {frames : List (Option Slice)} {v : Option Slice} {l r p c : ℕ}
  {n : Option ℕ} {ps : List ℕ}

/-- The calls of `collect` on the way up from `l`, at a call of `collect(n)` on `r`. -/
inductive Pending (h : Heap) (mem : Memory ℕ) (l : ℕ) :
    List (Option Slice) → ℕ → Option ℕ → Prop
  | start : Pending h mem l [] l none
  | up {frames : List (Option Slice)} {v : Option Slice} {c p : ℕ} {n : Option ℕ} :
    Pending h mem l frames c n → h.parent c = some p → contents mem v = part h c n →
    Pending h mem l (v :: frames) p (some c)

theorem Pending.inside (good : Good h) (whole : Whole h) (pending : Pending h mem l frames r n)
    (first : l < h.nodes.length) : r < h.nodes.length := by
  induction pending with
  | start => exact first
  | up _ points _ ih =>
    have below := (good.down _ _ (whole _ _ points)).1
    omega

theorem Pending.keep (pending : Pending h mem l frames r n)
    (same : ∀ s ∈ frames, contents mem' s = contents mem s) : Pending h mem' l frames r n := by
  induction pending with
  | start => exact .start
  | up _ points holds ih =>
    rw [List.forall_mem_cons] at same
    exact .up (ih same.2) points (same.1.trans holds)

/-- The location chosen for the request. -/
def Chosen (matcher : Matcher) (h : Heap) (call : Call) (l : ℕ) : Prop :=
  matcher.choose h.rules call.path (load h call.srv) = .ok (some l)

/-- What holds of a request in each phase. -/
def Right (growth : Growth) (matcher : Matcher) (h : Heap) (call : Call)
    (mem : Memory ℕ) : Phase → Prop
  | .arrived => True
  | .missed => True
  | .loaded ls => ls = load h call.srv
  | .matching ls => ls = load h call.srv
  | .collect frames r n => ∃ l, Chosen matcher h call l ∧ Pending h mem l frames r n
  | .gathering frames r n i v =>
    (∃ l, Chosen matcher h call l ∧ Pending h mem l frames r (some n)) ∧
      Since h.mem.length v ∧
      contents mem v ++ ((h.children r).drop i).takeWhile (· ≠ n) = part h r (some n)
  | .gathered frames r v =>
    ∃ l n, Chosen matcher h call l ∧ Pending h mem l frames r n ∧ contents mem v = part h r n ∧
      (n.isSome → Since h.mem.length v)
  | .returned frames result =>
    ∃ l r n ps, Chosen matcher h call l ∧ Pending h mem l frames r n ∧ Line h r ps ∧
      contents mem result = inherited h r ps ++ part h r n ∧ (n.isSome → Since h.mem.length result)
  | .chained rules => rules = alone growth matcher h call

/-- It rests on what the slices it holds contain. -/
theorem Right.keep {phase : Phase} (right : Right growth matcher h call mem phase)
    (same : ∀ s ∈ phase.stack, contents mem' s = contents mem s) :
    Right growth matcher h call mem' phase := by
  cases phase with
  | arrived => exact right
  | missed => exact right
  | loaded ls => exact right
  | matching ls => exact right
  | collect frames r n =>
    obtain ⟨l, chosen, pending⟩ := right
    exact ⟨l, chosen, pending.keep same⟩
  | gathering frames r n i v =>
    obtain ⟨⟨l, chosen, pending⟩, since, holds⟩ := right
    rw [Phase.stack, List.forall_mem_cons] at same
    refine ⟨⟨l, chosen, pending.keep same.2⟩, since, ?_⟩
    rw [same.1]
    exact holds
  | gathered frames r v =>
    obtain ⟨l, n, chosen, pending, holds, since⟩ := right
    rw [Phase.stack, List.forall_mem_cons] at same
    exact ⟨l, n, chosen, pending.keep same.2, same.1.trans holds, since⟩
  | returned frames result =>
    obtain ⟨l, r, n, ps, chosen, pending, line, holds, since⟩ := right
    rw [Phase.stack, List.forall_mem_cons] at same
    exact ⟨l, r, n, ps, chosen, pending.keep same.2, line, same.1.trans holds, since⟩
  | chained rules => exact right

/-! ## Reading the rules -/

theorem rules_agree (good : Good h) (agree : Agree h.mem.length h.mem mem) :
    Heap.rules ⟨h.nodes, mem⟩ = h.rules := by
  have same : Heap.children ⟨h.nodes, mem⟩ = h.children := funext (children_agree good agree)
  rw [Heap.rules, same]
  rfl

theorem load_inside {m : Match ℕ} (mem : m ∈ load h r) : m.rule < h.nodes.length := by
  obtain ⟨ch, child, made⟩ := List.mem_filterMap.mp mem
  obtain ⟨rule, name⟩ := @LocationMatch.rule_of_loadOne ℕ h.rules _ _ made
  rw [rule]
  by_contra outside
  have none : h.label ch = none := by
    rw [Heap.label, List.getElem?_eq_none (Nat.not_lt.mp outside)]
    rfl
  change ((h.label ch).map Prod.fst).getD [] = "location".toList at name
  rw [none] at name
  cases name

theorem Chosen.inside (chosen : Chosen matcher h call l) : l < h.nodes.length := by
  obtain ⟨r, m, loaded, rfl⟩ := matcher.chosen _ _ _ _ chosen
  exact load_inside loaded

theorem children_length (good : Good h) (r : ℕ) : (h.children r).length ≤ h.nodes.length := by
  have subset : h.children r ⊆ List.range h.nodes.length := fun c child =>
    List.mem_range.mpr (good.down r c child).2.1
  have short := ((good.nodup r).subperm subset).length_le
  rwa [List.length_range] at short

/-! ## One step of one request -/

/-- A step of a request: what it does to the memory and to the slices it holds, that it knows
what it should afterwards, what it stores, and that it gets nearer to its end. -/
structure Advanced (growth : Growth) (matcher : Matcher) (h : Heap) (call : Call)
    (shared : Shared) (phase : Phase) (moved : Shared × Phase) : Prop where
  move : Move growth h.mem.length shared.mem phase.stack moved.1.mem moved.2.stack
  right : Right growth matcher h call moved.1.mem moved.2
  stored : moved.1.location = shared.location ∨
    moved.1.location = Function.update shared.location call.srv (some (load h call.srv))
  lighter : weight h moved.2 ≤ weight h phase - 1

/-- The map has what `load` gives. -/
def Cached (h : Heap) (location : ℕ → Option (List (Match ℕ))) : Prop :=
  ∀ srv, ∀ ls ∈ location srv, ls = load h srv

section Step

variable {shared : Shared}

theorem advance_arrived (cached : Cached h shared.location) :
    Advanced growth matcher h call shared .arrived
      (advance growth matcher h call shared .arrived) := by
  rw [advance]
  split
  · rename_i ls found
    exact ⟨.drop (List.Sublist.refl _), cached _ ls found, .inl rfl, by simp [weight]⟩
  · exact ⟨.drop (List.Sublist.refl _), trivial, .inl rfl, by simp [weight]⟩

theorem advance_missed (good : Good h) (agree : Agree h.mem.length h.mem shared.mem) :
    Advanced growth matcher h call shared .missed
      (advance growth matcher h call shared .missed) := by
  refine ⟨.drop (List.Sublist.refl _), ?_, .inl rfl, by simp [advance, weight]⟩
  change load ⟨h.nodes, shared.mem⟩ call.srv = load h call.srv
  rw [load, rules_agree good agree]
  rfl

theorem advance_loaded {ls : List (Match ℕ)} (right : ls = load h call.srv) :
    Advanced growth matcher h call shared (.loaded ls)
      (advance growth matcher h call shared (.loaded ls)) := by
  refine ⟨.drop (List.Sublist.refl _), right, .inr ?_, by simp [advance, weight]⟩
  rw [advance, right]

theorem advance_matching (good : Good h) (agree : Agree h.mem.length h.mem shared.mem)
    {ls : List (Match ℕ)} (right : ls = load h call.srv) :
    Advanced growth matcher h call shared (.matching ls)
      (advance growth matcher h call shared (.matching ls)) := by
  subst right
  rw [advance, rules_agree good agree]
  cases chosen : matcher.choose h.rules call.path (load h call.srv) with
  | error fault =>
    refine ⟨.drop (List.Sublist.refl _), ?_, .inl rfl, Nat.zero_le _⟩
    rw [Right, alone, chosen]
    rfl
  | ok choice =>
    cases choice with
    | none =>
      refine ⟨.drop (List.Sublist.refl _), ?_, .inl rfl, Nat.zero_le _⟩
      rw [Right, alone, chosen]
      rfl
    | some l =>
      refine ⟨.drop (List.Sublist.refl _), ⟨l, chosen, .start⟩, .inl rfl, ?_⟩
      have inside : l < h.nodes.length := Chosen.inside chosen
      have bound := Nat.mul_le_mul_right (h.nodes.length + 5) inside
      simp only [weight, List.length_nil, Nat.succ_mul] at bound ⊢
      omega

theorem advance_collect (good : Good h) (agree : Agree h.mem.length h.mem shared.mem)
    (right : Right growth matcher h call shared.mem (.collect frames r n)) :
    Advanced growth matcher h call shared (.collect frames r n)
      (advance growth matcher h call shared (.collect frames r n)) := by
  obtain ⟨l, chosen, pending⟩ := right
  have below := (good.valid r).below
  cases n with
  | none =>
    refine ⟨.push below (agree.valid below (good.valid r)), ⟨l, none, chosen, pending, ?_, ?_⟩,
      .inl rfl, ?_⟩
    · exact agree.contents below
    · simp
    · simp only [advance, weight]
      omega
  | some n =>
    refine ⟨.push ?_ ?_, ⟨⟨l, chosen, pending⟩, ?_, ?_⟩, .inl rfl, ?_⟩
    · simp [Below]
    · simp [Valid]
    · simp [Since]
    · rfl
    · simp only [advance, weight]
      omega

theorem advance_gathering {m i : ℕ} (good : Good h) (agree : Agree h.mem.length h.mem shared.mem)
    (bound : h.mem.length ≤ shared.mem.length) (valid : Valid shared.mem v)
    (below : Since h.mem.length v → ∀ xs, ∀ s ∈ frames,
      contents (append growth shared.mem v xs).2 s = contents shared.mem s)
    (right : Right growth matcher h call shared.mem (.gathering frames r m i v)) :
    Advanced growth matcher h call shared (.gathering frames r m i v)
      (advance growth matcher h call shared (.gathering frames r m i v)) := by
  obtain ⟨⟨l, chosen, pending⟩, since, holds⟩ := right
  have read : contents shared.mem (h.slice r) = h.children r :=
    agree.contents (good.valid r).below
  rw [advance, read]
  cases here : (h.children r)[i]? with
  | none =>
    rw [List.drop_eq_nil_of_le (List.getElem?_eq_none_iff.mp here), List.takeWhile_nil,
      List.append_nil] at holds
    refine ⟨.drop (List.Sublist.refl _), ⟨l, some m, chosen, pending, holds, fun _ => since⟩,
      .inl rfl, ?_⟩
    simp only [weight]
    omega
  | some a =>
    obtain ⟨inside, rfl⟩ := List.getElem?_eq_some_iff.mp here
    rw [List.drop_eq_getElem_cons inside] at holds
    dsimp only
    split
    · rename_i found
      rw [List.takeWhile_cons_of_neg (by simp [found]), List.append_nil] at holds
      refine ⟨.drop (List.Sublist.refl _), ⟨l, some m, chosen, pending, holds, fun _ => since⟩,
        .inl rfl, ?_⟩
      simp only [weight]
      omega
    · rename_i other
      rw [List.takeWhile_cons_of_pos (by simp [other])] at holds
      have appended := appended_append growth valid [(h.children r)[i]]
      refine ⟨.append _ since (List.Sublist.refl _), ⟨⟨l, chosen, pending.keep (below since _)⟩,
        ?_, ?_⟩, .inl rfl, ?_⟩
      · exact (appended.since since bound).1
      · rw [appended.contents_eq, List.append_assoc]
        exact holds
      · have short := children_length good r
        simp only [weight]
        omega

theorem advance_gathered (good : Good h) (whole : Whole h)
    (right : Right growth matcher h call shared.mem (.gathered frames r v)) :
    Advanced growth matcher h call shared (.gathered frames r v)
      (advance growth matcher h call shared (.gathered frames r v)) := by
  obtain ⟨l, n, chosen, pending, holds, since⟩ := right
  rw [advance]
  cases points : h.parent r with
  | none =>
    refine ⟨.drop (List.Sublist.refl _), ⟨l, r, n, [], chosen, pending, ?_, ?_, since⟩,
      .inl rfl, ?_⟩
    · exact .root (pending.inside good whole chosen.inside) points
    · exact holds
    · simp only [weight]
      omega
  | some p =>
    refine ⟨.drop (List.Sublist.refl _), ⟨l, chosen, .up pending points holds⟩, .inl rfl, ?_⟩
    have below := (good.down p r (whole r p points)).1
    have bound := Nat.mul_le_mul_right (h.nodes.length + 5) below
    simp only [weight, List.length_cons, Nat.succ_mul] at bound ⊢
    omega

theorem advance_returned (good : Good h) (whole : Whole h) {result : Option Slice}
    (bound : h.mem.length ≤ shared.mem.length) (valid : Valid shared.mem result)
    (below : Since h.mem.length result → ∀ xs, ∀ s ∈ frames,
      contents (append growth shared.mem result xs).2 s = contents shared.mem s)
    (right : Right growth matcher h call shared.mem (.returned frames result)) :
    Advanced growth matcher h call shared (.returned frames result)
      (advance growth matcher h call shared (.returned frames result)) := by
  obtain ⟨l, r, n, ps, chosen, pending, line, holds, since⟩ := right
  cases pending with
  | start =>
    refine ⟨.drop (List.nil_sublist _), ?_, .inl rfl, Nat.zero_le _⟩
    rw [advance, Right, alone]
    have same : contents shared.mem result = collected growth h l := by
      rw [collected_eq growth good line]
      exact holds
    rw [same, show matcher.choose _ _ _ = _ from chosen]
    rfl
  | @up frames v c _ n pending points before =>
    have new := since rfl
    have appended := appended_append growth valid (contents shared.mem v)
    have kept := below new (contents shared.mem v)
    rw [List.forall_mem_cons] at kept
    refine ⟨.append _ new (List.sublist_cons_self _ _),
      ⟨l, c, n, r :: ps, chosen, pending.keep kept.2, line.child (whole c r points) points, ?_,
        fun _ => (appended.since new bound).1⟩, .inl rfl, ?_⟩
    · rw [inherited]
      refine appended.contents_eq.trans ?_
      rw [holds, before]
      rfl
    · simp [advance, weight]

end Step

/-! ## Every schedule -/

theorem Cached.update {location : ℕ → Option (List (Match ℕ))} (cached : Cached h location)
    (srv : ℕ) : Cached h (Function.update location srv (some (load h srv))) := by
  intro other ls found
  by_cases same : other = srv
  · subst same
    rw [Function.update_self] at found
    exact (Option.some.inj found).symm
  · rw [Function.update_of_ne same] at found
    exact cached other ls found

section Run

variable {ι : Type} {calls : ι → Call} {s : State ι}

structure Inv (growth : Growth) (matcher : Matcher) (h : Heap) (calls : ι → Call)
    (s : State ι) : Prop where
  agree : Agree h.mem.length h.mem s.shared.mem
  held : Held h.mem.length s.shared.mem fun i => (s.phase i).stack
  cached : Cached h s.shared.location
  right : ∀ i, Right growth matcher h (calls i) s.shared.mem (s.phase i)

theorem inv_start : Inv growth matcher h calls (start h) where
  agree := Agree.refl _ h.mem
  held := ⟨Nat.le_refl _, by simp [start, Phase.stack], by simp [start, Phase.stack],
    by simp [start, Phase.stack]⟩
  cached := by simp [Cached, start]
  right _ := trivial

/-- A step of any request from a state in which the invariant holds. -/
theorem Inv.advanced (inv : Inv growth matcher h calls s) (good : Good h) (whole : Whole h)
    (i : ι) : Advanced growth matcher h (calls i) s.shared (s.phase i)
      (advance growth matcher h (calls i) s.shared (s.phase i)) := by
  have right := inv.right i
  have valid := inv.held.valid i
  have below : ∀ v rest, (s.phase i).stack = v :: rest → Since h.mem.length v → ∀ xs, ∀ s' ∈ rest,
      contents (append growth s.shared.mem v xs).2 s' = contents s.shared.mem s' :=
    fun v rest top since xs s' here => inv.held.below top since growth xs here
  generalize s.phase i = phase at right valid below
  cases phase with
  | arrived => exact advance_arrived inv.cached
  | missed => exact advance_missed good inv.agree
  | loaded ls => exact advance_loaded right
  | matching ls => exact advance_matching good inv.agree right
  | collect frames r n => exact advance_collect good inv.agree right
  | gathering frames r n j v =>
    exact advance_gathering good inv.agree inv.held.bound (valid v List.mem_cons_self)
      (below v frames rfl) right
  | gathered frames r v => exact advance_gathered good whole right
  | returned frames result =>
    exact advance_returned good whole inv.held.bound (valid result List.mem_cons_self)
      (below result frames rfl) right
  | chained rules => exact ⟨.drop (List.Sublist.refl _), right, .inl rfl, Nat.zero_le _⟩

variable [DecidableEq ι]

theorem stack_update (phase : ι → Phase) (i : ι) (moved : Phase) :
    (fun j => (Function.update phase i moved j).stack) =
      Function.update (fun j => (phase j).stack) i moved.stack :=
  Function.comp_update Phase.stack phase i moved

theorem inv_step (good : Good h) (whole : Whole h) (inv : Inv growth matcher h calls s)
    (i : ι) : Inv growth matcher h calls (step growth matcher h calls s i) := by
  obtain ⟨move, right, stored, -⟩ := inv.advanced good whole i
  refine ⟨inv.agree.trans (move.agree inv.held.bound (inv.held.valid i)), ?_, ?_, fun j => ?_⟩
  · rw [step]
    dsimp only
    rw [stack_update]
    exact inv.held.move move
  · rcases stored with same | same
    · rw [step, same]
      exact inv.cached
    · rw [step, same]
      exact inv.cached.update _
  · rw [step]
    by_cases own : j = i
    · subst own
      dsimp only
      rw [Function.update_self]
      exact right
    · dsimp only
      rw [Function.update_of_ne own]
      exact (inv.right j).keep fun _ here => inv.held.others move own here

theorem run_concat (schedule : List ι) (i : ι) : run growth matcher h calls (schedule ++ [i]) =
    step growth matcher h calls (run growth matcher h calls schedule) i :=
  List.foldl_concat ..

theorem inv_run (reached : Reached growth h) (schedule : List ι) :
    Inv growth matcher h calls (run growth matcher h calls schedule) := by
  obtain ⟨good, whole⟩ := reached.good
  induction schedule using List.reverseRecOn with
  | nil => exact inv_start
  | append_singleton schedule i ih =>
    rw [run_concat]
    exact inv_step good whole ih i

/-- Each of its steps takes a request nearer to its end, whatever the others do. -/
theorem weight_run (reached : Reached growth h) (schedule : List ι) (k : ι) :
    weight h ((run growth matcher h calls schedule).phase k) ≤
      h.nodes.length * (h.nodes.length + 5) + 4 - schedule.count k := by
  obtain ⟨good, whole⟩ := reached.good
  induction schedule using List.reverseRecOn with
  | nil => exact Nat.le_refl _
  | append_singleton schedule i ih =>
    have inv : Inv growth matcher h calls _ := inv_run reached schedule
    have lighter := (inv.advanced good whole i).lighter
    rw [run_concat, List.count_append, step]
    dsimp only
    by_cases own : k = i
    · subst own
      rw [Function.update_self, List.count_singleton_self]
      omega
    · rw [Function.update_of_ne own, List.count_singleton]
      simp only [beq_iff_eq, Ne.symm own, if_false]
      exact ih

theorem chained_of_weight {phase : Phase} (done : weight h phase = 0) :
    ∃ rules, phase = .chained rules := by
  cases phase with
  | chained rules => exact ⟨rules, rfl⟩
  | _ => simp [weight] at done

end Run

/-! ## Main results -/

theorem chained_run {ι : Type} [DecidableEq ι] (reached : Reached growth h) (calls : ι → Call)
    (schedule : List ι) (k : ι)
    (enough : h.nodes.length * (h.nodes.length + 5) + 4 ≤ schedule.count k) :
    (run growth matcher h calls schedule).phase k =
      .chained (alone growth matcher h (calls k)) := by
  have inv : Inv growth matcher h calls _ := inv_run reached schedule
  have right := inv.right k
  have light : weight h ((run growth matcher h calls schedule).phase k) ≤ _ :=
    weight_run reached schedule k
  obtain ⟨rules, phase⟩ := chained_of_weight (h := h) (by omega :
    weight h ((run growth matcher h calls schedule).phase k) = 0)
  rw [phase] at right ⊢
  rw [show rules = _ from right]

/-- Whatever the order in which requests take their steps, the rules collected for a request are
never others than if it had been alone, and they are collected after a number of its own steps that
depends on the rules only. -/
theorem requests_collect_alone {ι : Type} [DecidableEq ι] (growth : Growth) (matcher : Matcher)
    (h : Heap) (reached : Reached growth h) (calls : ι → Call) (schedule : List ι) (k : ι) :
    (∀ rules, (run growth matcher h calls schedule).phase k = .chained rules →
      rules = alone growth matcher h (calls k)) ∧
    (h.nodes.length * (h.nodes.length + 5) + 4 ≤ schedule.count k →
      (run growth matcher h calls schedule).phase k =
        .chained (alone growth matcher h (calls k))) := by
  refine ⟨fun rules phase => ?_, chained_run reached calls schedule k⟩
  have inv : Inv growth matcher h calls _ := inv_run reached schedule
  have right := inv.right k
  rw [phase] at right
  exact right

def roomy : Growth := ⟨fun _ needed => needed + 1, fun _ needed => Nat.le_succ needed⟩

def site : ConfigAnalyze.Stmt :=
  plain "main" (some [plain "http" (some [plain "gzip" none, plain "charset" none,
    plain "server" (some [⟨"location".toList, [], 0, ["/".toList], [], [],
      some [⟨"deny".toList, [], 0, ["all".toList], [], [], none⟩]⟩])])])

def siteHeap : Heap := (ruleFromStmt roomy site none Heap.empty).2

/-- No regular expressions. -/
def siteMatch : Matcher := locationMatch (fun _ m => .ok m) fun _ _ => false

def siteCall : Call := ⟨4, "/".toList⟩

/-- Two requests in turn. -/
def inTurn (rounds : ℕ) : List Bool := (List.replicate rounds [false, true]).flatten

theorem count_inTurn (rounds : ℕ) : (inTurn rounds).count true = rounds := by
  simp [inTurn, List.count_flatten]

theorem requests_collect_alone_site :
    (run roomy siteMatch siteHeap (fun _ => siteCall) (inTurn 88)).phase true =
        .chained (alone roomy siteMatch siteHeap siteCall) ∧
      alone roomy siteMatch siteHeap siteCall = .ok (some [2, 3, 6]) :=
  ⟨(requests_collect_alone roomy siteMatch siteHeap (.build site .start)
    (fun _ => siteCall) (inTurn 88) true).2 (by rw [count_inTurn]; decide), by rfl⟩

/-- For a request that is sent to a location of the configuration, `chain` gets the rules that the
location collects in the configuration, whatever other requests do meanwhile. -/
theorem requests_collect_from_configuration {ι : Type} [DecidableEq ι] (growth : Growth)
    (matcher : Matcher) (h : Heap) (reached : Reached growth h) (stmt : ConfigAnalyze.Stmt)
    (made : ℕ × Heap) (built : made = ruleFromStmt growth stmt none h) (calls : ι → Call) (k : ι)
    (place : ServerRules.Place) (r : ℕ)
    (at' : At made.2 (ServerRules.ruleFromStmt stmt) made.1 place r)
    (chosen : Chosen matcher made.2 (calls k) r) (schedule : List ι)
    (enough : made.2.nodes.length * (made.2.nodes.length + 5) + 4 ≤ schedule.count k) :
    ∃ rs, (run growth matcher made.2 calls schedule).phase k = .chained (.ok (some rs)) ∧
      List.Forall₂ (Denotes made.2) place.collect rs := by
  have reached' : Reached growth made.2 := built ▸ .build stmt reached
  refine ⟨_, ?_, collect_refines_place reached stmt built at'⟩
  rw [chained_run reached' calls schedule k enough, alone,
    show matcher.choose _ _ _ = _ from chosen]
  rfl

/-- The place of the location in `site`. -/
def sitePlace : ServerRules.Place :=
  ⟨⟨"location".toList, ["/".toList], [⟨"deny".toList, ["all".toList], []⟩]⟩,
    [⟨"server".toList, [], []⟩,
      ⟨"http".toList, [], [⟨"gzip".toList, [], []⟩, ⟨"charset".toList, [], []⟩]⟩,
      ⟨"main".toList, [], []⟩]⟩

theorem at_sitePlace : At siteHeap (ServerRules.ruleFromStmt site) 0 sitePlace 5 :=
  .child (.child (.child .root (c := 1) (by decide)) (c := 4) (by decide)) (by decide)

theorem requests_collect_from_configuration_site :
    ∃ rs, (run roomy siteMatch siteHeap (fun _ => siteCall) (inTurn 88)).phase true =
        .chained (.ok (some rs)) ∧
      List.Forall₂ (Denotes siteHeap) sitePlace.collect rs := by
  have collected := requests_collect_from_configuration roomy siteMatch Heap.empty .start site
    (0, siteHeap) rfl (fun _ => siteCall) true sitePlace 5 at_sitePlace rfl (inTurn 88)
    (by rw [count_inTurn]; decide)
  dsimp only at collected
  exact collected

/-- An array that a step of a request changes is no rule's, and no other request holds a slice of
it. -/
theorem changed_array_unshared {ι : Type} [DecidableEq ι] (growth : Growth) (matcher : Matcher)
    (h : Heap) (reached : Reached growth h) (calls : ι → Call) (schedule : List ι)
    (i : ι) (a : ℕ) (bound : a < (run growth matcher h calls schedule).shared.mem.length)
    (differs : (run growth matcher h calls (schedule ++ [i])).shared.mem[a]? ≠
      (run growth matcher h calls schedule).shared.mem[a]?) :
    (∀ r, ∀ t ∈ h.slice r, t.array ≠ a) ∧
      ∀ j ≠ i, ∀ s ∈ ((run growth matcher h calls schedule).phase j).stack, ∀ t ∈ s,
        t.array ≠ a := by
  obtain ⟨good, whole⟩ := reached.good
  have inv : Inv growth matcher h calls _ := inv_run reached schedule
  rw [run_concat] at differs
  obtain ⟨new, others⟩ := inv.held.changed (inv.advanced good whole i).move bound differs
  refine ⟨fun r t here => ?_, others⟩
  have old := (good.valid r).below t here
  omega

/-- Two requests have got to the second rule that they inherit from the server's parent. -/
theorem changed_array_unshared_site :
    (∀ r, ∀ t ∈ siteHeap.slice r, t.array ≠ 5) ∧
      ∀ j ≠ false, ∀ s ∈ ((run roomy siteMatch siteHeap (fun _ => siteCall)
        (inTurn 11)).phase j).stack, ∀ t ∈ s, t.array ≠ 5 :=
  changed_array_unshared roomy siteMatch siteHeap (.build site .start)
    (fun _ => siteCall) (inTurn 11) false 5 (by decide) fun same =>
      absurd (congrArg (Option.map Backing.cells) same) (by decide)

end RequestRaces
