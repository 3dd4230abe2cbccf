import Vince.FileCache

/-!
# Files that are not used (`manageKeys`)

The tick of `inactive` deletes the files with fewer than `min` uses. The count of a file is not set
back at a tick: after one it is either gone or at least `min`, and from then on the file stays until
something else deletes it. The ticks are taken to be whole here, with nothing between what they read
and what they delete.
-/

namespace FileCache

open GoText Function

variable {Handle : Type} {c : Cache Handle} {key : Text}

/-- `Range` visits every entry. -/
def Visits (c : Cache Handle) (visited : List (Text × Int)) : Prop :=
  ∀ key n, (key, n) ∈ visited ↔ c.uses key = some n

/-- An operation that nothing comes between. -/
def Op.Whole (c : Cache Handle) : Op Handle → Prop
  | .sweepInactive visited => Visits c visited
  | .sweepValid _ visited => Visits c visited
  | .forget _ => False
  | _ => True

def WholeRun (c : Cache Handle) : List (Op Handle) → Prop
  | [] => True
  | op :: ops => op.Whole c ∧ WholeRun (c.apply op) ops

/-- How often an operation calls `hit` for the key. -/
def Op.hits (key : Text) (c : Cache Handle) : Op Handle → ℕ
  | .get k => if k = key ∧ key ∈ c.keys then 1 else 0
  | .put path (.ok _) => if path = key then 1 else 0
  | _ => 0

def hits (key : Text) (c : Cache Handle) : List (Op Handle) → ℕ
  | [] => 0
  | op :: ops => op.hits key c + hits key (c.apply op) ops

/-! ## The count of a key -/

/-- A count after some hits. -/
def bump (count : Option Int) (n : ℕ) : Option Int :=
  if n = 0 then count else some (count.getD 0 + n)

theorem uses_hit (c : Cache Handle) (path key : Text) :
    (c.hit path).uses key = bump (c.uses key) (if path = key then 1 else 0) := by
  rw [Cache.hit]
  by_cases same : path = key
  · subst same
    rw [if_pos rfl, bump, if_neg Nat.one_ne_zero]
    cases count : c.uses path with
    | none => simp
    | some n => simp
  · rw [if_neg same, bump, if_pos rfl]
    exact update_of_ne (Ne.symm same) ..

theorem uses_delete_lookup (inv : Inv c) (k key : Text) :
    (c.deleteUnsafe (c.lookup k)).uses key =
      if key = k ∧ key ∈ c.keys then none else c.uses key := by
  cases found : c.lookup k with
  | none =>
    have absent := inv.lookup_none.mp found
    have other : ¬ (key = k ∧ key ∈ c.keys) := by
      rintro ⟨rfl, here⟩
      exact absent here
    rw [if_neg other]
    rfl
  | some v =>
    obtain ⟨mem, rfl⟩ := inv.lookup_iff.mp found
    have here := Inv.mem_keys mem
    show update c.uses v.path none key = _
    by_cases same : key = v.path
    · rw [if_pos ⟨same, same ▸ here⟩, same, update_self]
    · rw [if_neg fun both => same both.1, update_of_ne same]

theorem uses_delete (inv : Inv c) (gone : List Text) (key : Text) :
    (c.delete gone).uses key = if key ∈ gone ∧ key ∈ c.keys then none else c.uses key := by
  induction gone generalizing c with
  | nil => simp [Cache.delete]
  | cons k gone ih =>
    have first := delete_lookup_effect inv k
    rw [Cache.delete, List.foldl_cons]
    refine (ih first.inv).trans ?_
    rw [uses_delete_lookup inv, first.keys]
    by_cases here : key ∈ c.keys
    · by_cases same : key = k
      · simp [same]
      · simp [here, same]
    · simp [here]

/-- What is swept has no count any more and is not in the cache. -/
theorem uses_sweep (inv : Inv c) (stale : Text → Int → Bool) (visited : List (Text × Int))
    (key : Text) :
    (c.sweep stale visited).uses key =
      if key ∈ Cache.junk stale visited then none else c.uses key := by
  rw [Cache.sweep, uses_delete (forget_effect inv _).inv]
  by_cases swept : key ∈ Cache.junk stale visited
  · simp [Cache.forget, swept]
  · simp [Cache.forget, swept]

theorem uses_makeRoom (inv : Inv c) (key : Text) :
    c.makeRoom.uses key = c.uses key ∨
      c.makeRoom.uses key = none ∧ key ∈ c.keys ∧ key ∉ c.makeRoom.keys := by
  rw [Cache.makeRoom]
  split
  · cases last : c.list.getLast? with
    | none => exact .inl rfl
    | some v =>
      have mem := List.mem_of_getLast? last
      have keys := (deleteUnsafe_effect inv mem).keys
      show update c.uses v.path none key = _ ∨ update c.uses v.path none key = _ ∧ _
      by_cases same : key = v.path
      · right
        subst same
        refine ⟨update_self .., Inv.mem_keys mem, ?_⟩
        rw [keys, List.mem_filter]
        simp
      · exact .inl (update_of_ne same ..)
  · exact .inl rfl

/-- What one operation does to the count of a key: it adds the hits, or drops the count and leaves
the key out of the cache. -/
theorem uses_apply (inv : Inv c) {op : Op Handle} (whole : op.Whole c) (key : Text) :
    (c.apply op).uses key = bump (c.uses key) (op.hits key c) ∨
      (c.apply op).uses key = none ∧ op.hits key c = 0 ∧ key ∉ (c.apply op).keys := by
  have swept (stale : Text → Int → Bool) (visited : List (Text × Int)) :
      (c.sweep stale visited).uses key = c.uses key ∨
        (c.sweep stale visited).uses key = none ∧ key ∉ (c.sweep stale visited).keys := by
    rw [uses_sweep inv, (sweep_effect inv stale visited).keys, Lru.remove, List.mem_filter]
    by_cases junk : key ∈ Cache.junk stale visited
    · exact .inr ⟨if_pos junk, by simp [junk]⟩
    · exact .inl (if_neg junk)
  cases op with
  | get k =>
    left
    simp only [Cache.apply, Cache.get, Op.hits]
    cases found : c.lookup k with
    | none =>
      have absent := inv.lookup_none.mp found
      have other : ¬ (k = key ∧ key ∈ c.keys) := by
        rintro ⟨rfl, here⟩
        exact absent here
      rw [if_neg other]
      rfl
    | some v =>
      obtain ⟨mem, rfl⟩ := inv.lookup_iff.mp found
      have here := Inv.mem_keys mem
      have hit := uses_hit (c.moveToFront v) v.path key
      by_cases same : v.path = key
      · rw [if_pos ⟨same, same ▸ here⟩]
        rw [if_pos same] at hit
        exact hit
      · rw [if_neg fun both => same both.1]
        rw [if_neg same] at hit
        exact hit
  | put path opened =>
    cases opened with
    | error err => exact .inl rfl
    | ok file =>
      simp only [Cache.apply, Cache.put, Op.hits]
      cases found : c.lookup path with
      | some v => exact .inl (uses_hit ((c.moveToFront ⟨v.id, path, file⟩).close v.file) path key)
      | none =>
        have absent := inv.lookup_none.mp found
        have hit := uses_hit (c.makeRoom.pushFront path file) path key
        rcases uses_makeRoom inv key with same | ⟨none, here, gone⟩
        · left
          rw [show (c.makeRoom.pushFront path file).uses key = c.uses key from same] at hit
          exact hit
        · right
          have other : path ≠ key := fun same => absent (same ▸ here)
          rw [if_neg other] at hit ⊢
          refine ⟨hit.trans none, rfl, ?_⟩
          show key ∉ path :: c.makeRoom.keys
          simp [Ne.symm other, gone]
  | delete gone =>
    have count := uses_delete inv gone key
    by_cases both : key ∈ gone ∧ key ∈ c.keys
    · right
      refine ⟨count.trans (if_pos both), rfl, ?_⟩
      show key ∉ (c.delete gone).keys
      rw [(delete_effect inv gone).keys, Lru.remove, List.mem_filter]
      simp [both.1]
    · exact .inl (count.trans (if_neg both))
  | sweepInactive visited =>
    rcases swept (fun _ value => value < c.opts.min) visited with same | ⟨none, gone⟩
    · exact .inl same
    · exact .inr ⟨none, rfl, gone⟩
  | sweepValid isNotExist visited =>
    rcases swept (fun key _ => isNotExist key) visited with same | ⟨none, gone⟩
    · exact .inl same
    · exact .inr ⟨none, rfl, gone⟩
  | forget junk => exact absurd whole id
  | close report => exact .inl rfl

theorem getD_bump (count : Option Int) (n : ℕ) : (bump count n).getD 0 = count.getD 0 + n := by
  rw [bump]
  split
  · omega
  · rfl

/-! ## The files in the cache are counted -/

def Tracked (c : Cache Handle) : Prop := ∀ key ∈ c.keys, c.uses key ≠ none

/-- No operation brings in a key without a hit. -/
theorem mem_keys_of_no_hits (inv : Inv c) {op : Op Handle} (none : op.hits key c = 0)
    (mem : key ∈ (c.apply op).keys) : key ∈ c.keys := by
  have fewer (gone : List Text) (mem : key ∈ Lru.remove gone c.keys) : key ∈ c.keys :=
    List.mem_of_mem_filter mem
  rw [(apply_effect inv op).keys] at mem
  cases op with
  | get k =>
    by_cases here : k ∈ c.keys
    · rw [Op.onKeys, Lru.touch, if_pos here] at mem
      rcases List.mem_cons.mp mem with rfl | other
      · exact here
      · exact List.mem_of_mem_filter other
    · rw [Op.onKeys, Lru.touch, if_neg here] at mem
      exact mem
  | put path opened =>
    cases opened with
    | error err => exact mem
    | ok file =>
      have other : key ≠ path := by
        intro same
        simp [Op.hits, same] at none
      rw [Op.onKeys, Lru.insert] at mem
      split at mem
      · exact List.mem_of_mem_filter ((List.mem_cons.mp mem).resolve_left other)
      · exact (Lru.evict_sublist _ _).subset ((List.mem_cons.mp mem).resolve_left other)
  | delete gone => exact fewer _ mem
  | sweepInactive visited => exact fewer _ mem
  | sweepValid isNotExist visited => exact fewer _ mem
  | forget junk => exact mem
  | close report => cases mem

theorem tracked_apply (inv : Inv c) (tracked : Tracked c) {op : Op Handle} (whole : op.Whole c) :
    Tracked (c.apply op) := by
  intro key mem
  rcases uses_apply inv whole key with count | ⟨-, -, gone⟩
  · rw [count, bump]
    split
    · exact tracked key (mem_keys_of_no_hits inv ‹_› mem)
    · simp
  · exact absurd mem gone

theorem tracked_run (inv : Inv c) (tracked : Tracked c) {ops : List (Op Handle)}
    (whole : WholeRun c ops) : Tracked (ops.foldl Cache.apply c) := by
  induction ops generalizing c with
  | nil => exact tracked
  | cons op ops ih =>
    exact ih (apply_effect inv op).inv (tracked_apply inv tracked whole.1) whole.2

/-! ## Between two ticks -/

theorem wholeRun_append (c : Cache Handle) (ops later : List (Op Handle)) :
    WholeRun c (ops ++ later) ↔ WholeRun c ops ∧ WholeRun (ops.foldl Cache.apply c) later := by
  induction ops generalizing c with
  | nil => simp [WholeRun]
  | cons op ops ih => simp only [List.cons_append, WholeRun, ih, List.foldl_cons, and_assoc]

theorem hits_append (key : Text) (c : Cache Handle) (ops later : List (Op Handle)) :
    hits key c (ops ++ later) = hits key c ops + hits key (ops.foldl Cache.apply c) later := by
  induction ops generalizing c with
  | nil => simp [hits]
  | cons op ops ih => rw [List.cons_append, hits, hits, ih, List.foldl_cons, Nat.add_assoc]

/-- A count that is never dropped grows by the hits. -/
theorem uses_of_kept (inv : Inv c) {ops : List (Op Handle)} (whole : WholeRun c ops) {n : Int}
    (count : c.uses key = some n)
    (kept : ∀ early late, ops = early ++ late → (early.foldl Cache.apply c).uses key ≠ none) :
    (ops.foldl Cache.apply c).uses key = some (n + hits key c ops) := by
  induction ops generalizing c n with
  | nil => simpa [hits] using count
  | cons op ops ih =>
    have some := kept [op] ops rfl
    rcases uses_apply inv whole.1 key with counted | ⟨none, -, -⟩
    · have next : (c.apply op).uses key = Option.some (n + op.hits key c) := by
        rw [counted, count, bump]
        split
        · simp [*]
        · rfl
      rw [List.foldl_cons, ih (apply_effect inv op).inv whole.2 next, hits]
      · rw [Int.natCast_add, Int.add_assoc]
      · intro early late split
        exact kept (op :: early) late (by rw [split, List.cons_append])
    · exact absurd none some

theorem uses_le (inv : Inv c) {ops : List (Op Handle)} (whole : WholeRun c ops)
    (nonneg : 0 ≤ (c.uses key).getD 0) {m : Int}
    (count : (ops.foldl Cache.apply c).uses key = some m) :
    m ≤ (c.uses key).getD 0 + hits key c ops := by
  induction ops generalizing c with
  | nil =>
    have same : (c.uses key).getD 0 = m := by
      rw [show c.uses key = some m from count, Option.getD_some]
    simp [hits, same]
  | cons op ops ih =>
    have inv' := (apply_effect inv op).inv
    rw [hits, Int.natCast_add]
    rcases uses_apply inv whole.1 key with counted | ⟨none, no, -⟩
    · have later := ih inv' whole.2 (by rw [counted, getD_bump]; omega) count
      rw [counted, getD_bump] at later
      omega
    · have later := ih inv' whole.2 (by simp [none]) count
      rw [none, Option.getD_none] at later
      omega

/-- A count that was dropped has begun anew. -/
theorem uses_of_dropped (inv : Inv c) {early late : List (Op Handle)}
    (whole : WholeRun c (early ++ late)) (dropped : (early.foldl Cache.apply c).uses key = none)
    {m : Int} (count : ((early ++ late).foldl Cache.apply c).uses key = some m) :
    m ≤ hits key c (early ++ late) := by
  rw [List.foldl_append] at count
  have rest := uses_le (run_effect inv early).inv ((wholeRun_append c early late).mp whole).2
    (by simp [dropped]) count
  rw [dropped, Option.getD_none] at rest
  rw [hits_append]
  omega

/-! ## The tick -/

theorem mem_junk_iff {visited : List (Text × Int)} (visits : Visits c visited)
    (stale : Text → Int → Bool) (key : Text) :
    key ∈ Cache.junk stale visited ↔ ∃ n, c.uses key = some n ∧ stale key n = true := by
  simp only [Cache.junk, List.mem_map, List.mem_filter]
  constructor
  · rintro ⟨⟨k, n⟩, ⟨mem, old⟩, rfl⟩
    exact ⟨n, (visits k n).mp mem, old⟩
  · rintro ⟨n, count, old⟩
    exact ⟨(key, n), ⟨(visits key n).mpr count, old⟩, rfl⟩

theorem mem_tick_iff (inv : Inv c) {visited : List (Text × Int)} (visits : Visits c visited)
    (key : Text) :
    key ∈ (c.apply (.sweepInactive visited)).keys ↔
      key ∈ c.keys ∧ ¬ ∃ n, c.uses key = some n ∧ n < c.opts.min := by
  have keys := (apply_effect inv (.sweepInactive visited)).keys
  have junk := mem_junk_iff visits (fun _ value => value < c.opts.min) key
  rw [keys, Op.onKeys, Lru.remove, List.mem_filter]
  simpa using fun _ => not_congr junk

/-- The counts after a tick. -/
def Settled (c : Cache Handle) : Prop := ∀ key n, c.uses key = some n → c.opts.min ≤ n

theorem settled_tick (inv : Inv c) {visited : List (Text × Int)} (visits : Visits c visited) :
    Settled (c.apply (.sweepInactive visited)) := by
  intro key n count
  have opts := (apply_effect inv (.sweepInactive visited)).opts
  have swept := uses_sweep inv (fun _ value => value < c.opts.min) visited key
  rw [Cache.apply, Cache.sweepInactive, swept] at count
  rw [opts]
  split at count
  · cases count
  · rename_i kept
    rw [mem_junk_iff visits] at kept
    by_contra less
    exact kept ⟨n, count, by simpa using less⟩

/-- A cache right after it was made, or after a tick. -/
theorem settled_run {opts : Options} {start : Cache Handle}
    (started : Cache.init opts = some start) {before : List (Op Handle)}
    (whole : WholeRun start before)
    (ticked : before = [] ∨ ∃ earlier visited, before = earlier ++ [.sweepInactive visited]) :
    Settled (before.foldl Cache.apply start) := by
  rcases ticked with rfl | ⟨earlier, visited, rfl⟩
  · intro key n count
    rw [List.foldl_nil, init_cases started] at count
    cases count
  · obtain ⟨-, tick, -⟩ := (wholeRun_append start earlier _).mp whole
    rw [List.foldl_append]
    exact settled_tick (run_effect (inv_init started) earlier).inv tick

/-- A file with too few uses since the last tick leaves at the next one iff it is not there, or
its count was dropped since. -/
theorem unused_leaves_iff (opts : Options) (start : Cache Handle)
    (started : Cache.init opts = some start) (before between : List (Op Handle))
    (visited : List (Text × Int))
    (ticked : before = [] ∨ ∃ earlier visited, before = earlier ++ [.sweepInactive visited])
    (whole : WholeRun start (before ++ between ++ [.sweepInactive visited])) (key : Text)
    (few : hits key (before.foldl Cache.apply start) between < opts.min) :
    let last := before.foldl Cache.apply start
    let c := between.foldl Cache.apply last
    key ∉ (c.apply (.sweepInactive visited)).keys ↔
      key ∉ c.keys ∨ ∃ early late, between = early ++ late ∧
        (early.foldl Cache.apply last).uses key = none := by
  intro last c
  obtain ⟨runs, tick, -⟩ := (wholeRun_append start (before ++ between) _).mp whole
  obtain ⟨first, second⟩ := (wholeRun_append start before between).mp runs
  rw [List.foldl_append] at tick
  have invStart := inv_init started
  have effect := run_effect invStart before
  have effect' := run_effect effect.inv between
  have same : last.opts = opts := by
    rw [effect.opts, init_cases started]
  have same' : c.opts = opts := effect'.opts.trans same
  have leaves : key ∉ (c.apply (.sweepInactive visited)).keys ↔
      key ∉ c.keys ∨ ∃ n, c.uses key = some n ∧ n < opts.min := by
    rw [mem_tick_iff effect'.inv tick key, not_and_or, not_not, ← same']
  rw [leaves]
  by_cases here : key ∈ c.keys
  · simp only [here, not_true_eq_false, false_or]
    constructor
    · rintro ⟨n, count, less⟩
      by_contra kept
      -- the count would be at least `min` since the last tick
      have never : ∀ early late, between = early ++ late →
          (early.foldl Cache.apply last).uses key ≠ none :=
        fun early late split dropped => kept ⟨early, late, split, dropped⟩
      obtain ⟨m, old⟩ := Option.ne_none_iff_exists'.mp (never [] between rfl)
      have enough := settled_run started first ticked key m old
      have grown := uses_of_kept effect.inv second old never
      rw [show between.foldl Cache.apply last = c from rfl, count, Option.some.injEq] at grown
      rw [show (before.foldl Cache.apply start).opts = opts from same] at enough
      omega
    · rintro ⟨early, late, rfl, dropped⟩
      have tracked : Tracked c := by
        refine tracked_run effect.inv (tracked_run invStart ?_ first) second
        intro key mem
        rw [init_cases started] at mem
        cases mem
      obtain ⟨n, count⟩ := Option.ne_none_iff_exists'.mp (tracked key here)
      have anew := uses_of_dropped effect.inv second dropped count
      exact ⟨n, count, by omega⟩
  · simp only [here, not_false_eq_true, true_or]

/-- A cache that has just been made, and one file that is put in. -/
private def made (min : Int) : Cache ℕ := ⟨⟨true, 2, min⟩, [], fun _ => none, fun _ => none, 0, []⟩

private def putOne : List (Op ℕ) := [.put ['a'] (.ok 0)]

private theorem visits_putOne (min : Int) :
    Visits (putOne.foldl Cache.apply (made min)) [(['a'], 1)] := by
  intro key n
  show (key, n) ∈ [(['a'], 1)] ↔ update (fun _ => none) ['a'] (some 1) key = some n
  by_cases same : key = ['a']
  · simp [same, eq_comm]
  · simp [same]

theorem unused_leaves_sample :
    ['a'] ∈ (putOne.foldl Cache.apply (made 2)).keys ∧
      ['a'] ∉ ((putOne.foldl Cache.apply (made 2)).apply (.sweepInactive [(['a'], 1)])).keys := by
  have whole : WholeRun (made 2) ([] ++ putOne ++ [.sweepInactive [(['a'], 1)]]) :=
    ⟨trivial, visits_putOne 2, trivial⟩
  refine ⟨by decide, ?_⟩
  exact (unused_leaves_iff ⟨true, 2, 2⟩ (made 2) rfl [] putOne [(['a'], 1)] (.inl rfl) whole ['a']
    (by decide)).mpr (.inr ⟨[], putOne, rfl, rfl⟩)

/-- A file that is put in before the first tick and never used again is still there after the
second. -/
theorem unused_file_stays :
    let tick : Op ℕ := .sweepInactive [(['a'], 1)]
    let last := (putOne ++ [tick]).foldl Cache.apply (made 1)
    WholeRun (made 1) (putOne ++ [tick] ++ [] ++ [tick]) ∧ ['a'] ∈ last.keys ∧
      hits ['a'] last [] = 0 ∧ ['a'] ∈ (last.apply tick).keys := by
  intro tick last
  have visits : Visits last [(['a'], 1)] := by
    intro key n
    have uses : last.uses key = (putOne.foldl Cache.apply (made 1)).uses key := rfl
    rw [uses]
    exact visits_putOne 1 key n
  exact ⟨⟨trivial, visits_putOne 1, visits, trivial⟩, by decide, rfl, by decide⟩

end FileCache
