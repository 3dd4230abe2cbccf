import Vince.ServerRules

/-!
# Choosing a location for a path (`ngx_startup.go`)

`locationMatch.load` and `match`. The arguments of a rule are read by index as the source reads
them, so that an index out of range shows. Candidates are sorted by `sort.Slice`, whose comparison
looks at the slice as it stands at that moment; it is the one of Go 1.12, of which nothing beyond
the first comparison is needed for more than twelve elements. Matching a regular expression is a
parameter, and patterns are taken to compile.
-/

namespace LocationMatch

open GoText ConfigParse ServerRules

/-! ## Loading -/

inductive MatchKind where
  | matchExact
  | matchCaret
  | matchPrefix
  | matchRegexp
  deriving DecidableEq, Repr

/-- `match`. Of `re` we have the pattern, which is empty where the pointer is nil. -/
structure Match (P : Type) where
  kind : MatchKind
  rule : P
  re : Text

variable {P : Type} [RulePtr P]

/-- What `load` makes of one child. -/
def loadOne (ch : P) : Option (Match P) :=
  if RulePtr.name ch = "location".toList then
    match RulePtr.args ch with
    | [_] => some ⟨.matchPrefix, ch, []⟩
    | [modifier, pattern] =>
      if modifier = "=".toList then some ⟨.matchExact, ch, []⟩
      else if modifier = "~".toList then some ⟨.matchRegexp, ch, pattern⟩
      else if modifier = "~*".toList then some ⟨.matchRegexp, ch, "(?i)".toList ++ pattern⟩
      else if modifier = "^~".toList then some ⟨.matchCaret, ch, []⟩
      else none
    | _ => none
  else none

def load (srv : P) : List (Match P) := (RulePtr.children srv).filterMap loadOne

/-! ## Matching -/

/-- `r.args[i]`. -/
def arg (r : P) (i : Nat) : Except Fault Text :=
  match (RulePtr.args r)[i]? with
  | some a => .ok a
  | none => .error .indexOutOfRange

/-- The first loop of `match`. -/
def findExact (path : Text) : List (Match P) → Except Fault (Option (Match P))
  | [] => .ok none
  | m :: rest =>
    if m.kind = .matchExact then do
      if (← arg m.rule 1) = path then .ok (some m) else findExact path rest
    else findExact path rest

/-- The cases of the switch in the second loop. -/
def isCandidate (path : Text) (m : Match P) : Except Fault Bool :=
  match m.kind with
  | .matchPrefix => (arg m.rule 0).map (·.isPrefixOf path)
  | .matchCaret => (arg m.rule 1).map (·.isPrefixOf path)
  | _ => .ok false

/-- The second loop. -/
def candidates (path : Text) : List (Match P) → Except Fault (List (Match P))
  | [] => .ok []
  | m :: rest => do
    let taken ← isCandidate path m
    let others ← candidates path rest
    .ok (if taken then m :: others else others)

/-- The comparison given to `sort.Slice`. -/
def lessAt (m : List (Match P)) (i j : Nat) : Except Fault Bool :=
  match m[i]? with
  | none => .error .indexOutOfRange
  | some x => do
    let a ← arg x.rule i
    let b ← arg x.rule j
    .ok (less b a)

def swap (m : List (Match P)) (i j : Nat) : List (Match P) :=
  match m[i]?, m[j]? with
  | some x, some y => (m.set i y).set j x
  | _, _ => m

/-- The inner loop of `insertionSort_func`, with `j` counting down. -/
def sink : Nat → List (Match P) → Except Fault (List (Match P))
  | 0, m => .ok m
  | j + 1, m => do
    if ← lessAt m (j + 1) j then sink j (swap m (j + 1) j) else .ok m

def insertionSort (m : List (Match P)) : Except Fault (List (Match P)) :=
  (List.range' 1 (m.length - 1)).foldlM (fun m i => sink i m) m

/-- The pass with gap 6 before it. -/
def shellPass (m : List (Match P)) : Except Fault (List (Match P)) :=
  (List.range' 6 (m.length - 6)).foldlM (fun m i => do
    if ← lessAt m i (i - 6) then .ok (swap m i (i - 6)) else .ok m) m

/-- `sort.Slice`. `quickSort` stands for what follows the first comparison of a long slice. -/
def sortSlice (quickSort : Bool → List (Match P) → Except Fault (List (Match P)))
    (m : List (Match P)) : Except Fault (List (Match P)) :=
  if 12 < m.length then do
    let first ← lessAt m 0 (if 40 < m.length then m.length / 8 else m.length / 2)
    quickSort first m
  else if 1 < m.length then do
    let m ← shellPass m
    insertionSort m
  else .ok m

section Match

variable (quickSort : Bool → List (Match P) → Except Fault (List (Match P)))
  (matchString : Text → Text → Bool) (path : Text)

/-- A regular expression location that matches. -/
def hits (m : Match P) : Bool := m.kind = .matchRegexp && matchString m.re path

/-- The last loop: it goes through `ls.rules` but counts the locations of another list. -/
def scanFirst : Nat → List (Match P) → Except Fault (Option (Match P))
  | 0, _ => .ok none
  | _ + 1, [] => .error .indexOutOfRange
  | n + 1, m :: rest => if hits matchString path m then .ok (some m) else scanFirst n rest

/-- What follows once a plain prefix location is selected. -/
def nested (ls : List (Match P)) (selected : Match P) : Except Fault (Option (Match P)) :=
  let up := load selected.rule
  match up.find? (hits matchString path) with
  | some m => .ok (some m)
  | none => do
    match ← scanFirst matchString path up.length ls with
    | some m => .ok (some m)
    | none => .ok (some selected)

/-- `locationMatch.match`. -/
def matchPath (ls : List (Match P)) : Except Fault (Option (Match P)) := do
  match ← findExact path ls with
  | some m => .ok (some m)
  | none =>
    let m ← candidates path ls
    let m ← sortSlice quickSort m
    match m with
    | [] => .ok none
    | selected :: _ =>
      if selected.kind = .matchCaret then .ok (some selected)
      else nested matchString path ls selected

end Match

/-! ## What is loaded -/

/-- The text of a location: its last argument. -/
def Match.text (m : Match P) : Text := (RulePtr.args m.rule).getLastD []

/-- The arguments that come with each kind. -/
inductive Loaded (m : Match P) : Prop where
  | plain {p : Text} (kind : m.kind = .matchPrefix) (args : RulePtr.args m.rule = [p])
  | caret {p : Text} (kind : m.kind = .matchCaret) (args : RulePtr.args m.rule = ["^~".toList, p])
  | other {modifier p : Text} (kind : m.kind = .matchExact ∨ m.kind = .matchRegexp)
      (args : RulePtr.args m.rule = [modifier, p])

theorem loaded_of_loadOne {ch : P} {m : Match P} (made : loadOne ch = some m) : Loaded m := by
  rw [loadOne] at made
  split at made
  · split at made
    · rename_i p args
      cases made
      exact .plain rfl args
    · rename_i modifier p args
      split at made
      · cases made
        exact .other (.inl rfl) args
      split at made
      · cases made
        exact .other (.inr rfl) args
      split at made
      · cases made
        exact .other (.inr rfl) args
      split at made
      · rename_i caret
        cases made
        exact .caret rfl (caret ▸ args)
      · cases made
    · cases made
  · cases made

theorem rule_of_loadOne {ch : P} {m : Match P} (made : loadOne ch = some m) :
    m.rule = ch ∧ RulePtr.name ch = "location".toList := by
  rw [loadOne] at made
  split at made
  · rename_i name
    refine ⟨?_, name⟩
    repeat' split at made
    all_goals cases made
    all_goals rfl
  · cases made

theorem loaded_of_mem {srv : P} {m : Match P} (mem : m ∈ load srv) : Loaded m := by
  obtain ⟨ch, -, made⟩ := List.mem_filterMap.mp mem
  exact loaded_of_loadOne made

def isExact (path : Text) (m : Match P) : Bool := m.kind = .matchExact && m.text = path

/-- A plain or `^~` location whose text the path starts with. -/
def covers (path : Text) (m : Match P) : Bool :=
  (m.kind = .matchPrefix || m.kind = .matchCaret) && m.text.isPrefixOf path

variable {m : Match P} {ls : List (Match P)} {path : Text}

theorem Loaded.short (loaded : Loaded m) : (RulePtr.args m.rule).length ≤ 2 := by
  cases loaded with
  | plain kind args => simp [args]
  | caret kind args => simp [args]
  | other kind args => simp [args]

theorem kind_of_candidate (mem : m ∈ ls.filter (covers path)) :
    m.kind = .matchPrefix ∨ m.kind = .matchCaret := by
  have covered := (List.mem_filter.mp mem).2
  rw [covers, Bool.and_eq_true] at covered
  simpa using covered.1

theorem findExact_eq (loaded : ∀ m ∈ ls, Loaded m) :
    findExact path ls = .ok (ls.find? (isExact path)) := by
  induction ls with
  | nil => rfl
  | cons m rest ih =>
    rw [List.forall_mem_cons] at loaded
    rw [findExact, ih loaded.2, List.find?_cons]
    by_cases exact : m.kind = .matchExact
    · rw [if_pos exact]
      cases loaded.1 with
      | plain kind args => simp [exact] at kind
      | caret kind args => simp [exact] at kind
      | @other modifier p kind args =>
        by_cases same : p = path
        · simp [arg, args, isExact, exact, Match.text, same, bind, Except.bind]
        · simp [arg, args, isExact, exact, Match.text, same, bind, Except.bind]
    · simp [isExact, exact]

theorem isCandidate_eq (loaded : Loaded m) : isCandidate path m = .ok (covers path m) := by
  cases loaded with
  | plain kind args => simp [isCandidate, kind, arg, args, covers, Match.text, Except.map]
  | caret kind args => simp [isCandidate, kind, arg, args, covers, Match.text, Except.map]
  | other kind args => rcases kind with kind | kind <;> simp [isCandidate, kind, covers]

theorem candidates_eq (loaded : ∀ m ∈ ls, Loaded m) :
    candidates path ls = .ok (ls.filter (covers path)) := by
  induction ls with
  | nil => rfl
  | cons m rest ih =>
    rw [List.forall_mem_cons] at loaded
    rw [candidates, isCandidate_eq loaded.1, ih loaded.2, List.filter_cons]
    rfl

/-! ## Sorting the candidates -/

theorem arg_cases (r : P) (i : Nat) :
    (∃ a, arg r i = .ok a ∧ i < (RulePtr.args r).length) ∨ arg r i = .error .indexOutOfRange := by
  rw [arg]
  cases found : (RulePtr.args r)[i]? with
  | none => exact .inr rfl
  | some a => exact .inl ⟨a, rfl, (List.getElem?_eq_some_iff.mp found).1⟩

theorem lessAt_cases (list : List (Match P)) (i j : Nat) :
    (∃ b, lessAt list i j = .ok b) ∨ lessAt list i j = .error .indexOutOfRange := by
  rw [lessAt]
  cases list[i]? with
  | none => exact .inr rfl
  | some x =>
    rcases arg_cases x.rule i with ⟨a, first, -⟩ | out
    · rcases arg_cases x.rule j with ⟨b, second, -⟩ | out
      · exact .inl ⟨less b a, by simp [first, second, bind, Except.bind]⟩
      · exact .inr (by simp [first, out, bind, Except.bind])
    · exact .inr (by simp [out, bind, Except.bind])

/-- No location has a third argument to compare. -/
theorem lessAt_out {list : List (Match P)} {i j : Nat}
    (short : ∀ m ∈ list, (RulePtr.args m.rule).length ≤ 2)
    (out : 2 ≤ i ∨ 2 ≤ j) : lessAt list i j = .error .indexOutOfRange := by
  rw [lessAt]
  cases found : list[i]? with
  | none => rfl
  | some x =>
    have bound := short x (List.mem_of_getElem? found)
    rcases arg_cases x.rule i with ⟨a, first, inside⟩ | outside
    · rcases arg_cases x.rule j with ⟨b, second, inside'⟩ | outside
      · omega
      · simp [first, outside, bind, Except.bind]
    · simp [outside, bind, Except.bind]

omit [RulePtr P] in
theorem mem_swap {list : List (Match P)} {i j : Nat} (mem : m ∈ swap list i j) : m ∈ list := by
  rw [swap] at mem
  split at mem
  · rename_i x y first second
    rcases List.mem_or_eq_of_mem_set mem with mem | rfl
    · rcases List.mem_or_eq_of_mem_set mem with mem | rfl
      · exact mem
      · exact List.mem_of_getElem? second
    · exact List.mem_of_getElem? first
  · exact mem

theorem shellPass_few {list : List (Match P)} (few : list.length ≤ 6) :
    shellPass list = .ok list := by
  have none : list.length - 6 = 0 := by omega
  rw [shellPass, none]
  rfl

theorem shellPass_out {list : List (Match P)}
    (short : ∀ m ∈ list, (RulePtr.args m.rule).length ≤ 2)
    (many : 6 < list.length) : shellPass list = .error .indexOutOfRange := by
  obtain ⟨n, more⟩ : ∃ n, list.length - 6 = n + 1 := ⟨list.length - 7, by omega⟩
  rw [shellPass, more, List.range'_succ, List.foldlM_cons, lessAt_out short (.inl (by omega))]
  rfl

theorem sink_one_cases (list : List (Match P)) :
    (∃ after, sink 1 list = .ok after ∧ ∀ m ∈ after, m ∈ list) ∨
      sink 1 list = .error .indexOutOfRange := by
  rw [sink]
  rcases lessAt_cases list 1 0 with ⟨_ | _, compared⟩ | out
  · exact .inl ⟨list, by simp [compared, bind, Except.bind], fun m mem => mem⟩
  · exact .inl ⟨swap list 1 0, by simp [compared, sink, bind, Except.bind],
      fun m mem => mem_swap mem⟩
  · exact .inr (by simp [out, bind, Except.bind])

theorem insertionSort_out {list : List (Match P)}
    (short : ∀ m ∈ list, (RulePtr.args m.rule).length ≤ 2)
    (many : 3 ≤ list.length) : insertionSort list = .error .indexOutOfRange := by
  obtain ⟨n, more⟩ : ∃ n, list.length - 1 = n + 1 + 1 := ⟨list.length - 3, by omega⟩
  rw [insertionSort, more, List.range'_succ, List.range'_succ, List.foldlM_cons]
  rcases sink_one_cases list with ⟨after, sunk, kept⟩ | out
  · have short' : ∀ m ∈ after, (RulePtr.args m.rule).length ≤ 2 :=
      fun m mem => short m (kept m mem)
    have second : sink 2 after = .error .indexOutOfRange := by
      rw [sink, lessAt_out short' (.inl (by omega))]
      rfl
    rw [sunk]
    simp only [bind, Except.bind, List.foldlM_cons, second]
  · rw [out]
    rfl

/-- Three candidates or more are not sorted: some comparison asks for a third argument. -/
theorem sortSlice_out {quickSort : Bool → List (Match P) → Except Fault (List (Match P))}
    {list : List (Match P)} (short : ∀ m ∈ list, (RulePtr.args m.rule).length ≤ 2)
    (many : 3 ≤ list.length) :
    sortSlice quickSort list = .error .indexOutOfRange := by
  rw [sortSlice]
  by_cases long : 12 < list.length
  · have out : 2 ≤ if 40 < list.length then list.length / 8 else list.length / 2 := by
      split <;> omega
    rw [if_pos long, lessAt_out short (.inr out)]
    rfl
  · rw [if_neg long, if_pos (by omega)]
    by_cases few : list.length ≤ 6
    · rw [shellPass_few few]
      exact insertionSort_out short many
    · rw [shellPass_out short (by omega)]
      rfl

theorem sortSlice_two (quickSort : Bool → List (Match P) → Except Fault (List (Match P)))
    (x y : Match P) :
    sortSlice quickSort [x, y] =
      (lessAt [x, y] 1 0).map fun swapped => if swapped then [y, x] else [x, y] := by
  have sorted : insertionSort [x, y] = sink 1 [x, y] >>= fun after => .ok after := rfl
  rw [sortSlice, if_neg (by simp), if_pos (by simp), shellPass_few (by simp)]
  change insertionSort [x, y] = _
  rw [sorted, sink]
  rcases lessAt [x, y] 1 0 with _ | _ | _ <;> rfl

/-- The candidate that comes first after sorting. Of two, the second one decides: a plain location
has no second argument, and of a `^~` location the text is compared with its own modifier. -/
def chosen : List (Match P) → Except Fault (Option (Match P))
  | [] => .ok none
  | [m] => .ok (some m)
  | [x, y] =>
    if y.kind = .matchCaret then .ok (some (if less "^~".toList y.text then y else x))
    else .error .indexOutOfRange
  | _ => .error .indexOutOfRange

theorem sortSlice_head (quickSort : Bool → List (Match P) → Except Fault (List (Match P)))
    {list : List (Match P)} (loaded : ∀ m ∈ list, Loaded m)
    (kinds : ∀ m ∈ list, m.kind = .matchPrefix ∨ m.kind = .matchCaret) :
    (sortSlice quickSort list).map List.head? = chosen list := by
  rcases list with _ | ⟨x, _ | ⟨y, _ | ⟨z, rest⟩⟩⟩
  · rfl
  · rfl
  · rw [sortSlice_two, chosen]
    have loaded' := loaded y (by simp)
    cases loaded' with
    | plain kind args =>
      rw [if_neg (by simp [kind])]
      simp [lessAt, arg, args, bind, Except.bind, Except.map]
    | @caret p kind args =>
      have text : y.text = p := by simp [Match.text, args]
      rw [if_pos kind, text]
      simp only [lessAt, List.getElem?_cons_succ, List.getElem?_cons_zero, arg, args, bind,
        Except.bind, Except.map]
      cases less "^~".toList p <;> rfl
    | other kind args =>
      rcases kinds y (by simp) with plain | caret <;> simp_all
  · have short : ∀ m ∈ x :: y :: z :: rest, (RulePtr.args m.rule).length ≤ 2 :=
      fun m mem => (loaded m mem).short
    rw [sortSlice_out short (by simp)]
    rfl

theorem mem_of_chosen {list : List (Match P)} (chose : chosen list = .ok (some m)) : m ∈ list := by
  rcases list with _ | ⟨x, _ | ⟨y, _ | ⟨z, rest⟩⟩⟩
  · cases chose
  · cases chose
    exact List.mem_singleton_self _
  · rw [chosen] at chose
    split at chose
    · cases chose
      split <;> simp
    · cases chose
  · cases chose

/-! ## The last two loops -/

section Loops

variable {matchString : Text → Text → Bool} {selected : Match P}

omit [RulePtr P] in
theorem kind_of_hit (hit : hits matchString path m = true) : m.kind = .matchRegexp := by
  rw [hits, Bool.and_eq_true, decide_eq_true_eq] at hit
  exact hit.1

omit [RulePtr P] in
theorem scanFirst_eq (n : Nat) (ls : List (Match P)) : scanFirst matchString path n ls =
    ((ls.take n).find? (hits matchString path)).elim
      (if n ≤ ls.length then .ok none else .error .indexOutOfRange) fun m => .ok (some m) := by
  induction n generalizing ls with
  | zero => rfl
  | succ n ih =>
    cases ls with
    | nil => rfl
    | cons m rest =>
      rw [scanFirst, List.take_succ_cons, List.find?_cons]
      cases hit : hits matchString path m with
      | true => rfl
      | false =>
        rw [if_neg Bool.false_ne_true, ih, List.length_cons]
        simp only [Nat.add_le_add_iff_right]

/-- The locations that the last two loops look at once a plain location is selected. -/
def consulted (ls : List (Match P)) (selected : Match P) : List (Match P) :=
  load selected.rule ++ ls.take (load selected.rule).length

/-- Some regular expression that is consulted matches. -/
def Reaches (matchString : Text → Text → Bool) (path : Text) (ls : List (Match P))
    (selected : Match P) : Prop :=
  ∃ m ∈ consulted ls selected, hits matchString path m = true

theorem nested_eq (selected : Match P) : nested matchString path ls selected =
    ((consulted ls selected).find? (hits matchString path)).elim
      (if (load selected.rule).length ≤ ls.length then .ok (some selected)
        else .error .indexOutOfRange) fun m => .ok (some m) := by
  rw [nested, consulted, List.find?_append, scanFirst_eq]
  cases (load selected.rule).find? (hits matchString path) with
  | some m => rfl
  | none =>
    rw [Option.none_or]
    cases (ls.take (load selected.rule).length).find? (hits matchString path) with
    | some m => rfl
    | none =>
      by_cases inside : (load selected.rule).length ≤ ls.length
      · simp [inside, bind, Except.bind]
      · simp [inside, bind, Except.bind]

theorem nested_of_reaches (reaches : Reaches matchString path ls selected) :
    ∃ m, nested matchString path ls selected = .ok (some m) ∧ hits matchString path m = true := by
  obtain ⟨m, found⟩ := Option.isSome_iff_exists.mp (List.find?_isSome.mpr reaches)
  refine ⟨m, ?_, List.find?_some found⟩
  rw [nested_eq, found]
  rfl

theorem nested_of_not_reaches (missed : ¬ Reaches matchString path ls selected) :
    nested matchString path ls selected =
      if (load selected.rule).length ≤ ls.length then .ok (some selected)
      else .error .indexOutOfRange := by
  have nothing : (consulted ls selected).find? (hits matchString path) = none :=
    List.find?_eq_none.mpr fun m mem hit => missed ⟨m, mem, hit⟩
  rw [nested_eq, nothing]
  rfl

/-- The last loop stays inside the list. -/
def InRange (matchString : Text → Text → Bool) (path : Text) (ls : List (Match P))
    (selected : Match P) : Prop :=
  Reaches matchString path ls selected ∨ (load selected.rule).length ≤ ls.length

theorem nested_ok_iff : (∃ result, nested matchString path ls selected = .ok result) ↔
    InRange matchString path ls selected := by
  rw [InRange]
  by_cases reaches : Reaches matchString path ls selected
  · obtain ⟨m, run, -⟩ := nested_of_reaches reaches
    exact iff_of_true ⟨some m, run⟩ (.inl reaches)
  · rw [nested_of_not_reaches reaches, or_iff_right reaches]
    by_cases inside : (load selected.rule).length ≤ ls.length <;> simp [inside]

/-- What comes out is a regular expression that matches, or the plain location. -/
theorem nested_result {result : Option (Match P)}
    (run : nested matchString path ls selected = .ok result) :
    ∃ m, result = some m ∧ (hits matchString path m = true ∨ m = selected) := by
  by_cases reaches : Reaches matchString path ls selected
  · obtain ⟨m, run', hit⟩ := nested_of_reaches reaches
    cases run'.symm.trans run
    exact ⟨m, rfl, .inl hit⟩
  · rw [nested_of_not_reaches reaches] at run
    split at run
    · cases run
      exact ⟨selected, rfl, .inr rfl⟩
    · cases run

end Loops

/-! ## The whole of `match` -/

section Whole

variable {quickSort : Bool → List (Match P) → Except Fault (List (Match P))}
  {matchString : Text → Text → Bool} {x y : Match P}

variable (quickSort matchString) in
theorem matchPath_exact (loaded : ∀ m ∈ ls, Loaded m) (exact : ls.find? (isExact path) = some m) :
    matchPath quickSort matchString path ls = .ok (some m) := by
  rw [matchPath, findExact_eq loaded, exact]
  rfl

variable (quickSort matchString) in
/-- Without an exact location, what is chosen of the candidates decides. -/
theorem matchPath_chosen (loaded : ∀ m ∈ ls, Loaded m) (inexact : ls.find? (isExact path) = none) :
    matchPath quickSort matchString path ls = chosen (ls.filter (covers path)) >>= fun selected =>
      selected.elim (.ok none) fun m =>
        if m.kind = .matchCaret then .ok (some m) else nested matchString path ls m := by
  have candidate : ∀ m ∈ ls.filter (covers path), Loaded m :=
    fun m mem => loaded m (List.mem_of_mem_filter mem)
  rw [matchPath, findExact_eq loaded, inexact, candidates_eq loaded,
    ← sortSlice_head quickSort candidate fun m => kind_of_candidate]
  simp only [bind, Except.bind]
  rcases sortSlice quickSort (ls.filter (covers path)) with fault | sorted
  · rfl
  · cases sorted <;> rfl

/-- What is returned was loaded from some rule. -/
theorem matchPath_loaded {srv : P}
    (run : matchPath quickSort matchString path (load srv) = .ok (some m)) :
    ∃ r : P, m ∈ load r := by
  have loaded : ∀ m ∈ load srv, Loaded m := fun _ => loaded_of_mem
  cases exact : (load srv).find? (isExact path) with
  | some e =>
    rw [matchPath_exact quickSort matchString loaded exact] at run
    cases run
    exact ⟨srv, List.mem_of_find?_eq_some exact⟩
  | none =>
    rw [matchPath_chosen quickSort matchString loaded exact] at run
    rcases chose : chosen ((load srv).filter (covers path)) with _ | _ | selected
    · rw [chose] at run
      cases run
    · rw [chose] at run
      cases run
    · have here := List.mem_of_mem_filter (mem_of_chosen chose)
      rw [chose] at run
      change (if _ then _ else _) = _ at run
      split at run
      · cases run
        exact ⟨srv, here⟩
      · rw [nested_eq] at run
        cases found : (consulted (load srv) selected).find? (hits matchString path) with
        | some e =>
          rw [found] at run
          cases run
          rcases List.mem_append.mp (List.mem_of_find?_eq_some found) with inner | outer
          · exact ⟨_, inner⟩
          · exact ⟨srv, List.mem_of_mem_take outer⟩
        | none =>
          rw [found] at run
          change (if _ then _ else _) = _ at run
          split at run
          · cases run
            exact ⟨srv, here⟩
          · cases run

/-! ## The longest location -/

/-- The path starts with the location's text, and none such is longer. -/
def Longest (ls : List (Match P)) (path : Text) (m : Match P) : Prop :=
  m ∈ ls.filter (covers path) ∧ ∀ o ∈ ls.filter (covers path), o.text.length ≤ m.text.length

/-- What is expected of `match`. Where several locations are the longest, any of them will do,
and a plain one among them may give way to a regular expression. -/
structure LongestWins (quickSort : Bool → List (Match P) → Except Fault (List (Match P)))
    (matchString : Text → Text → Bool) (path : Text) (ls : List (Match P)) : Prop where
  returns : ∃ result, matchPath quickSort matchString path ls = .ok result
  exact : ∀ m, ls.find? (isExact path) = some m →
    matchPath quickSort matchString path ls = .ok (some m)
  longest : ls.find? (isExact path) = none →
    ∀ m, matchPath quickSort matchString path ls = .ok (some m) →
      m.kind = .matchCaret ∨ m.kind = .matchPrefix → Longest ls path m
  caret : ls.find? (isExact path) = none → (∃ m, Longest ls path m) →
    (∀ m, Longest ls path m → m.kind = .matchCaret) →
      ∃ m, Longest ls path m ∧ matchPath quickSort matchString path ls = .ok (some m)

theorem exists_longest {candidates : List (Match P)} (some : candidates ≠ []) :
    ∃ m ∈ candidates, ∀ o ∈ candidates, o.text.length ≤ m.text.length := by
  induction candidates with
  | nil => exact absurd rfl some
  | cons x rest ih =>
    by_cases last : rest = []
    · subst last
      exact ⟨x, List.mem_cons_self, by simp⟩
    · obtain ⟨m, mem, greatest⟩ := ih last
      by_cases longer : m.text.length ≤ x.text.length
      · refine ⟨x, List.mem_cons_self, ?_⟩
        rw [List.forall_mem_cons]
        exact ⟨Nat.le_refl _, fun o mem => (greatest o mem).trans longer⟩
      · refine ⟨m, List.mem_cons_of_mem _ mem, ?_⟩
        rw [List.forall_mem_cons]
        exact ⟨by omega, greatest⟩

/-- Without an exact location the last two parts are to be shown. -/
theorem wins_of_inexact (inexact : ls.find? (isExact path) = none)
    (returns : ∃ result, matchPath quickSort matchString path ls = .ok result)
    (longest : ∀ m, matchPath quickSort matchString path ls = .ok (some m) →
      m.kind = .matchCaret ∨ m.kind = .matchPrefix → Longest ls path m)
    (caret : (∃ m, Longest ls path m) → (∀ m, Longest ls path m → m.kind = .matchCaret) →
      ∃ m, Longest ls path m ∧ matchPath quickSort matchString path ls = .ok (some m)) :
    LongestWins quickSort matchString path ls where
  returns := returns
  exact m found := by
    rw [inexact] at found
    cases found
  longest _ := longest
  caret _ := caret

theorem wins_none (inexact : ls.find? (isExact path) = none) (none : ls.filter (covers path) = [])
    (run : matchPath quickSort matchString path ls = .ok Option.none) :
    LongestWins quickSort matchString path ls := by
  refine wins_of_inexact inexact ⟨_, run⟩ ?_ ?_
  · intro m run'
    cases run.symm.trans run'
  · rintro ⟨m, mem, -⟩
    rw [none] at mem
    cases mem

/-- A `^~` location that is returned must be a longest one. -/
theorem wins_caret_iff (inexact : ls.find? (isExact path) = none)
    (mem : m ∈ ls.filter (covers path)) (kind : m.kind = .matchCaret)
    (run : matchPath quickSort matchString path ls = .ok (some m)) :
    LongestWins quickSort matchString path ls ↔
      ∀ o ∈ ls.filter (covers path), o.text.length ≤ m.text.length := by
  constructor
  · intro wins
    exact (wins.longest inexact m run (.inl kind)).2
  · intro longest
    refine wins_of_inexact inexact ⟨_, run⟩ ?_ fun _ _ => ⟨m, ⟨mem, longest⟩, run⟩
    intro m' run' _
    cases run.symm.trans run'
    exact ⟨mem, longest⟩

/-- A plain location that is selected, with only `^~` locations beside it, must be a longest one,
and the loops that follow must stay in range. -/
theorem wins_plain_iff (inexact : ls.find? (isExact path) = none)
    (mem : m ∈ ls.filter (covers path)) (kind : m.kind = .matchPrefix)
    (others : ∀ o ∈ ls.filter (covers path), o = m ∨ o.kind = .matchCaret)
    (run : matchPath quickSort matchString path ls = nested matchString path ls m) :
    LongestWins quickSort matchString path ls ↔
      (∀ o ∈ ls.filter (covers path), o.text.length ≤ m.text.length) ∧
        InRange matchString path ls m := by
  constructor
  · intro wins
    have returns := wins.returns
    rw [run] at returns
    refine ⟨?_, nested_ok_iff.mp returns⟩
    by_contra notLongest
    -- then all longest locations are `^~`, and none of them is what comes out
    have carets : ∀ o, Longest ls path o → o.kind = .matchCaret := by
      intro o longest
      rcases others o longest.1 with rfl | caret
      · exact absurd longest.2 notLongest
      · exact caret
    obtain ⟨best, bestMem, greatest⟩ := exists_longest (List.ne_nil_of_mem mem)
    obtain ⟨o, longest, run'⟩ := wins.caret inexact ⟨best, bestMem, greatest⟩ carets
    have caret := carets o longest
    obtain ⟨o', same, hit | rfl⟩ := nested_result (run.symm.trans run')
    · cases same
      cases caret.symm.trans (kind_of_hit hit)
    · cases same
      rw [kind] at caret
      cases caret
  · rintro ⟨longest, inRange⟩
    refine wins_of_inexact inexact ?_ ?_ ?_
    · rw [run]
      exact nested_ok_iff.mpr inRange
    · intro m' run' kind'
      obtain ⟨o, same, hit | rfl⟩ := nested_result (run.symm.trans run')
      · cases same
        rw [kind_of_hit hit] at kind'
        rcases kind' with other | other <;> cases other
      · cases same
        exact ⟨mem, longest⟩
    · intro _ carets
      have caret := carets m ⟨mem, longest⟩
      rw [kind] at caret
      cases caret

/-- Of two candidates, the one that the sort puts first is the right one. -/
def PairRight (matchString : Text → Text → Bool) (path : Text) (ls : List (Match P))
    (x y : Match P) : Prop :=
  y.kind = .matchCaret ∧
    if less "^~".toList y.text then x.text.length ≤ y.text.length
    else y.text.length ≤ x.text.length ∧ (x.kind = .matchCaret ∨ InRange matchString path ls x)

theorem wins_of_exact (loaded : ∀ m ∈ ls, Loaded m) (exact : ls.find? (isExact path) = some m) :
    LongestWins quickSort matchString path ls := by
  have run := matchPath_exact quickSort matchString loaded exact
  refine ⟨⟨_, run⟩, ?_, ?_, ?_⟩
  · intro m' found
    rwa [← exact.symm.trans found]
  · intro inexact
    rw [exact] at inexact
    cases inexact
  · intro inexact
    rw [exact] at inexact
    cases inexact

theorem wins_one_iff (loaded : ∀ m ∈ ls, Loaded m) (inexact : ls.find? (isExact path) = none)
    (found : ls.filter (covers path) = [m]) :
    LongestWins quickSort matchString path ls ↔
      m.kind = .matchCaret ∨ InRange matchString path ls m := by
  have run := matchPath_chosen quickSort matchString loaded inexact
  have mem : m ∈ ls.filter (covers path) := by simp [found]
  have longest : ∀ o ∈ ls.filter (covers path), o.text.length ≤ m.text.length := by simp [found]
  rw [found, chosen] at run
  rcases kind_of_candidate mem with plain | caret
  · have other : m.kind ≠ .matchCaret := by simp [plain]
    have run' : matchPath quickSort matchString path ls = nested matchString path ls m :=
      run.trans (if_neg other)
    rw [wins_plain_iff inexact mem plain (by simp [found]) run', and_iff_right longest,
      or_iff_right other]
  · have run' : matchPath quickSort matchString path ls = .ok (some m) := run.trans (if_pos caret)
    exact iff_of_true ((wins_caret_iff inexact mem caret run').mpr longest) (.inl caret)

theorem wins_two_iff (loaded : ∀ m ∈ ls, Loaded m) (inexact : ls.find? (isExact path) = none)
    (found : ls.filter (covers path) = [x, y]) :
    LongestWins quickSort matchString path ls ↔ PairRight matchString path ls x y := by
  have run := matchPath_chosen quickSort matchString loaded inexact
  have first : x ∈ ls.filter (covers path) := by simp [found]
  have second : y ∈ ls.filter (covers path) := by simp [found]
  rw [found, chosen] at run
  rw [PairRight]
  by_cases caret : y.kind = .matchCaret
  · rw [if_pos caret] at run
    rw [and_iff_right caret]
    by_cases swapped : less "^~".toList y.text = true
    · rw [if_pos swapped] at run
      have run' : matchPath quickSort matchString path ls = .ok (some y) := run.trans (if_pos caret)
      rw [wins_caret_iff inexact second caret run', if_pos swapped, found]
      simp
    · rw [if_neg swapped] at run
      rw [if_neg swapped]
      rcases kind_of_candidate first with plain | caret'
      · have other : x.kind ≠ .matchCaret := by simp [plain]
        have run' : matchPath quickSort matchString path ls = nested matchString path ls x :=
          run.trans (if_neg other)
        have beside : ∀ o ∈ ls.filter (covers path), o = x ∨ o.kind = .matchCaret := by
          simp [found, caret]
        rw [wins_plain_iff inexact first plain beside run', or_iff_right other, found]
        simp
      · have run' : matchPath quickSort matchString path ls = .ok (some x) :=
          run.trans (if_pos caret')
        rw [wins_caret_iff inexact first caret' run', found]
        simp [caret']
  · rw [if_neg caret] at run
    refine iff_of_false ?_ fun right => caret right.1
    rintro ⟨⟨result, run'⟩, -⟩
    cases run.symm.trans run'

/-- `match` chooses as expected exactly if an exact location decides, or no location matches, or
one does and, if it is plain, the last loop stays in range, or two do and the sort happens to put
the right one first. -/
theorem longest_wins_iff (quickSort : Bool → List (Match P) → Except Fault (List (Match P)))
    (matchString : Text → Text → Bool) (srv : P) (path : Text) :
    LongestWins quickSort matchString path (load srv) ↔
      (∃ m, (load srv).find? (isExact path) = some m) ∨
      (load srv).filter (covers path) = [] ∨
      (∃ m, (load srv).filter (covers path) = [m] ∧
        (m.kind = .matchCaret ∨ InRange matchString path (load srv) m)) ∨
      ∃ x y, (load srv).filter (covers path) = [x, y] ∧
        PairRight matchString path (load srv) x y := by
  have loaded : ∀ m ∈ load srv, Loaded m := fun m => loaded_of_mem
  generalize load srv = ls at loaded
  cases exact : ls.find? (isExact path) with
  | some m => exact iff_of_true (wins_of_exact loaded exact) (.inl ⟨m, rfl⟩)
  | none =>
    rcases found : ls.filter (covers path) with _ | ⟨x, _ | ⟨y, _ | ⟨z, rest⟩⟩⟩
    · have run := matchPath_chosen quickSort matchString loaded exact
      rw [found] at run
      exact iff_of_true (wins_none exact found run) (.inr (.inl rfl))
    · rw [wins_one_iff loaded exact found]
      simp
    · rw [wins_two_iff loaded exact found]
      simp
    · have run := matchPath_chosen quickSort matchString loaded exact
      have out : chosen (x :: y :: z :: rest) = .error .indexOutOfRange := rfl
      rw [found, out] at run
      refine iff_of_false ?_ (by simp)
      rintro ⟨⟨result, run'⟩, -⟩
      cases run.symm.trans run'

private def location (args : List Text) (children : List Rule) : Rule :=
  ⟨"location".toList, args, children⟩

private def occurs (pattern path : Text) : Bool := pattern <:+: path

private def keep (_ : Bool) (m : List (Match Rule)) : Except Fault (List (Match Rule)) := .ok m

/-- `location /` and `location /a`, for the path `/a`: the sort reads a second argument that a
plain location does not have. -/
theorem two_plain_locations_fault :
    let ls := load <| Rule.mk "server".toList [] [location [['/']] [], location [['/', 'a']] []]
    matchPath keep occurs ['/', 'a'] ls = .error .indexOutOfRange ∧
      ¬ LongestWins keep occurs ['/', 'a'] ls := by
  refine ⟨rfl, ?_⟩
  rintro ⟨⟨result, run⟩, -⟩
  cases run

/-! ## Regular expressions -/

/-- `match` returns a regular expression location that matches, the first of the list where no
plain location has locations inside. -/
structure RegexpWins (quickSort : Bool → List (Match P) → Except Fault (List (Match P)))
    (matchString : Text → Text → Bool) (path : Text) (ls : List (Match P)) : Prop where
  returned : ∃ m, matchPath quickSort matchString path ls = .ok (some m) ∧
    hits matchString path m = true
  first : (∀ m ∈ ls, m.kind = .matchPrefix → load m.rule = []) →
    ∀ m, ls.find? (hits matchString path) = some m →
      matchPath quickSort matchString path ls = .ok (some m)

theorem not_wins_of_error {fault : Fault}
    (run : matchPath quickSort matchString path ls = .error fault) :
    ¬ RegexpWins quickSort matchString path ls := by
  rintro ⟨⟨m, run', -⟩, -⟩
  cases run.symm.trans run'

theorem regexp_wins_one_iff (mem : m ∈ ls) (kind : m.kind = .matchPrefix)
    (run : matchPath quickSort matchString path ls = nested matchString path ls m) :
    RegexpWins quickSort matchString path ls ↔ Reaches matchString path ls m := by
  constructor
  · rintro ⟨⟨m', run', hit⟩, -⟩
    by_contra missed
    rw [run, nested_of_not_reaches missed] at run'
    split at run'
    · cases run'
      cases kind.symm.trans (kind_of_hit hit)
    · cases run'
  · intro reaches
    obtain ⟨m', run', hit⟩ := nested_of_reaches reaches
    refine ⟨⟨m', run.trans run', hit⟩, fun bare => ?_⟩
    -- what is consulted comes with the locations inside
    obtain ⟨o, consulted', -⟩ := reaches
    rw [consulted, bare m mem kind] at consulted'
    cases consulted'

/-- Where no exact and no `^~` location matches, a regular expression that does is returned exactly
if a single plain location matches and such a regular expression is inside of it, or among as many
of the first locations of the list as are inside of it. -/
theorem regexp_wins_iff (quickSort : Bool → List (Match P) → Except Fault (List (Match P)))
    (matchString : Text → Text → Bool) (srv : P) (path : Text)
    (inexact : (load srv).find? (isExact path) = none)
    (uncaret : ∀ m ∈ load srv, m.kind = .matchCaret → covers path m = false) :
    RegexpWins quickSort matchString path (load srv) ↔
      ∃ m, (load srv).filter (covers path) = [m] ∧ Reaches matchString path (load srv) m := by
  have loaded : ∀ m ∈ load srv, Loaded m := fun m => loaded_of_mem
  generalize load srv = ls at loaded inexact uncaret
  have plain : ∀ m ∈ ls.filter (covers path), m.kind = .matchPrefix := by
    intro m mem
    rcases kind_of_candidate mem with plain | caret
    · exact plain
    · obtain ⟨mem, covered⟩ := List.mem_filter.mp mem
      rw [uncaret m mem caret] at covered
      cases covered
  have run := matchPath_chosen quickSort matchString loaded inexact
  rcases found : ls.filter (covers path) with _ | ⟨x, _ | ⟨y, _ | ⟨z, rest⟩⟩⟩
  · rw [found] at run
    refine iff_of_false ?_ (by simp)
    rintro ⟨⟨m, run', -⟩, -⟩
    cases run.symm.trans run'
  · have candidate : x ∈ ls.filter (covers path) := by simp [found]
    have kind := plain x candidate
    have other : x.kind ≠ .matchCaret := by simp [kind]
    rw [found] at run
    rw [regexp_wins_one_iff (List.mem_of_mem_filter candidate) kind (run.trans (if_neg other))]
    simp
  · have kind := plain y (by simp [found])
    have out : chosen [x, y] = .error .indexOutOfRange := if_neg (by simp [kind])
    rw [found, out] at run
    exact iff_of_false (not_wins_of_error run) (by simp)
  · have out : chosen (x :: y :: z :: rest) = .error .indexOutOfRange := rfl
    rw [found, out] at run
    exact iff_of_false (not_wins_of_error run) (by simp)

end Whole

/-- `location ~ b`, then `location /` with `location ~ c` inside, for the path `/b`. -/
theorem regexp_wins_sample :
    RegexpWins keep occurs ['/', 'b'] (load <| Rule.mk "server".toList []
      [location [['~'], ['b']] [], location [['/']] [location [['~'], ['c']] []]]) :=
  (regexp_wins_iff keep occurs _ _ rfl (by decide)).mpr
    ⟨⟨.matchPrefix, location [['/']] [location [['~'], ['c']] []], []⟩, rfl,
      ⟨.matchRegexp, location [['~'], ['b']] [], ['b']⟩,
      List.mem_cons_of_mem _ List.mem_cons_self, by decide⟩

/-- `location /` and `location ~ b`, for the path `/b`: the plain location is returned. -/
theorem regexp_passed_over :
    let ls := load <| Rule.mk "server".toList [] [location [['/']] [], location [['~'], ['b']] []]
    ls.find? (isExact ['/', 'b']) = none ∧
      (∀ m ∈ ls, m.kind = .matchCaret → covers ['/', 'b'] m = false) ∧
      (∃ m ∈ ls, hits occurs ['/', 'b'] m = true) ∧
      matchPath keep occurs ['/', 'b'] ls = .ok (some ⟨.matchPrefix, location [['/']] [], []⟩) ∧
      ¬ RegexpWins keep occurs ['/', 'b'] ls := by
  refine ⟨rfl, by decide, by decide, rfl, ?_⟩
  rintro ⟨⟨m, run, hit⟩, -⟩
  cases run
  cases hit

end LocationMatch
