import Vince.RuleHeap
import Vince.VirtualHost

/-!
# Server names with a wildcard, and the order of the tables

Two properties of the lookup by name. A wildcard stands for one or more labels at its end of the
name: this is so for a trailing wildcard, while a leading one matches by the number of labels
alone. And a lookup may visit the tables in any order: this does not show, except where regular
expressions of several servers match. Servers are known by the pointers to them.
-/

namespace ServerLookup

open GoText ConfigParse ServerRules VirtualHost

/-! ## Labels -/

def labels (s : Text) : List Text := s.splitOn '.'

theorem labels_append (t u : Text) : labels (t ++ '.' :: u) = labels t ++ labels u :=
  List.splitOn_append_cons_self t u

theorem labels_leading (t : Text) : labels ('*' :: '.' :: t) = ['*'] :: labels t :=
  labels_append ['*'] t

theorem labels_trailing (t : Text) : labels (t ++ ['.', '*']) = labels t ++ [['*']] :=
  labels_append t ['*']

theorem labels_ne_nil (s : Text) : labels s ≠ [] := List.splitOn_ne_nil '.' s

theorem join_labels (s : Text) : ['.'].intercalate (labels s) = s := List.intercalate_splitOn '.'

theorem intercalate_append (sep : Text) {a b : List Text} (left : a ≠ []) (right : b ≠ []) :
    sep.intercalate (a ++ b) = sep.intercalate a ++ sep ++ sep.intercalate b := by
  induction a with
  | nil => exact absurd rfl left
  | cons l a ih =>
    by_cases last : a = []
    · subst last
      rw [List.singleton_append, List.intercalate_cons_of_ne_nil right, List.intercalate_singleton]
    · have more : a ++ b ≠ [] := by simp [last]
      rw [List.cons_append, List.intercalate_cons_of_ne_nil more,
        List.intercalate_cons_of_ne_nil last, ih last]
      simp only [List.append_assoc]

/-- A text continues another after a dot when its labels do. -/
theorem continues_iff (s t : Text) : (∃ u, s = t ++ '.' :: u) ↔
    labels t <+: labels s ∧ (labels t).length < (labels s).length := by
  constructor
  · rintro ⟨u, rfl⟩
    have some := List.length_pos_iff.mpr (labels_ne_nil u)
    rw [labels_append, List.length_append]
    exact ⟨List.prefix_append _ _, by omega⟩
  · rintro ⟨⟨rest, parts⟩, longer⟩
    have some : rest ≠ [] := by
      rintro rfl
      rw [List.append_nil] at parts
      rw [parts] at longer
      omega
    refine ⟨['.'].intercalate rest, ?_⟩
    have joined := intercalate_append ['.'] (labels_ne_nil t) some
    rwa [parts, join_labels, join_labels, List.append_assoc] at joined

/-! ## The loop of `matchWildCard` -/

/-- From a wildcard on, every label is passed. -/
theorem wildLoop_star (sp wp : List Text) : wildLoop sp (['*'] :: wp) = .ok true := by
  induction sp with
  | nil => rfl
  | cons s sp ih => rw [wildLoop, if_pos rfl, ih]

theorem wildLoop_trailing {stem sp : List Text} (plain : ['*'] ∉ stem)
    (enough : stem.length ≤ sp.length) :
    wildLoop sp (stem ++ [['*']]) = .ok true ↔ stem <+: sp := by
  induction stem generalizing sp with
  | nil => exact iff_of_true (wildLoop_star sp []) List.nil_prefix
  | cons w stem ih =>
    cases sp with
    | nil => simp at enough
    | cons s sp =>
      obtain ⟨other, plain⟩ := not_or.mp (mt List.mem_cons.mpr plain)
      rw [List.cons_append, wildLoop, if_neg (Ne.symm other), List.cons_prefix_cons]
      by_cases same : s = w
      · have shorter : stem.length ≤ sp.length := by simpa using enough
        rw [if_pos same, ih plain shorter, and_iff_right same.symm]
      · rw [if_neg same]
        exact iff_of_false (by simp) fun found => same found.1.symm

/-! ## What a wildcard is to match -/

/-- The text ends in a dot and `t`, with a label before. -/
def EndsIn (s t : Text) : Prop := ∃ u, s = u ++ '.' :: t

/-- The text starts with `t` and a dot, with a label after. -/
def StartsWith (s t : Text) : Prop := ∃ u, s = t ++ '.' :: u

/-- The name matches as its single wildcard says. -/
structure MatchesAsWritten (s w : Text) : Prop where
  leading : ∀ t, w = '*' :: '.' :: t → (matchWildCard s w = .ok true ↔ EndsIn s t)
  trailing : ∀ t, w = t ++ ['.', '*'] → (matchWildCard s w = .ok true ↔ StartsWith s t)

theorem matchWildCard_true_iff (s w : Text) : matchWildCard s w = .ok true ↔
    (labels w).length ≤ (labels s).length ∧ wildLoop (labels s) (labels w) = .ok true := by
  rw [matchWildCard]
  change (if (labels s).length < (labels w).length then _ else _) = _ ↔ _
  by_cases fewer : (labels s).length < (labels w).length
  · rw [if_pos fewer]
    exact iff_of_false (by simp) fun both => by omega
  · rw [if_neg fewer, and_iff_right (by omega)]
    rfl

/-- A leading wildcard looks at nothing but the number of labels. -/
theorem matchWildCard_leading (s t : Text) : matchWildCard s ('*' :: '.' :: t) = .ok true ↔
    (labels t).length < (labels s).length := by
  rw [matchWildCard_true_iff, labels_leading, wildLoop_star, and_iff_left rfl, List.length_cons]
  omega

theorem matchWildCard_trailing {t : Text} (plain : ['*'] ∉ labels t) (s : Text) :
    matchWildCard s (t ++ ['.', '*']) = .ok true ↔ StartsWith s t := by
  rw [StartsWith, continues_iff, matchWildCard_true_iff, labels_trailing, List.length_append,
    and_comm]
  constructor
  · rintro ⟨matched, enough⟩
    have shorter : (labels t).length < (labels s).length := enough
    exact ⟨(wildLoop_trailing plain (by omega)).mp matched, shorter⟩
  · rintro ⟨starts, longer⟩
    exact ⟨(wildLoop_trailing plain (by omega)).mpr starts, longer⟩

theorem endsIn_longer {s t : Text} (ends : EndsIn s t) :
    (labels t).length < (labels s).length := by
  obtain ⟨u, rfl⟩ := ends
  have some := List.length_pos_iff.mpr (labels_ne_nil u)
  rw [labels_append, List.length_append]
  omega

/-- A host matches a wildcard as written, except that for a leading wildcard the host must have
fewer labels than the name or really end as the name does. -/
theorem wildcard_as_written_iff (s w : Text) (single : (labels w).count ['*'] = 1) :
    MatchesAsWritten s w ↔
      ∀ t, w = '*' :: '.' :: t → (labels s).length < (labels w).length ∨ EndsIn s t := by
  constructor
  · rintro ⟨leading, -⟩ t rfl
    by_cases fewer : (labels s).length < (labels ('*' :: '.' :: t)).length
    · exact .inl fewer
    · rw [labels_leading, List.length_cons] at fewer
      exact .inr ((leading t rfl).mp ((matchWildCard_leading s t).mpr (by omega)))
  · intro condition
    refine ⟨?_, ?_⟩
    · rintro t rfl
      have cases := condition t rfl
      rw [labels_leading, List.length_cons] at cases
      rw [matchWildCard_leading]
      constructor
      · intro longer
        exact cases.resolve_left (by omega)
      · exact endsIn_longer
    · rintro t rfl
      have plain : ['*'] ∉ labels t := by
        rw [labels_trailing, List.count_append, List.count_singleton_self] at single
        exact List.count_eq_zero.mp (by omega)
      exact matchWildCard_trailing plain s

/-- `www.b` and `*.b`. -/
theorem wildcard_as_written_sample :
    MatchesAsWritten "www.b".toList "*.b".toList :=
  (wildcard_as_written_iff "www.b".toList "*.b".toList (by decide)).mpr fun t same =>
    .inr (by cases same; exact ⟨"www".toList, rfl⟩)

/-- `a.b.c` matches `*.x.y`. -/
theorem leading_wildcard_matches_any :
    isWildCard "*.x.y".toList = true ∧ (labels "*.x.y".toList).count ['*'] = 1 ∧
      matchWildCard "a.b.c".toList "*.x.y".toList = .ok true ∧
      ¬ MatchesAsWritten "a.b.c".toList "*.x.y".toList := by
  refine ⟨by decide, by decide, rfl, fun ⟨leading, _⟩ => ?_⟩
  obtain ⟨u, same⟩ := (leading "x.y".toList rfl).mp rfl
  have ends : ".x.y".toList <:+ "a.b.c".toList := ⟨u, same.symm⟩
  revert ends
  decide

/-! ## Lookups in any order of the tables -/

variable {P : Type}

/-- The regular expressions of the server names, in the order of the configuration. -/
def regExps [RulePtr P] (servers : List P) : List (Text × P) := (listed servers).filterMap regEntry

theorem addName_default (srv : P) (h : HandlerMatch P) (a : Text) (d : Option P) :
    HandlerMatch.addName srv { h with defaultServer := d } a =
      (h.addName srv a).map ({ · with defaultServer := d }) := by
  unfold HandlerMatch.addName
  split
  · rfl
  · rfl
  · split <;> rfl

theorem foldlM_map {σ α : Type} {step : σ → α → Except Fault σ} {f : σ → σ}
    (commutes : ∀ s a, step (f s) a = (step s a).map f) (list : List α) (s : σ) :
    list.foldlM step (f s) = (list.foldlM step s).map f := by
  induction list generalizing s with
  | nil => rfl
  | cons a list ih =>
    rw [List.foldlM_cons, List.foldlM_cons, commutes]
    cases step s a with
    | error fault => rfl
    | ok s' => exact ih s'

/-- Any entry can be the first to be visited. -/
theorem exists_visits_head {built : HandlerMatch P} {entry : Text × P}
    (mem : entry ∈ built.regExp) :
    ∃ table rest, Visits built table ∧ table.regExp = entry :: rest := by
  obtain ⟨before, after, parts⟩ := List.append_of_mem mem
  refine ⟨{ built with regExp := entry :: (before ++ after) }, _, ⟨rfl, .refl _, ?_, rfl⟩, rfl⟩
  rw [parts]
  exact List.perm_middle.symm

/-- With entries of one server only, the first that matches gives that server in any order. -/
theorem find_map_perm {l l' : List (Text × P)} {p : Text × P → Bool} (perm : l'.Perm l)
    (one : ∀ e ∈ l, ∀ e' ∈ l, p e = true → p e' = true → e.2 = e'.2) :
    (l'.find? p).map (·.2) = (l.find? p).map (·.2) := by
  cases found : l.find? p with
  | none =>
    have nothing : l'.find? p = none :=
      List.find?_eq_none.mpr fun e mem => List.find?_eq_none.mp found e (perm.mem_iff.mp mem)
    rw [nothing]
  | some e =>
    have mem := List.mem_of_find?_eq_some found
    have holds := List.find?_some found
    cases found' : l'.find? p with
    | none => exact absurd holds (List.find?_eq_none.mp found' e (perm.mem_iff.mpr mem))
    | some e' =>
      have mem' := perm.mem_iff.mp (List.mem_of_find?_eq_some found')
      rw [Option.map_some, Option.map_some, one e' mem' e mem (List.find?_some found') holds]

variable [RulePtr P]

theorem init_default (servers : List P) (d : Option P) :
    HandlerMatch.init servers d =
      (HandlerMatch.init servers none).map ({ · with defaultServer := d }) :=
  foldlM_map (f := fun h : HandlerMatch P => { h with defaultServer := d })
    (fun h srv => foldlM_map (fun h a => addName_default srv h a d) (serverNames srv) h)
    servers ⟨[], [], [], none⟩

theorem tables_of_init {servers : List P} {d : Option P} {h : HandlerMatch P}
    (built : HandlerMatch.init servers d = .ok h) :
    Tables (listed servers) { h with defaultServer := none } := by
  rw [init_default] at built
  cases plain : HandlerMatch.init servers none with
  | error fault =>
    rw [plain] at built
    cases built
  | ok h₀ =>
    rw [plain] at built
    cases built
    have tables := tables_init plain
    exact tables.noDefault ▸ tables

section Find

variable {servers : List P} {h : HandlerMatch P} {matchString : Text → Text → Bool} {name : Text}
  (tables : Tables (listed servers) { h with defaultServer := none })
include tables

theorem find_exact {srv : P} (first : FirstListing servers name srv) :
    find matchString h name = .ok (some srv) := by
  obtain ⟨rest, found⟩ := tables.lookup_exact first
  have found' : h.exact.lookup name = some (srv :: rest) := found
  rw [find, found']

/-- The greatest wildcard that matches decides, for the last server that has it. -/
theorem find_wild (unlisted : ∀ srv, ¬ FirstListing servers name srv) {w : Text}
    (matched : WildMatch servers name w)
    (greatest : ∀ w', WildMatch servers name w' → less w w' = false) :
    find matchString h name = .ok (servers.reverse.find? (w ∈ serverNames ·)) := by
  obtain ⟨best, run, ⟨-, none⟩ | ⟨some, matched', greatest'⟩⟩ := tables.bestWild name
  · exact absurd matched (none _)
  · have same := eq_of_not_less (greatest' _ matched) (greatest _ matched')
    subst same
    have lister := matched.2.1
    rw [← listing_ne_nil] at lister
    obtain ⟨srv, last⟩ := Option.isSome_iff_exists.mp (List.getLast?_isSome.mpr lister)
    have entry := (tables.wild_iff best srv).mpr ⟨matched.1, last⟩
    have found : h.wild.lookup best = Option.some srv :=
      lookup_of_mem_nodup tables.wild_nodup entry
    have missing : h.exact.lookup name = none := tables.lookup_none unlisted
    have run' : bestWild name (h.wild.map (·.1)) = .ok best := run
    rw [find, missing, ← getLast_listing, last]
    simp only [run', bind, Except.bind, ne_eq, some, not_false_eq_true, if_true, found]

theorem find_regExp (unlisted : ∀ srv, ¬ FirstListing servers name srv)
    (unmatched : ∀ w, ¬ WildMatch servers name w) :
    find matchString h name =
      .ok (((h.regExp.find? (matchString ·.1 name)).map (·.2)).or h.defaultServer) := by
  have missing : h.exact.lookup name = none := tables.lookup_none unlisted
  obtain ⟨best, run, ⟨rfl, -⟩ | ⟨-, matched, -⟩⟩ := tables.bestWild name
  · have run' : bestWild name (h.wild.map (·.1)) = .ok [] := run
    rw [find, missing]
    simp only [run', bind, Except.bind, ne_eq, not_true_eq_false, if_false]
    cases h.regExp.find? (matchString ·.1 name) <;> rfl
  · exact absurd matched (unmatched _)

end Find

/-- The lookup gives one answer in whatever order the tables are visited, and where only regular
expressions match, the server of the first one in the configuration. -/
structure OrderFree (matchString : Text → Text → Bool) (servers : List P)
    (built : HandlerMatch P) (name : Text) : Prop where
  same : ∃ answer, ∀ table, Visits built table → find matchString table name = .ok answer
  first : (∀ srv, ¬ FirstListing servers name srv) → (∀ w, ¬ WildMatch servers name w) →
    ∀ entry, (regExps servers).find? (matchString ·.1 name) = some entry →
      ∀ table, Visits built table → find matchString table name = .ok (some entry.2)

section Orders

variable {matchString : Text → Text → Bool} {servers : List P} {d : Option P}
  {built table : HandlerMatch P} {name : Text}

theorem tables_of_visits (init : HandlerMatch.init servers d = .ok built)
    (visits : Visits built table) :
    Tables (listed servers) { table with defaultServer := none } :=
  (tables_of_init init).visits
    ⟨visits.exact_eq, visits.wild_perm, visits.regExp_perm, rfl⟩

/-- An entry that matches is the answer when it is visited first. -/
theorem answer_of_match (init : HandlerMatch.init servers d = .ok built)
    (unlisted : ∀ srv, ¬ FirstListing servers name srv)
    (unmatched : ∀ w, ¬ WildMatch servers name w) {answer : Option P}
    (same : ∀ table, Visits built table → find matchString table name = .ok answer)
    (e : Text × P) (mem : e ∈ regExps servers) (matched : matchString e.1 name = true) :
    answer = some e.2 := by
  have stored : e ∈ built.regExp := (tables_of_init init).regExp_perm.mem_iff.mpr mem
  obtain ⟨table, rest, visits, head⟩ := exists_visits_head stored
  have found := same table visits
  rw [find_regExp (tables_of_visits init visits) unlisted unmatched, head, List.find?_cons,
    matched] at found
  exact (Except.ok.inj found).symm

/-- The lookup does not depend on the order of the tables exactly if an exact name or a wildcard
decides, or the regular expressions that match are all of one server. -/
theorem lookup_order_free_iff (matchString : Text → Text → Bool) (servers : List P)
    (d : Option P) (built : HandlerMatch P) (name : Text)
    (init : HandlerMatch.init servers d = .ok built) :
    OrderFree matchString servers built name ↔
      (∃ srv, FirstListing servers name srv) ∨ (∃ w, WildMatch servers name w) ∨
        ∀ e ∈ regExps servers, ∀ e' ∈ regExps servers,
          matchString e.1 name = true → matchString e'.1 name = true → e.2 = e'.2 := by
  constructor
  · rintro ⟨⟨answer, same⟩, -⟩
    by_cases listed' : ∃ srv, FirstListing servers name srv
    · exact .inl listed'
    by_cases wild : ∃ w, WildMatch servers name w
    · exact .inr (.inl wild)
    have answers := answer_of_match init (not_exists.mp listed') (not_exists.mp wild) same
    refine .inr (.inr fun e mem e' mem' matched matched' => ?_)
    exact Option.some.inj ((answers e mem matched).symm.trans (answers e' mem' matched'))
  · intro condition
    by_cases listed' : ∃ srv, FirstListing servers name srv
    · obtain ⟨srv, first⟩ := listed'
      refine ⟨⟨some srv, fun table visits => ?_⟩, fun unlisted => absurd first (unlisted srv)⟩
      exact find_exact (tables_of_visits init visits) first
    have unlisted := not_exists.mp listed'
    obtain ⟨best, -, ⟨-, unmatched⟩ | ⟨-, matched, greatest⟩⟩ := (tables_of_init init).bestWild name
    · have one := (condition.resolve_left listed').resolve_left fun ⟨w, wild⟩ => unmatched w wild
      have answers : ∀ table, Visits built table → find matchString table name =
          .ok ((((regExps servers).find? (matchString ·.1 name)).map (·.2)).or
            built.defaultServer) := by
        intro table visits
        have tables := tables_of_visits init visits
        have perm : table.regExp.Perm (regExps servers) := tables.regExp_perm
        rw [find_regExp tables unlisted unmatched, visits.default_eq, find_map_perm perm one]
      refine ⟨⟨_, answers⟩, fun _ _ entry found table visits => ?_⟩
      rw [answers table visits, found]
      rfl
    · refine ⟨⟨servers.reverse.find? (best ∈ serverNames ·), fun table visits => ?_⟩,
        fun _ unmatched => absurd matched (unmatched best)⟩
      exact find_wild (tables_of_visits init visits) unlisted matched greatest

end Orders

private def contains (pattern name : Text) : Bool := pattern <:+: name

private def server (names : List Text) : ConfigAnalyze.Stmt :=
  ⟨"server".toList, [], 0, [], [], [],
    some [⟨"server_name".toList, [], 0, names, [], [], none⟩]⟩

/-- A block of two servers, which get the addresses 1 and 3. -/
private def pair (first second : List Text) : RuleHeap.Heap :=
  (RuleHeap.ruleFromStmt ⟨fun _ needed => needed, fun _ needed => Nat.le_refl needed⟩
    ⟨"http".toList, [], 0, [], [], [], some [server first, server second]⟩ none .empty).2

/-- `~a` and `~b` of one server, for a name that both match. -/
theorem lookup_order_free_sample :
    @OrderFree ℕ (pair [['~', 'a'], ['~', 'b']] []).rules contains [1, 3]
      ⟨[(['a'], 1), (['b'], 1)], [], [], none⟩ ['a', 'b'] := by
  refine (@lookup_order_free_iff ℕ (pair [['~', 'a'], ['~', 'b']] []).rules contains [1, 3] none _ _
    rfl).mpr (.inr (.inr ?_))
  decide +kernel

/-- Two servers with the same block, which has `~a`: each of them can be found for `a`. -/
theorem lookup_depends_on_order :
    let built : HandlerMatch ℕ := ⟨[(['a'], 1), (['a'], 3)], [], [], none⟩
    @HandlerMatch.init ℕ (pair [['~', 'a']] [['~', 'a']]).rules [1, 3] none = .ok built ∧
      ¬ @OrderFree ℕ (pair [['~', 'a']] [['~', 'a']]).rules contains [1, 3] built ['a'] := by
  refine ⟨rfl, fun free => ?_⟩
  obtain ⟨answer, same⟩ := @free.same
  have inOrder := same _ ⟨rfl, .refl _, .refl _, rfl⟩
  have swapped := same ⟨[(['a'], 3), (['a'], 1)], [], [], none⟩ ⟨rfl, .refl _, .swap _ _ _, rfl⟩
  have servers : some 1 = some 3 := Except.ok.inj (inOrder.trans swapped.symm)
  cases servers

end ServerLookup
