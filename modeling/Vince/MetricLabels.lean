import Vince.GoText

/-!
# Labels of stored metrics (`metrics.go`)

A metric family is turned into entries for the storage, which asks for labels that are sorted by
name. The labels of a histogram or a summary go through a builder that sorts them, those of the
other metrics are copied as they are. The name of the metric is put in front of them, and the bound
of a bucket or the rank of a quantile behind them, wherever these names belong.
-/

namespace MetricLabels

open GoText

/-! ## The labels of the storage -/

structure Label where
  name : Text
  value : Text
  deriving DecidableEq

abbrev Labels := List Label

/-- What `labels.Labels` has to be. -/
def Sorted (ls : Labels) : Prop := ls.Pairwise fun a b => less a.name b.name = true

instance (ls : Labels) : Decidable (Sorted ls) := inferInstanceAs (Decidable (ls.Pairwise _))

/-- `Less` does not hold the other way round. -/
def AtMost (a b : Label) : Prop := less b.name a.name = false

instance : DecidableRel AtMost := fun a b =>
  inferInstanceAs (Decidable (less b.name a.name = false))

/-- `sort.Sort`, for labels with different names. -/
def sort (ls : Labels) : Labels := ls.insertionSort AtMost

structure Builder where
  base : Labels := []
  del : List Text := []
  add : Labels := []

/-- The loop of `Set` over what is added so far. -/
def setIn (n v : Text) : Labels → Labels
  | [] => [⟨n, v⟩]
  | a :: rest => if a.name = n then ⟨a.name, v⟩ :: rest else a :: setIn n v rest

def Builder.set (b : Builder) (n v : Text) : Builder := { b with add := setIn n v b.add }

def Builder.labels (b : Builder) : Labels :=
  if b.del = [] ∧ b.add = [] then b.base
  else sort (b.base.filter (fun l => l.name ∉ b.del ∧ l.name ∉ b.add.map Label.name) ++ b.add)

/-! ## Metric families -/

/-- A `dto.LabelPair`, whose fields are pointers. -/
structure LabelPair where
  name : Option Text
  value : Option Text

def LabelPair.getName (lp : LabelPair) : Text := lp.name.getD []

def LabelPair.getValue (lp : LabelPair) : Text := lp.value.getD []

structure Quantile (F : Type) where
  quantile : Option F
  value : Option F

structure Summary (F : Type) where
  sampleCount : Option ℕ
  sampleSum : Option F
  quantile : List (Quantile F)

structure Bucket (F : Type) where
  cumulativeCount : Option ℕ
  upperBound : Option F

structure Histogram (F : Type) where
  sampleCount : Option ℕ
  sampleSum : Option F
  bucket : List (Bucket F)

/-- A `dto.Metric`. A gauge, a counter and an untyped metric have a value that may be missing. -/
structure Metric (F : Type) where
  label : List LabelPair
  gauge : Option (Option F) := none
  counter : Option (Option F) := none
  untyped : Option (Option F) := none
  summary : Option (Summary F) := none
  histogram : Option (Histogram F) := none
  timestampMs : Option ℤ := none

inductive MetricType where
  | counter
  | gauge
  | summary
  | untyped
  | histogram
  deriving DecidableEq

structure MetricFamily (F : Type) where
  name : Option Text
  type : Option MetricType
  metric : List (Metric F)

/-- The floating point numbers, with their zero, `float64` of a count and `fmt.Sprint`. -/
structure Floats (F : Type) where
  zero : F
  ofCount : ℕ → F
  sprint : F → Text

/-! ## Entries -/

structure MetricEntry (F : Type) where
  labels : Labels
  ts : ℤ
  value : F

def nameLabel : Text := "__name__".toList

def bucketLabel : Text := "le".toList

def quantileLabel : Text := "quantile".toList

variable {F : Type}

def metricEntryFor (name : Text) (base : Labels) (ts : ℤ) (sum : F) : MetricEntry F :=
  ⟨⟨nameLabel, name⟩ :: base, ts, sum⟩

/-- The builder after the loop over the labels of a metric. -/
def builderOf (label : List LabelPair) : Builder :=
  label.foldl (fun base lp => base.set lp.getName lp.getValue) {}

/-- The entries of a metric that has a sum, a count and a number of points, each with a label of
its own. -/
def series (floats : Floats F) (name suffix label : Text) (m : Metric F) (sum : F) (count : ℕ)
    (points : List (F × F)) : List (MetricEntry F) :=
  let base := builderOf m.label
  let ts := m.timestampMs.getD 0
  metricEntryFor (name ++ "_sum".toList) base.labels ts sum ::
    metricEntryFor (name ++ "_count".toList) base.labels ts (floats.ofCount count) ::
    points.map fun p =>
      metricEntryFor (name ++ suffix) (base.labels ++ [⟨label, floats.sprint p.1⟩]) ts p.2

def summaryMetrics (floats : Floats F) (f : MetricFamily F) : List (MetricEntry F) :=
  f.metric.flatMap fun m =>
    match m.summary with
    | none => []
    | some s => series floats (f.name.getD []) [] quantileLabel m (s.sampleSum.getD floats.zero)
        (s.sampleCount.getD 0)
        (s.quantile.map fun q => (q.quantile.getD floats.zero, q.value.getD floats.zero))

def histogramMetrics (floats : Floats F) (f : MetricFamily F) : List (MetricEntry F) :=
  f.metric.flatMap fun m =>
    match m.histogram with
    | none => []
    | some h => series floats (f.name.getD []) "_size_bucket".toList bucketLabel m
        (h.sampleSum.getD floats.zero) (h.sampleCount.getD 0)
        (h.bucket.map fun b =>
          (b.upperBound.getD floats.zero, floats.ofCount (b.cumulativeCount.getD 0)))

/-- A label that is copied; `none` is a nil pointer. -/
def LabelPair.deref (lp : LabelPair) : Option Label :=
  lp.name.bind fun n => lp.value.map fun v => ⟨n, v⟩

/-- Of a gauge, a counter and an untyped value the last one that is there counts. -/
def basicValue (floats : Floats F) (m : Metric F) : F :=
  match m.untyped, m.counter, m.gauge with
  | some v, _, _ => v.getD floats.zero
  | none, some v, _ => v.getD floats.zero
  | none, none, some v => v.getD floats.zero
  | none, none, none => floats.zero

def digestBasicMetric (floats : Floats F) (name : Text) (m : Metric F) : Option (MetricEntry F) :=
  (m.label.mapM LabelPair.deref).map fun ls =>
    ⟨⟨nameLabel, name⟩ :: ls, m.timestampMs.getD 0, basicValue floats m⟩

def basicMetrics (floats : Floats F) (f : MetricFamily F) : Option (List (MetricEntry F)) :=
  f.metric.mapM fun m => f.name.bind fun name => digestBasicMetric floats name m

/-- The entries that `storeMertics` goes through. -/
def entriesOf (floats : Floats F) (f : MetricFamily F) : Option (List (MetricEntry F)) :=
  match f.type.getD .counter with
  | .histogram => some (histogramMetrics floats f)
  | .summary => some (summaryMetrics floats f)
  | .counter | .gauge | .untyped => basicMetrics floats f

/-- What is added to the storage, in order. -/
def storeMertics (floats : Floats F) (f : MetricFamily F) (defTime : ℤ) :
    Option (List (Labels × ℤ × F)) :=
  (entriesOf floats f).map fun entries =>
    entries.map fun e => (e.labels, if e.ts ≠ 0 then e.ts else defTime, e.value)

/-! ## The builder sorts -/

theorem names_setIn (n v : Text) (ls : Labels) : (setIn n v ls).map Label.name =
    if n ∈ ls.map Label.name then ls.map Label.name else ls.map Label.name ++ [n] := by
  induction ls with
  | nil => rfl
  | cons a rest ih =>
    rw [setIn]
    by_cases same : a.name = n
    · simp [same]
    · have other : n ≠ a.name := fun eq => same eq.symm
      rw [if_neg same, List.map_cons, ih, List.map_cons]
      by_cases old : n ∈ rest.map Label.name
      · rw [if_pos old, if_pos (List.mem_cons_of_mem _ old)]
      · rw [if_neg old, if_neg (List.not_mem_cons_of_ne_of_not_mem other old), List.cons_append]

/-- The labels added so far have different names, those of the labels that were set. -/
structure Adds (names : List Text) (b : Builder) : Prop where
  base : b.base = []
  del : b.del = []
  nodup : (b.add.map Label.name).Nodup
  mem_iff : ∀ n, n ∈ b.add.map Label.name ↔ n ∈ names

theorem Adds.set {names : List Text} {b : Builder} (adds : Adds names b) (n v : Text) :
    Adds (names ++ [n]) (b.set n v) := by
  refine ⟨adds.base, adds.del, ?_, fun n' => ?_⟩
  · show ((setIn n v b.add).map Label.name).Nodup
    rw [names_setIn]
    split
    · exact adds.nodup
    · next new => exact List.nodup_append'.mpr ⟨adds.nodup, List.nodup_singleton n,
        List.disjoint_singleton.mpr new⟩
  · show n' ∈ (setIn n v b.add).map Label.name ↔ _
    rw [names_setIn, List.mem_append, List.mem_singleton, ← adds.mem_iff n']
    split
    · next old =>
      constructor
      · exact .inl
      · rintro (member | rfl)
        · exact member
        · exact old
    · rw [List.mem_append, List.mem_singleton]

theorem adds_builderOf (label : List LabelPair) :
    Adds (label.map LabelPair.getName) (builderOf label) := by
  suffices general : ∀ names b, Adds names b →
      Adds (names ++ label.map LabelPair.getName)
        (label.foldl (fun base lp => base.set lp.getName lp.getValue) b) from
    general [] {} ⟨rfl, rfl, List.nodup_nil, fun n => Iff.rfl⟩
  induction label with
  | nil =>
    intro names b adds
    rw [List.map_nil, List.append_nil]
    exact adds
  | cons lp label ih =>
    intro names b adds
    rw [List.map_cons, List.append_cons]
    exact ih _ _ (adds.set lp.getName lp.getValue)

instance : Std.Total AtMost where
  total a b := by
    by_contra both
    rw [not_or, AtMost, AtMost, Bool.not_eq_false, Bool.not_eq_false] at both
    have self := less_trans both.1 both.2
    rw [less_irrefl] at self
    cases self

instance : IsTrans Label AtMost where
  trans a b c first second := by
    show less c.name a.name = false
    by_contra below
    rw [Bool.not_eq_false] at below
    cases between : less a.name b.name with
    | true => exact absurd (less_trans below between) (by rw [second]; decide)
    | false =>
      rw [eq_of_not_less between first, second] at below
      cases below

theorem sorted_sort {ls : Labels} (nodup : (ls.map Label.name).Nodup) : Sorted (sort ls) := by
  have ordered : (sort ls).Pairwise AtMost := List.pairwise_insertionSort AtMost ls
  have distinct : (sort ls).Pairwise fun a b => a.name ≠ b.name := by
    rw [← List.pairwise_map]
    exact (((List.perm_insertionSort _ ls).map Label.name).nodup_iff).mpr nodup
  refine (ordered.and distinct).imp fun {a b} both => ?_
  by_contra notLess
  rw [Bool.not_eq_true] at notLess
  exact both.2 (eq_of_not_less notLess both.1)

theorem mem_sort {ls : Labels} {l : Label} : l ∈ sort ls ↔ l ∈ ls := List.mem_insertionSort _

theorem Adds.labels_eq {names : List Text} {b : Builder} (adds : Adds names b) :
    b.labels = sort b.add := by
  rw [Builder.labels, adds.base, adds.del]
  split
  · next none => rw [none.2]; rfl
  · rfl

theorem sorted_builderOf (label : List LabelPair) : Sorted (builderOf label).labels := by
  rw [(adds_builderOf label).labels_eq]
  exact sorted_sort (adds_builderOf label).nodup

theorem forall_builderOf (label : List LabelPair) (P : Text → Prop) :
    (∀ l ∈ (builderOf label).labels, P l.name) ↔ ∀ lp ∈ label, P lp.getName := by
  have adds := adds_builderOf label
  have all (P : Text → Prop) : (∀ l ∈ (builderOf label).labels, P l.name) ↔
      ∀ n ∈ (builderOf label).add.map Label.name, P n := by
    simp [adds.labels_eq, mem_sort]
  rw [all]
  simp [adds.mem_iff]

/-! ## Labels in front and behind -/

theorem sorted_cons_iff {l : Label} {ls : Labels} :
    Sorted (l :: ls) ↔ (∀ l' ∈ ls, less l.name l'.name = true) ∧ Sorted ls :=
  List.pairwise_cons

theorem sorted_concat_iff {l : Label} {ls : Labels} :
    Sorted (ls ++ [l]) ↔ Sorted ls ∧ ∀ l' ∈ ls, less l'.name l.name = true := by
  rw [Sorted, List.pairwise_append]
  simp [Sorted]

theorem sorted_entryFor_iff {label : List LabelPair} {name : Text} {ts : ℤ} {v : F} :
    Sorted (metricEntryFor name (builderOf label).labels ts v).labels ↔
      ∀ lp ∈ label, less nameLabel lp.getName = true := by
  rw [metricEntryFor, sorted_cons_iff, and_iff_left (sorted_builderOf label)]
  exact forall_builderOf label fun n => less nameLabel n = true

theorem sorted_pointEntry_iff {label : List LabelPair} {name own point : Text} {ts : ℤ} {v : F}
    (behind : less nameLabel own = true) :
    Sorted (metricEntryFor name ((builderOf label).labels ++ [⟨own, point⟩]) ts v).labels ↔
      (∀ lp ∈ label, less nameLabel lp.getName = true) ∧
        ∀ lp ∈ label, less lp.getName own = true := by
  rw [metricEntryFor, sorted_cons_iff, sorted_concat_iff, and_iff_right (sorted_builderOf label),
    List.forall_mem_append, List.forall_mem_singleton, and_iff_left behind]
  exact and_congr (forall_builderOf label fun n => less nameLabel n = true)
    (forall_builderOf label fun n => less n own = true)

/-- The entries of a metric are sorted iff its labels come behind the name, and in front of the
label of the points if there are any. -/
theorem sorted_series_iff {floats : Floats F} {name suffix own : Text} {m : Metric F} {sum : F}
    {count : ℕ} {points : List (F × F)} (behind : less nameLabel own = true) :
    (∀ e ∈ series floats name suffix own m sum count points, Sorted e.labels) ↔
      (∀ lp ∈ m.label, less nameLabel lp.getName = true) ∧
        (points ≠ [] → ∀ lp ∈ m.label, less lp.getName own = true) := by
  rw [series, List.forall_mem_cons, List.forall_mem_cons, sorted_entryFor_iff,
    sorted_entryFor_iff, List.forall_mem_map]
  constructor
  · rintro ⟨front, -, each⟩
    refine ⟨front, fun some => ?_⟩
    obtain ⟨p, member⟩ := List.exists_mem_of_ne_nil _ some
    exact ((sorted_pointEntry_iff behind).mp (each p member)).2
  · rintro ⟨front, back⟩
    refine ⟨front, front, fun p member => (sorted_pointEntry_iff behind).mpr ⟨front, back ?_⟩⟩
    exact List.ne_nil_of_mem member

/-! ## Labels that are copied -/

theorem forall_mapM_iff {α β : Type} {g : α → Option β} {l : List α} {l' : List β}
    (ran : l.mapM g = some l') (P : β → Prop) :
    (∀ b ∈ l', P b) ↔ ∀ a ∈ l, ∃ b, g a = some b ∧ P b := by
  induction l generalizing l' with
  | nil =>
    cases ran
    simp
  | cons a l ih =>
    rw [List.mapM_cons] at ran
    obtain ⟨c, first, rest⟩ := Option.bind_eq_some_iff.mp ran
    obtain ⟨cs, others, whole⟩ := Option.bind_eq_some_iff.mp rest
    cases whole
    rw [List.forall_mem_cons, List.forall_mem_cons, ih others]
    simp [first]

theorem names_of_mapM {label : List LabelPair} {ls : Labels}
    (ran : label.mapM LabelPair.deref = some ls) :
    ls.map Label.name = label.map LabelPair.getName := by
  induction label generalizing ls with
  | nil =>
    cases ran
    rfl
  | cons lp label ih =>
    rw [List.mapM_cons] at ran
    obtain ⟨l, first, rest⟩ := Option.bind_eq_some_iff.mp ran
    obtain ⟨others, copied, whole⟩ := Option.bind_eq_some_iff.mp rest
    cases whole
    obtain ⟨n, name, value⟩ := Option.bind_eq_some_iff.mp first
    obtain ⟨v, -, rfl⟩ := Option.map_eq_some_iff.mp value
    rw [List.map_cons, List.map_cons, ih copied, LabelPair.getName, name, Option.getD_some]

/-- The labels of a metric are sorted by name, no two having the same. -/
def Metric.SortedNames (m : Metric F) : Prop :=
  (m.label.map LabelPair.getName).Pairwise fun a b => less a b = true

theorem sorted_digest_iff {floats : Floats F} {name : Text} {m : Metric F} {e : MetricEntry F}
    (sorted : m.SortedNames) (ran : digestBasicMetric floats name m = some e) :
    Sorted e.labels ↔ ∀ lp ∈ m.label, less nameLabel lp.getName = true := by
  obtain ⟨ls, copied, rfl⟩ := Option.map_eq_some_iff.mp ran
  have names := names_of_mapM copied
  have inside : Sorted ls := by
    have mapped : (ls.map Label.name).Pairwise fun a b => less a b = true := by
      rw [names]
      exact sorted
    exact List.pairwise_map.mp mapped
  rw [sorted_cons_iff, and_iff_left inside]
  have all (P : Text → Prop) : (∀ l ∈ ls, P l.name) ↔ ∀ n ∈ ls.map Label.name, P n := by simp
  rw [all fun n => less nameLabel n = true, names]
  simp

/-! ## Families -/

section Families

variable {floats : Floats F} {f : MetricFamily F}

theorem sorted_histogramMetrics_iff :
    (∀ e ∈ histogramMetrics floats f, Sorted e.labels) ↔
      ∀ m ∈ f.metric, ∀ h, m.histogram = some h →
        (∀ lp ∈ m.label, less nameLabel lp.getName = true) ∧
          (h.bucket ≠ [] → ∀ lp ∈ m.label, less lp.getName bucketLabel = true) := by
  rw [histogramMetrics, List.forall_mem_flatMap]
  refine forall₂_congr fun m _ => ?_
  cases m.histogram with
  | none => simp
  | some h =>
    simp only [Option.some.injEq, forall_eq']
    rw [sorted_series_iff (by decide)]
    simp

theorem sorted_summaryMetrics_iff :
    (∀ e ∈ summaryMetrics floats f, Sorted e.labels) ↔
      ∀ m ∈ f.metric, ∀ s, m.summary = some s →
        (∀ lp ∈ m.label, less nameLabel lp.getName = true) ∧
          (s.quantile ≠ [] → ∀ lp ∈ m.label, less lp.getName quantileLabel = true) := by
  rw [summaryMetrics, List.forall_mem_flatMap]
  refine forall₂_congr fun m _ => ?_
  cases m.summary with
  | none => simp
  | some s =>
    simp only [Option.some.injEq, forall_eq']
    rw [sorted_series_iff (by decide)]
    simp

theorem sorted_basicMetrics_iff (sorted : ∀ m ∈ f.metric, m.SortedNames)
    {entries : List (MetricEntry F)} (ran : basicMetrics floats f = some entries) :
    (∀ e ∈ entries, Sorted e.labels) ↔
      ∀ m ∈ f.metric, ∀ lp ∈ m.label, less nameLabel lp.getName = true := by
  refine (forall_mapM_iff ran fun e => Sorted e.labels).trans (forall₂_congr fun m member => ?_)
  obtain ⟨e, digested, -⟩ := (forall_mapM_iff ran fun _ => True).mp (fun _ _ => trivial) m member
  obtain ⟨name, -, digest⟩ := Option.bind_eq_some_iff.mp digested
  rw [← sorted_digest_iff (sorted m member) digest, digested]
  simp

/-- For a family whose labels are sorted and have different names, the labels of the entries are
sorted iff these names come behind the one of the name, and for buckets and quantiles in front of
theirs. -/
theorem entries_sorted_iff (floats : Floats F) (f : MetricFamily F)
    (sorted : ∀ m ∈ f.metric, m.SortedNames) :
    ((∀ e ∈ histogramMetrics floats f, Sorted e.labels) ↔
      ∀ m ∈ f.metric, ∀ h, m.histogram = some h →
        (∀ lp ∈ m.label, less nameLabel lp.getName = true) ∧
          (h.bucket ≠ [] → ∀ lp ∈ m.label, less lp.getName bucketLabel = true)) ∧
    ((∀ e ∈ summaryMetrics floats f, Sorted e.labels) ↔
      ∀ m ∈ f.metric, ∀ s, m.summary = some s →
        (∀ lp ∈ m.label, less nameLabel lp.getName = true) ∧
          (s.quantile ≠ [] → ∀ lp ∈ m.label, less lp.getName quantileLabel = true)) ∧
    ∀ entries, basicMetrics floats f = some entries →
      ((∀ e ∈ entries, Sorted e.labels) ↔
        ∀ m ∈ f.metric, ∀ lp ∈ m.label, less nameLabel lp.getName = true) :=
  ⟨sorted_histogramMetrics_iff, sorted_summaryMetrics_iff,
    fun _ ran => sorted_basicMetrics_iff sorted ran⟩

/-- A bucket whose label is sorted in: its metric has one label, `code`. -/
theorem entries_sorted_sample :
    let floats : Floats ℕ := ⟨0, id, fun _ => ['1']⟩
    let f : MetricFamily ℕ := ⟨some ['r'], some .histogram,
      [{ label := [⟨some "code".toList, some ['a']⟩]
         histogram := some ⟨some 1, some 1, [⟨some 1, some 1⟩]⟩ }]⟩
    (∀ m ∈ f.metric, m.SortedNames) ∧ ∀ e ∈ histogramMetrics floats f, Sorted e.labels := by
  intro floats f
  have sorted : ∀ m ∈ f.metric, m.SortedNames := by
    intro m member
    rw [List.mem_singleton.mp member]
    exact List.pairwise_singleton _ _
  refine ⟨sorted, (entries_sorted_iff floats f sorted).1.mpr fun m member h _ => ?_⟩
  rw [List.mem_singleton.mp member]
  refine ⟨fun lp inside => ?_, fun _ lp inside => ?_⟩
  · rw [List.mem_singleton.mp inside]
    decide
  · rw [List.mem_singleton.mp inside]
    decide

/-- The label `method` of a histogram comes behind `le`, which is put behind it. -/
theorem bucket_not_sorted :
    let floats : Floats ℕ := ⟨0, id, fun _ => ['1']⟩
    let m : Metric ℕ := { label := [⟨some "method".toList, some ['a']⟩]
                          histogram := some ⟨some 1, some 1, [⟨some 1, some 1⟩]⟩ }
    let e : MetricEntry ℕ := ⟨[⟨"__name__".toList, "r_size_bucket".toList⟩,
      ⟨"method".toList, ['a']⟩, ⟨"le".toList, ['1']⟩], 0, 1⟩
    m.SortedNames ∧ e ∈ histogramMetrics floats ⟨some ['r'], some .histogram, [m]⟩ ∧
      ¬ Sorted e.labels := by
  intro floats m e
  refine ⟨List.pairwise_singleton _ _, ?_, by decide⟩
  show e ∈ [_, _, e]
  simp

/-! ## What is stored -/

/-- The name starts with a small letter. -/
def startsLower (name : Text) : Bool := name.head?.any fun c => 'a' ≤ c && c ≤ 'z'

theorem less_of_startsLower {name : Text} (lower : startsLower name = true) :
    less nameLabel name = true := by
  cases name with
  | nil => cases lower
  | cons c rest =>
    have letter : 'a' ≤ c := by
      simp [startsLower] at lower
      exact lower.1
    refine (less_cons '_' c _ _).mpr (.inl ?_)
    have code : 'a'.toNat ≤ c.toNat := letter
    exact Nat.lt_of_lt_of_le (by decide) code

/-- All that a family with sorted labels in small letters adds to the storage is sorted, if none of
its labels comes behind the one of its points. -/
theorem storeMertics_sorted (sorted : ∀ m ∈ f.metric, m.SortedNames)
    (lower : ∀ m ∈ f.metric, ∀ lp ∈ m.label, startsLower lp.getName = true)
    (buckets : f.type = some .histogram →
      ∀ m ∈ f.metric, ∀ lp ∈ m.label, less lp.getName bucketLabel = true)
    (quantiles : f.type = some .summary →
      ∀ m ∈ f.metric, ∀ lp ∈ m.label, less lp.getName quantileLabel = true)
    {defTime : ℤ} {added : List (Labels × ℤ × F)}
    (stored : storeMertics floats f defTime = some added) : ∀ a ∈ added, Sorted a.1 := by
  have front : ∀ m ∈ f.metric, ∀ lp ∈ m.label, less nameLabel lp.getName = true :=
    fun m member lp inside => less_of_startsLower (lower m member lp inside)
  obtain ⟨entries, ran, rfl⟩ := Option.map_eq_some_iff.mp stored
  have basic : basicMetrics floats f = some entries → ∀ e ∈ entries, Sorted e.labels :=
    fun ran => (sorted_basicMetrics_iff sorted ran).mpr front
  suffices all : ∀ e ∈ entries, Sorted e.labels by
    intro a member
    obtain ⟨e, inside, rfl⟩ := List.mem_map.mp member
    exact all e inside
  rw [entriesOf] at ran
  cases type : f.type with
  | none =>
    rw [type] at ran
    exact basic ran
  | some t =>
    rw [type] at ran
    cases t with
    | histogram =>
      cases ran
      exact sorted_histogramMetrics_iff.mpr fun m member _ _ =>
        ⟨front m member, fun _ => buckets type m member⟩
    | summary =>
      cases ran
      exact sorted_summaryMetrics_iff.mpr fun m member _ _ =>
        ⟨front m member, fun _ => quantiles type m member⟩
    | counter => exact basic ran
    | gauge => exact basic ran
    | untyped => exact basic ran

end Families

end MetricLabels
