import Vince.GitPaths

/-!
# Loading the repositories concurrently (`gitops.go`)

`repoLoader.load` looks whether the path is there. If it is not, it makes the directory and
initialises a repository in it, and otherwise it opens the repository. Each of these calls is a
step here, and each may fail for reasons of its own. Requests take their steps in any order, and one
that is not scheduled again has died.
-/

namespace GitRepos

open GoText GitPaths Function

/-- What is at the path of a repository. -/
inductive Disk where
  | absent
  | directory
  | repository
  deriving DecidableEq

/-- Which call of `load` comes next: `os.Stat`, `os.Mkdir`, `git.PlainInit` or `git.PlainOpen`. -/
inductive Phase where
  | stat
  | mkdir
  | plainInit
  | plainOpen
  | returned (ok : Bool)
  deriving DecidableEq

/-- `inits` are the requests whose `PlainInit` went through. -/
structure State (ι : Type) where
  disk : Text → Disk
  phase : ι → Phase
  inits : List ι

variable {ι : Type} [DecidableEq ι]

def start (disk : Text → Disk) : State ι := ⟨disk, fun _ => .stat, []⟩

def State.goto (s : State ι) (i : ι) (phase : Phase) : State ι :=
  { s with phase := update s.phase i phase }

def State.write (s : State ι) (a : Text) (disk : Disk) : State ι :=
  { s with disk := update s.disk a disk }

/-- One call of `load` for the repository `a`, which may fail. -/
def State.call (s : State ι) (a : Text) (i : ι) (fails : Bool) : State ι :=
  match s.phase i with
  | .stat => s.goto i (if fails = true ∨ s.disk a ≠ .absent then .plainOpen else .mkdir)
  | .mkdir =>
    if fails = true ∨ s.disk a ≠ .absent then s.goto i (.returned false)
    else (s.write a .directory).goto i .plainInit
  | .plainInit =>
    if fails = true ∨ s.disk a = .repository then s.goto i (.returned false)
    else { (s.write a .repository).goto i (.returned true) with inits := i :: s.inits }
  | .plainOpen => s.goto i (.returned (!fails && decide (s.disk a = .repository)))
  | .returned _ => s

variable (dir : Text) (requests : ι → Request)

def step (s : State ι) (action : ι × Bool) : State ι :=
  match (requests action.1).target dir with
  | none => s.goto action.1 (.returned false)
  | some a => s.call a action.1 action.2

def run (s : State ι) (schedule : List (ι × Bool)) : State ι :=
  schedule.foldl (step dir requests) s

/-- The request is about to initialise the repository, in a directory that it has made. -/
def Making (s : State ι) (a : Text) (i : ι) : Prop :=
  s.phase i = .plainInit ∧ (requests i).target dir = some a

variable {dir requests} {s : State ι} {a b : Text} {i j : ι}

@[simp] theorem goto_self (s : State ι) (i : ι) (phase : Phase) :
    (s.goto i phase).phase i = phase := by
  simp [State.goto]

@[simp] theorem goto_of_ne (s : State ι) (phase : Phase) (other : j ≠ i) :
    (s.goto i phase).phase j = s.phase j := by
  simp [State.goto, other]

@[simp] theorem goto_disk (s : State ι) (i : ι) (phase : Phase) :
    (s.goto i phase).disk = s.disk := rfl

@[simp] theorem goto_inits (s : State ι) (i : ι) (phase : Phase) :
    (s.goto i phase).inits = s.inits := rfl

omit [DecidableEq ι] in
@[simp] theorem write_self (s : State ι) (a : Text) (disk : Disk) :
    (s.write a disk).disk a = disk := by
  simp [State.write]

omit [DecidableEq ι] in
@[simp] theorem write_of_ne (s : State ι) (disk : Disk) (other : b ≠ a) :
    (s.write a disk).disk b = s.disk b := by
  simp [State.write, other]

omit [DecidableEq ι] in
@[simp] theorem write_phase (s : State ι) (a : Text) (disk : Disk) :
    (s.write a disk).phase = s.phase := rfl

omit [DecidableEq ι] in
@[simp] theorem write_inits (s : State ι) (a : Text) (disk : Disk) :
    (s.write a disk).inits = s.inits := rfl

/-- Everything that a call can do. -/
inductive Calls (s : State ι) (a : Text) (i : ι) (fails : Bool) : State ι → Prop
  | absent : s.phase i = .stat → s.disk a = .absent → Calls s a i fails (s.goto i .mkdir)
  | there : s.phase i = .stat → Calls s a i fails (s.goto i .plainOpen)
  | refused : s.phase i = .mkdir ∨ s.phase i = .plainInit →
      Calls s a i fails (s.goto i (.returned false))
  | make : s.phase i = .mkdir → s.disk a = .absent →
    Calls s a i fails ((s.write a .directory).goto i .plainInit)
  | initialise : s.phase i = .plainInit →
    Calls s a i fails
      { (s.write a .repository).goto i (.returned true) with inits := i :: s.inits }
  | opened (ok : Bool) : s.phase i = .plainOpen → (ok = true → s.disk a = .repository) →
    Calls s a i fails (s.goto i (.returned ok))
  | finished (ok : Bool) : s.phase i = .returned ok → Calls s a i fails s

theorem calls_call (s : State ι) (a : Text) (i : ι) (fails : Bool) :
    Calls s a i fails (s.call a i fails) := by
  rw [State.call]
  split
  · rename_i here
    split
    · exact .there here
    · rename_i quiet
      push Not at quiet
      exact .absent here quiet.2
  · rename_i here
    split
    · exact .refused (.inl here)
    · rename_i quiet
      push Not at quiet
      exact .make here quiet.2
  · rename_i here
    split
    · exact .refused (.inr here)
    · exact .initialise here
  · rename_i here
    refine .opened _ here fun ok => ?_
    simpa using (Bool.and_eq_true_iff.mp ok).2
  · rename_i ok here
    exact .finished ok here

/-! ## At most once -/

structure Inv (dir : Text) (requests : ι → Request) (s : State ι) : Prop where
  made : ∀ i a, Making dir requests s a i → s.disk a = .directory
  single : ∀ i j a, Making dir requests s a i → Making dir requests s a j → i = j
  done : ∀ i ∈ s.inits, ∃ a, (requests i).target dir = some a ∧ s.disk a = .repository
  once : s.inits.Pairwise fun i j => (requests i).target dir ≠ (requests j).target dir

omit [DecidableEq ι] in
theorem inv_start (disk : Text → Disk) : Inv dir requests (start disk) := by
  constructor <;> simp [start, Making]

/-- The requests that are making something are the same, but for one. -/
theorem making_goto {phase : Phase} :
    Making dir requests (s.goto i phase) b j ↔
      (j = i ∧ phase = .plainInit ∧ (requests i).target dir = some b) ∨
        (j ≠ i ∧ Making dir requests s b j) := by
  by_cases same : j = i
  · subst same
    simp [Making]
  · simp [Making, same]

theorem Inv.goto (inv : Inv dir requests s) {phase : Phase} (other : phase ≠ .plainInit) :
    Inv dir requests (s.goto i phase) := by
  have before : ∀ j a, Making dir requests (s.goto i phase) a j → Making dir requests s a j := by
    intro j a making
    rcases making_goto.mp making with ⟨-, init, -⟩ | ⟨-, making⟩
    · exact absurd init other
    · exact making
  exact ⟨fun j a making => inv.made j a (before j a making),
    fun j k a first second => inv.single j k a (before j a first) (before k a second),
    inv.done, inv.once⟩

theorem Inv.make (inv : Inv dir requests s) (target : (requests i).target dir = some a)
    (absent : s.disk a = .absent) :
    Inv dir requests ((s.write a .directory).goto i .plainInit) := by
  have free : ∀ j, ¬ Making dir requests s a j := by
    intro j making
    have made := inv.made j a making
    rw [absent] at made
    cases made
  have cases' : ∀ j b, Making dir requests ((s.write a .directory).goto i .plainInit) b j →
      (j = i ∧ b = a) ∨ (b ≠ a ∧ Making dir requests s b j) := by
    intro j b making
    rcases making_goto.mp making with ⟨same, -, target'⟩ | ⟨-, making⟩
    · rw [target, Option.some.injEq] at target'
      exact .inl ⟨same, target'.symm⟩
    · refine .inr ⟨?_, making⟩
      rintro rfl
      exact free j making
  refine ⟨fun j b making => ?_, fun j k b first second => ?_, fun j here => ?_, inv.once⟩
  · rcases cases' j b making with ⟨-, rfl⟩ | ⟨other, making⟩
    · simp
    · simpa [other] using inv.made j b making
  · rcases cases' j b first with ⟨rfl, rfl⟩ | ⟨other, first⟩
    · rcases cases' k b second with ⟨rfl, -⟩ | ⟨other, -⟩
      · rfl
      · exact absurd rfl other
    · rcases cases' k b second with ⟨-, rfl⟩ | ⟨-, second⟩
      · exact absurd rfl other
      · exact inv.single j k b first second
  · obtain ⟨b, target', ready⟩ := inv.done j here
    have other : b ≠ a := by
      rintro rfl
      rw [absent] at ready
      cases ready
    exact ⟨b, target', by simpa [other] using ready⟩

theorem Inv.initialise (inv : Inv dir requests s) (making : Making dir requests s a i) :
    Inv dir requests
      { (s.write a .repository).goto i (.returned true) with inits := i :: s.inits } := by
  have made := inv.made i a making
  have kept : ∀ j b, Making dir requests
      { (s.write a .repository).goto i (.returned true) with inits := i :: s.inits } b j →
      b ≠ a ∧ Making dir requests s b j := by
    intro j b making'
    rcases making_goto.mp making' with ⟨-, init, -⟩ | ⟨other, making'⟩
    · cases init
    · refine ⟨?_, making'⟩
      rintro rfl
      exact other (inv.single j i b making' making)
  refine ⟨fun j b making' => ?_, fun j k b first second => ?_, ?_, ?_⟩
  · obtain ⟨other, making'⟩ := kept j b making'
    simpa [other] using inv.made j b making'
  · exact inv.single j k b (kept j b first).2 (kept k b second).2
  · refine List.forall_mem_cons.mpr ⟨⟨a, making.2, by simp⟩, fun j here => ?_⟩
    obtain ⟨b, target, ready⟩ := inv.done j here
    by_cases same : b = a
    · exact ⟨b, target, by simp [same]⟩
    · exact ⟨b, target, by simpa [same] using ready⟩
  · refine List.pairwise_cons.mpr ⟨fun j here same => ?_, inv.once⟩
    obtain ⟨b, target, ready⟩ := inv.done j here
    rw [making.2, target, Option.some.injEq] at same
    rw [← same, made] at ready
    cases ready

theorem inv_step (inv : Inv dir requests s) (action : ι × Bool) :
    Inv dir requests (step dir requests s action) := by
  rw [step]
  split
  · exact inv.goto (by simp)
  · rename_i a target
    generalize s.call a action.1 action.2 = s', calls_call s a action.1 action.2 = called
    cases called with
    | absent _ _ => exact inv.goto (by simp)
    | there _ => exact inv.goto (by simp)
    | refused _ => exact inv.goto (by simp)
    | make _ absent => exact inv.make target absent
    | initialise here => exact inv.initialise ⟨here, target⟩
    | opened ok _ _ => exact inv.goto (by simp)
    | finished _ _ => exact inv

theorem inv_run (inv : Inv dir requests s) (schedule : List (ι × Bool)) :
    Inv dir requests (run dir requests s schedule) := by
  induction schedule generalizing s with
  | nil => exact inv
  | cons action schedule ih => exact ih (inv_step inv action)

/-- Whatever the order of the calls and whichever of them fail, no repository is initialised twice,
and `PlainInit` is called for a directory only by the one request that made it. -/
theorem repository_initialised_once (dir : Text) (requests : ι → Request) (disk : Text → Disk)
    (schedule : List (ι × Bool)) :
    ((run dir requests (start disk) schedule).inits.map fun i => (requests i).target dir).Nodup ∧
      ∀ a i, Making dir requests (run dir requests (start disk) schedule) a i →
        (run dir requests (start disk) schedule).disk a = .directory ∧
          ∀ j, Making dir requests (run dir requests (start disk) schedule) a j → j = i := by
  have inv : Inv dir requests _ := inv_run (inv_start disk) schedule
  refine ⟨List.pairwise_map.mpr inv.once, fun a i making =>
    ⟨inv.made i a making, fun j other => ?_⟩⟩
  exact inv.single j i a other making

/-! ## Directories without a repository -/

/-- A directory is there, nobody is going to make a repository of it, and the request has none. -/
structure Stuck (dir : Text) (requests : ι → Request) (a : Text) (i : ι) (s : State ι) : Prop where
  there : s.disk a = .directory
  nobody : ∀ j, ¬ Making dir requests s a j
  without : s.phase i ≠ .returned true

theorem Stuck.goto (stuck : Stuck dir requests a i s) {phase : Phase} (other : phase ≠ .plainInit)
    (fails : j = i → phase ≠ .returned true) : Stuck dir requests a i (s.goto j phase) := by
  refine ⟨stuck.there, fun k making => ?_, ?_⟩
  · rcases making_goto.mp making with ⟨-, init, -⟩ | ⟨-, making⟩
    · exact other init
    · exact stuck.nobody k making
  · by_cases same : i = j
    · subst same
      simpa using fails rfl
    · simpa [same] using stuck.without

omit [DecidableEq ι] in
theorem Stuck.elsewhere (stuck : Stuck dir requests a i s) (other : b ≠ a) (disk : Disk) :
    Stuck dir requests a i (s.write b disk) :=
  ⟨by simpa [other.symm] using stuck.there, stuck.nobody, stuck.without⟩

theorem Stuck.call (stuck : Stuck dir requests a i s) (target : (requests i).target dir = some a)
    (target' : (requests j).target dir = some b) {fails : Bool} {s' : State ι}
    (called : Calls s b j fails s') : Stuck dir requests a i s' := by
  have own : j = i → b = a := by
    rintro rfl
    rw [target, Option.some.injEq] at target'
    exact target'.symm
  cases called with
  | absent _ _ => exact stuck.goto (by simp) (by simp)
  | there _ => exact stuck.goto (by simp) (by simp)
  | refused _ => exact stuck.goto (by simp) (by simp)
  | make _ absent =>
    have other : b ≠ a := by
      rintro rfl
      rw [stuck.there] at absent
      cases absent
    refine ⟨by simpa [other.symm] using stuck.there, fun k making => ?_, ?_⟩
    · rcases making_goto.mp making with ⟨-, -, init⟩ | ⟨-, making⟩
      · rw [target', Option.some.injEq] at init
        exact other init
      · exact stuck.nobody k making
    · have apart : i ≠ j := fun same => other (own same.symm)
      simpa [apart] using stuck.without
  | initialise here =>
    have other : b ≠ a := by
      rintro rfl
      exact stuck.nobody j ⟨here, target'⟩
    have apart : j ≠ i := fun same => other (own same)
    have moved : Stuck dir requests a i ((s.write b .repository).goto j (.returned true)) :=
      (stuck.elsewhere other .repository).goto (by simp) fun same => absurd same apart
    exact ⟨moved.there, moved.nobody, moved.without⟩
  | opened ok _ ready =>
    refine stuck.goto (by simp) fun same => ?_
    rintro ⟨⟩
    have found := ready rfl
    rw [own same, stuck.there] at found
    cases found
  | finished _ _ => exact stuck

theorem Stuck.run (stuck : Stuck dir requests a i s) (target : (requests i).target dir = some a)
    (schedule : List (ι × Bool)) : Stuck dir requests a i (run dir requests s schedule) := by
  induction schedule generalizing s with
  | nil => exact stuck
  | cons action schedule ih =>
    refine ih ?_
    rw [step]
    split
    · exact stuck.goto (by simp) (by simp)
    · rename_i b target'
      exact stuck.call target target' (calls_call s b action.1 action.2)

theorem opens (target : (requests i).target dir = some a) (begins : s.phase i = .stat)
    (ready : s.disk a = .repository) :
    (run dir requests s [(i, false), (i, false)]).phase i = .returned true := by
  simp [run, step, target, State.call, begins, ready]

theorem makes (target : (requests i).target dir = some a) (begins : s.phase i = .stat)
    (absent : s.disk a = .absent) :
    (run dir requests s [(i, false), (i, false), (i, false)]).phase i = .returned true := by
  simp [run, step, target, State.call, begins, absent]

theorem opens_after (inv : Inv dir requests s) (target : (requests i).target dir = some a)
    (begins : s.phase i = .stat) (making : Making dir requests s a j) :
    (run dir requests s [(j, false), (i, false), (i, false)]).phase i = .returned true := by
  have made := inv.made j a making
  have other : i ≠ j := by
    rintro rfl
    have here := making.1
    rw [begins] at here
    cases here
  have first : step dir requests s (j, false) =
      { (s.write a .repository).goto j (.returned true) with inits := j :: s.inits } := by
    simp [step, making.2, State.call, making.1, made]
  rw [run, List.foldl_cons, first]
  exact opens target (by simpa [other] using begins) (by simp)

/-- A request that has not begun can get a repository iff there is one, or nothing at all, or a
directory in which another request is about to make one. -/
theorem load_possible_iff (dir : Text) (requests : ι → Request) (disk : Text → Disk)
    (before : List (ι × Bool)) {s : State ι} (reached : s = run dir requests (start disk) before)
    (a : Text) (i : ι) (target : (requests i).target dir = some a) (begins : s.phase i = .stat) :
    (∃ schedule, (run dir requests s schedule).phase i = .returned true) ↔
      s.disk a ≠ .directory ∨ ∃ j, Making dir requests s a j := by
  have inv : Inv dir requests s := reached ▸ inv_run (inv_start disk) before
  constructor
  · rintro ⟨schedule, gets⟩
    by_contra stuck
    push Not at stuck
    have stays := Stuck.run ⟨stuck.1, stuck.2, by simp [begins]⟩ target schedule
    exact stays.without gets
  · rintro (other | ⟨j, making⟩)
    · cases here : s.disk a with
      | absent => exact ⟨_, makes target begins here⟩
      | directory => exact absurd here other
      | repository => exact ⟨_, opens target begins here⟩
    · exact ⟨_, opens_after inv target begins making⟩

def upload : Request := ⟨"x".toList, "/git/vince/git-upload-pack".toList, .uploadPack⟩

/-- One of two requests has made the directory and failed to initialise it. -/
theorem load_possible_iff_failed :
    ¬ ∃ schedule, (run "/srv/configs".toList (fun _ : Bool => upload)
      (run "/srv/configs".toList (fun _ => upload) (start fun _ => .absent)
        [(false, false), (false, false), (false, true)]) schedule).phase true =
        .returned true := by
  rw [load_possible_iff "/srv/configs".toList (fun _ => upload) (fun _ => .absent)
    [(false, false), (false, false), (false, true)] rfl "vince".toList true (by decide) (by decide)]
  rintro (other | ⟨j, init, -⟩)
  · exact other (by decide)
  · cases j <;> revert init <;> decide

end GitRepos
