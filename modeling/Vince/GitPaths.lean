import Vince.OAuthRedirects
import Vince.ParseRate
import Vince.ProxyDirector

/-!
# Which repository a URL path names (`gitops.go`)

The path of a request to the git service is trimmed, joined to the directory of the repositories
and cleaned, and the result is compared with the paths of the three repositories there are.
`filepath.Clean` works on the segments of a path as the segments of a redirect URI are resolved,
except that a path that is not rooted keeps the `..` it begins with.
-/

namespace GitPaths

open GoText OAuth
open ParseRate (trimSuffix)
open ProxyDirector (trimPrefix)

/-! ## `filepath.Clean` and `filepath.Join` -/

/-- The names so far, the innermost first, after one more segment. -/
def cleanStep (rooted : Bool) (names : List Text) (s : Text) : List Text :=
  if isDot s then names
  else if isDotDot s then
    match names with
    | [] => if rooted then [] else [s]
    | name :: above => if isDotDot name then s :: name :: above else above
  else s :: names

def isRooted (path : Text) : Bool := path.head? = some '/'

def cleanNames (path : Text) : List Text :=
  ((path.splitOn '/').foldl (cleanStep (isRooted path)) []).reverse

/-- The path of the names. -/
def render (rooted : Bool) (names : List Text) : Text :=
  let out := (if rooted then ['/'] else []) ++ ['/'].intercalate names
  if out = [] then ['.'] else out

def clean (path : Text) : Text := render (isRooted path) (cleanNames path)

def join (dir elem : Text) : Text :=
  if dir ≠ [] then clean (dir ++ '/' :: elem) else if elem ≠ [] then clean elem else []

example : clean "/srv/./configs/../configs//vince".toList = "/srv/configs/vince".toList := by
  decide

example : clean "../a/../../b".toList = "../../b".toList := by decide

example : clean [] = ".".toList := by decide

/-! ## Clean paths -/

variable {rooted : Bool} {names : List Text} {dir path elem s : Text}

/-- The names of a clean path, the innermost first: climbing comes before all names, and not at all
after the root. -/
structure Tidy (rooted : Bool) (names : List Text) : Prop where
  named : ∀ s ∈ names, isDot s = false ∧ '/' ∉ s
  climbs : names.Pairwise fun inner outer => isDotDot inner = true → isDotDot outer = true
  level : rooted = true → ∀ s ∈ names, isDotDot s = false

theorem Tidy.tail (tidy : Tidy rooted (s :: names)) : Tidy rooted names :=
  ⟨fun _ here => tidy.named _ (List.mem_cons_of_mem _ here), tidy.climbs.of_cons,
    fun root _ here => tidy.level root _ (List.mem_cons_of_mem _ here)⟩

theorem tidy_step (tidy : Tidy rooted names) (one : '/' ∉ s) :
    Tidy rooted (cleanStep rooted names s) := by
  rw [cleanStep.eq_def]
  split
  · exact tidy
  · rename_i dot
    have name : isDot s = false ∧ '/' ∉ s := ⟨Bool.eq_false_iff.mpr dot, one⟩
    split
    · rename_i climb
      split
      · split
        · exact tidy
        · rename_i _ root
          exact ⟨by simpa using name, List.pairwise_singleton _ _, fun root' => absurd root' root⟩
      · rename_i outer above
        split
        · rename_i climbed
          have rest := List.pairwise_cons.mp tidy.climbs
          refine ⟨List.forall_mem_cons.mpr ⟨name, tidy.named⟩,
            List.pairwise_cons.mpr ⟨fun other here _ => ?_, tidy.climbs⟩, fun root => ?_⟩
          · rcases List.mem_cons.mp here with rfl | here
            · exact climbed
            · exact rest.1 other here climbed
          · have level := tidy.level root outer List.mem_cons_self
            rw [climbed] at level
            cases level
        · exact tidy.tail
    · rename_i level
      exact ⟨List.forall_mem_cons.mpr ⟨name, tidy.named⟩,
        List.pairwise_cons.mpr ⟨fun _ _ climb => absurd climb level, tidy.climbs⟩,
        fun root => List.forall_mem_cons.mpr ⟨Bool.eq_false_iff.mpr level, tidy.level root⟩⟩

theorem tidy_foldl {segments : List Text} (tidy : Tidy rooted names)
    (each : ∀ s ∈ segments, '/' ∉ s) : Tidy rooted (segments.foldl (cleanStep rooted) names) := by
  induction segments generalizing names with
  | nil => exact tidy
  | cons s segments ih =>
    rw [List.forall_mem_cons] at each
    exact ih (tidy_step tidy each.1) each.2

theorem not_mem_of_mem_splitOn (here : s ∈ path.splitOn '/') : '/' ∉ s := by
  induction path generalizing s with
  | nil => simp_all
  | cons c path ih =>
    rw [List.splitOn_cons_eq_if_modifyHead] at here
    split at here
    · rcases List.mem_cons.mp here with rfl | here
      · simp
      · exact ih here
    · rename_i other
      cases parts : path.splitOn '/' with
      | nil => exact absurd parts (List.splitOn_ne_nil _ _)
      | cons first rest =>
        rw [parts] at here ih
        rcases List.mem_cons.mp here with rfl | here
        · intro slash
          rcases List.mem_cons.mp slash with rfl | slash
          · simp at other
          · exact ih List.mem_cons_self slash
        · exact ih (List.mem_cons_of_mem _ here)

theorem tidy_clean (path : Text) : Tidy (isRooted path) (cleanNames path).reverse := by
  rw [cleanNames, List.reverse_reverse]
  exact tidy_foldl ⟨by simp, List.Pairwise.nil, by simp⟩ fun s here => not_mem_of_mem_splitOn here

/-- Clean names stay as they are. -/
theorem foldl_tidy (tidy : Tidy rooted names) :
    names.reverse.foldl (cleanStep rooted) [] = names := by
  induction names with
  | nil => rfl
  | cons s names ih =>
    have name := (tidy.named s List.mem_cons_self).1
    rw [List.reverse_cons, List.foldl_concat, ih tidy.tail, cleanStep.eq_def,
      if_neg (by simp [name])]
    split
    · rename_i climb
      cases names with
      | nil =>
        have open' : rooted = false := by
          cases rooted with
          | false => rfl
          | true =>
            have level := tidy.level rfl s List.mem_cons_self
            rw [climb] at level
            cases level
        simp [open']
      | cons outer above =>
        have climbed := (List.pairwise_cons.mp tidy.climbs).1 outer List.mem_cons_self climb
        simp [climbed]
    · rfl

/-- The names can be read off the clean path. -/
theorem cleanNames_render (tidy : Tidy rooted names.reverse) :
    isRooted (render rooted names) = rooted ∧ cleanNames (render rooted names) = names := by
  have slashes : ∀ s ∈ names, '/' ∉ s := fun s here => (tidy.named s (by simpa using here)).2
  have refold := foldl_tidy tidy
  rw [List.reverse_reverse] at refold
  cases names with
  | nil => cases rooted <;> decide
  | cons name rest =>
    have split := List.splitOn_intercalate '/' slashes (List.cons_ne_nil name rest)
    have named := tidy.named name (by simp)
    cases name with
    | nil => cases named.1
    | cons c name =>
      have begins : ∃ more, ['/'].intercalate ((c :: name) :: rest) = c :: more := by
        cases rest <;> simp [List.intercalate]
      obtain ⟨more, begins⟩ := begins
      have other : c ≠ '/' := by
        rintro rfl
        exact named.2 List.mem_cons_self
      cases rooted with
      | false =>
        have shape : render false ((c :: name) :: rest) =
            ['/'].intercalate ((c :: name) :: rest) := by
          rw [render, begins]
          rfl
        have open' : isRooted (render false ((c :: name) :: rest)) = false := by
          rw [shape, begins, isRooted]
          simp [other]
        refine ⟨open', ?_⟩
        rw [cleanNames, open', shape, split, refold, List.reverse_reverse]
      | true =>
        have shape : render true ((c :: name) :: rest) =
            '/' :: ['/'].intercalate ((c :: name) :: rest) := by
          rw [render]
          rfl
        have root : isRooted (render true ((c :: name) :: rest)) = true := by
          rw [shape]
          rfl
        refine ⟨root, ?_⟩
        have first : ('/' :: ['/'].intercalate ((c :: name) :: rest)).splitOn '/' =
            [] :: (c :: name) :: rest := by
          rw [List.splitOn_cons_eq_if_modifyHead, if_pos (beq_self_eq_true _), split]
        rw [cleanNames, root, shape, first, List.foldl_cons]
        exact (congrArg List.reverse refold).trans (List.reverse_reverse _)

theorem cleanNames_clean (path : Text) :
    isRooted (clean path) = isRooted path ∧ cleanNames (clean path) = cleanNames path :=
  cleanNames_render (tidy_clean path)

theorem clean_clean (path : Text) : clean (clean path) = clean path := by
  obtain ⟨root, names⟩ := cleanNames_clean path
  rw [clean, root, names]
  rfl

/-! ## Requests -/

/-- The routes of the service. `refs` has the query parameter `service`. -/
inductive Service where
  | refs (rpc : Text)
  | uploadPack
  | receivePack

def Service.ending : Service → Text
  | .refs _ => "/info/refs".toList
  | .uploadPack => "/git-upload-pack".toList
  | .receivePack => "/git-receive-pack".toList

/-- Whether the handler gets to a session, which loads the repository. -/
def Service.loads : Service → Bool
  | .refs rpc => rpc = "git-upload-pack".toList || rpc = "git-receive-pack".toList
  | .uploadPack => true
  | .receivePack => true

structure Request where
  authorization : Text
  path : Text
  service : Service

/-- The path below the directory of the repositories. -/
def Request.trimmed (r : Request) : Text :=
  trimPrefix "/git".toList (trimSuffix r.path r.service.ending)

/-- The `Path` of the endpoint. -/
def endpoint (dir : Text) (r : Request) : Text := clean (join dir r.trimmed)

def allowed : List Text := ["vince".toList, "project".toList, "project.git".toList]

/-- The repository that the loop of `load` finds. -/
def named (dir endpoint : Text) : Option Text := allowed.find? (join dir · = endpoint)

/-- The repository that a request loads, if it gets that far. There is no `auth` function, so that
any `Authorization` header will do. -/
def Request.target (dir : Text) (r : Request) : Option Text :=
  if r.authorization = [] then none
  else if r.service.loads then named dir (endpoint dir r) else none

theorem isRooted_append (given : dir ≠ []) (more : Text) :
    isRooted (dir ++ more) = isRooted dir := by
  cases dir with
  | nil => exact absurd rfl given
  | cons c dir => rfl

theorem cleanNames_join (given : dir ≠ []) (plain : isDot elem = false ∧ isDotDot elem = false)
    (one : '/' ∉ elem) : cleanNames (dir ++ '/' :: elem) = cleanNames dir ++ [elem] := by
  have single : elem.splitOn '/' = [elem] := List.splitOn_eq_singleton one
  rw [cleanNames, isRooted_append given, List.splitOn_append_cons_self, single, List.foldl_append,
    List.foldl_cons, List.foldl_nil, cleanStep.eq_def, if_neg (by simp [plain.1]),
    if_neg (by simp [plain.2]), List.reverse_cons, cleanNames]

theorem plain_of_allowed {a : Text} (mem : a ∈ allowed) :
    (isDot a = false ∧ isDotDot a = false) ∧ '/' ∉ a := by
  revert a
  decide

/-- Two clean paths below one directory are the same iff their names are. -/
theorem clean_eq_iff (given : dir ≠ []) (path path' : Text) :
    clean (dir ++ '/' :: path) = clean (dir ++ '/' :: path') ↔
      cleanNames (dir ++ '/' :: path) = cleanNames (dir ++ '/' :: path') := by
  constructor
  · intro same
    have names := congrArg cleanNames same
    rwa [(cleanNames_clean _).2, (cleanNames_clean _).2] at names
  · intro same
    rw [clean, clean, isRooted_append given, isRooted_append given, same]

/-- A request loads a repository iff it has an `Authorization` header, is one of those that load,
and its path leads from the directory to that repository, however it gets there. -/
theorem target_iff (dir : Text) (given : dir ≠ []) (r : Request) (a : Text) :
    r.target dir = some a ↔ r.authorization ≠ [] ∧ r.service.loads = true ∧ a ∈ allowed ∧
      cleanNames (dir ++ '/' :: r.trimmed) = cleanNames dir ++ [a] := by
  have reaches : ∀ b ∈ allowed, join dir b = endpoint dir r ↔
      cleanNames (dir ++ '/' :: r.trimmed) = cleanNames dir ++ [b] := by
    intro b mem
    obtain ⟨plain, one⟩ := plain_of_allowed mem
    rw [endpoint, join, if_pos given, join, if_pos given, clean_clean, clean_eq_iff given,
      cleanNames_join given plain one, eq_comm]
  rw [Request.target]
  split
  · rename_i none
    simp [none]
  · rename_i some
    split
    · rename_i loads
      rw [and_iff_right some, and_iff_right loads, named]
      constructor
      · intro found
        have mem := List.mem_of_find?_eq_some found
        have same : join dir a = endpoint dir r := by simpa using List.find?_some found
        exact ⟨mem, (reaches a mem).mp same⟩
      · rintro ⟨mem, names⟩
        have same := (reaches a mem).mpr names
        cases found : allowed.find? (join dir · = endpoint dir r) with
        | none => exact absurd (decide_eq_true same) (List.find?_eq_none.mp found a mem)
        | some b =>
          have mem' := List.mem_of_find?_eq_some found
          have same' : join dir b = endpoint dir r := by simpa using List.find?_some found
          have names' := (reaches b mem').mp same'
          rw [names, List.append_cancel_left_eq, List.singleton_inj] at names'
          rw [names']
    · rename_i loads
      simp [loads]

/-- A path may climb out of the directory and come back. -/
theorem target_iff_climbing :
    (Request.mk "x".toList "/git/../configs/vince/git-upload-pack".toList .uploadPack).target
      "/srv/configs".toList = some "vince".toList :=
  (target_iff "/srv/configs".toList (by decide) _ "vince".toList).mpr (by decide)

end GitPaths
