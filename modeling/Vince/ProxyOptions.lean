import Vince.RuleCollect
import Vince.TemplateRendering

/-!
# The options of a proxy (`ngx_proxy_pass.go`)

`load` goes from a location up to the outermost block and then replays the settings of each block on
the way back, so that what is stored later overwrites what was stored before. That holds for the
method and for a flag that is spelled in small letters. The address is a text with variables, and
storing one without variables leaves an earlier template in its place.
-/

namespace ProxyOptions

open GoText ConfigAnalyze ConfigParse RequestVariables StringTemplate TemplateRendering RuleHeap
open LastWrites

variable {Loc : Type}

/-- `stringValue`, `boolValue` and `stringSliceValue`. -/
structure Setting (α : Type) where
  set : Bool
  value : α
  deriving DecidableEq

structure Bind where
  address : Setting Text := ⟨false, []⟩
  transparent : Setting Bool := ⟨false, false⟩
  off : Setting Bool := ⟨false, false⟩

structure Pass (T : TextTemplate Loc) where
  uri : StringTemplateValue T := {}
  header : Setting (List Text) := ⟨false, []⟩
  body : Setting Bool := ⟨false, false⟩
  method : Setting Text := ⟨false, []⟩

/-- `proxyOption` without the fields that are never set. -/
structure ProxyOption (T : TextTemplate Loc) where
  bind : Bind := {}
  pass : Pass T := {}

/-- The settings that `loadKey` knows. -/
inductive Key where
  | proxyBind
  | proxyPass
  | proxyPassHeader
  | proxyPassRequestBody
  | proxyMethod
  deriving DecidableEq, Repr

def Key.name : Key → Text
  | .proxyBind => "proxy_bind".toList
  | .proxyPass => "proxy_pass".toList
  | .proxyPassHeader => "proxy_pass_header".toList
  | .proxyPassRequestBody => "proxy_pass_request_body".toList
  | .proxyMethod => "proxy_method".toList

def keyNamed (name : Text) : Option Key :=
  [Key.proxyBind, .proxyPass, .proxyPassHeader, .proxyPassRequestBody, .proxyMethod].find?
    (·.name = name)

theorem keyNamed_eq_some_iff {name : Text} {k : Key} : keyNamed name = some k ↔ name = k.name := by
  constructor
  · intro named
    have holds := List.find?_some named
    exact (of_decide_eq_true holds).symm
  · rintro rfl
    cases k <;> decide +kernel

theorem keyNamed_eq_none {name : Text} (unknown : keyNamed name = none) (k : Key) :
    name ≠ k.name := by
  intro same
  rw [keyNamed_eq_some_iff.mpr same] at unknown
  cases unknown

theorem name_injective : Function.Injective Key.name := by
  intro k k' same
  have first : keyNamed k.name = some k := keyNamed_eq_some_iff.mpr rfl
  have second : keyNamed k.name = some k' := keyNamed_eq_some_iff.mpr same
  exact Option.some.inj (first.symm.trans second)

/-- How the program ends in a panic, or the model without fuel. -/
inductive Panic where
  | fault (f : Fault)
  /-- by `template.Must`, or by `Value` -/
  | template
  /-- a value that is not of the type it is taken for -/
  | assertion
  deriving DecidableEq

/-- The flags of one argument of `proxy_bind`. -/
def Bind.flag (b : Bind) (arg : Text) : Bind :=
  if arg = "transparent".toList then { b with transparent := ⟨true, true⟩ }
  else if arg = "off".toList then { b with off := ⟨true, true⟩ }
  else b

/-- What the switch over the argument of `proxy_pass_request_body` knows. -/
def literalFlag (v : Text) : Option Bool :=
  if v = "on".toList then some true else if v = "off".toList then some false else none

section Load

variable {T : TextTemplate Loc}

/-- The cases of `loadKey`, with the first argument. -/
def ProxyOption.store (o : ProxyOption T) (args : List Text) (v : Text) :
    Key → Except Panic (ProxyOption T)
  | .proxyBind => .ok { o with bind := args.foldl Bind.flag { o.bind with address := ⟨true, v⟩ } }
  | .proxyPass =>
    match o.pass.uri.store v with
    | none => .error .template
    | some uri => .ok { o with pass := { o.pass with uri } }
  | .proxyPassHeader =>
    .ok { o with pass := { o.pass with header := ⟨true, o.pass.header.value ++ [v]⟩ } }
  | .proxyPassRequestBody =>
    match literalFlag v with
    | none => .ok o
    | some b => .ok { o with pass := { o.pass with body := ⟨true, b⟩ } }
  | .proxyMethod => .ok { o with pass := { o.pass with method := ⟨true, v⟩ } }

/-- A rule by its name and its arguments. Every case starts with `r.args[0]`. -/
def loadKey (o : ProxyOption T) (r : Text × List Text) : Except Panic (ProxyOption T) :=
  match keyNamed r.1 with
  | none => .ok o
  | some k =>
    match r.2 with
    | [] => .error (.fault .indexOutOfRange)
    | v :: _ => o.store r.2 v k

def isBlock (name : Text) : Bool :=
  name = "http".toList || name = "server".toList || name = "location".toList

/-- One round of the loop over the children. -/
def loadChild (h : Heap) (o : ProxyOption T) (c : ℕ) : Except Panic (ProxyOption T) :=
  match h.label c with
  | none => .error (.fault .nilDereference)
  | some r => loadKey o r

def load (h : Heap) : ℕ → ProxyOption T → ℕ → Except Panic (ProxyOption T)
  | 0, _, _ => .error (.fault .outOfFuel)
  | fuel + 1, o, location =>
    match h.label location with
    | none => .error (.fault .nilDereference)
    | some (name, _) =>
      if isBlock name then do
        let o ← match h.parent location with
          | none => .ok o
          | some p => load h fuel o p
        (h.children location).foldlM (loadChild h) o
      else .ok o

end Load

/-! ## The blocks around a location -/

/-- The rules in a block. -/
def directives (h : Heap) (r : ℕ) : List (Text × List Text) := (h.children r).filterMap h.label

def inBlock (h : Heap) (r : ℕ) : Bool := (h.label r).any fun label => isBlock label.1

/-- The blocks that `load` goes through, the innermost first. -/
def blocks (h : Heap) (line : List ℕ) : List ℕ := line.takeWhile (inBlock h)

/-- The rules in the blocks in the order in which they are loaded. -/
def replayed (h : Heap) (blocks : List ℕ) : List (Text × List Text) :=
  blocks.reverse.flatMap (directives h)

theorem exists_label {h : Heap} {r : ℕ} (inside : r < h.nodes.length) :
    ∃ label, h.label r = some label := by
  rw [Heap.label, List.getElem?_eq_getElem inside]
  exact ⟨_, rfl⟩

section Line

variable {T : TextTemplate Loc} {h : Heap} {r : ℕ} {ps : List ℕ}

theorem loadChildren_eq (good : Good h) (o : ProxyOption T) (r : ℕ) :
    (h.children r).foldlM (loadChild h) o = (directives h r).foldlM loadKey o := by
  have labelled : ∀ c ∈ h.children r, ∃ label, h.label c = some label :=
    fun c child => exists_label (good.down r c child).2.1
  rw [directives]
  generalize h.children r = cs at labelled
  induction cs generalizing o with
  | nil => rfl
  | cons c cs ih =>
    obtain ⟨label, found⟩ := labelled c List.mem_cons_self
    rw [List.filterMap_cons_some found, List.foldlM_cons, List.foldlM_cons, loadChild, found]
    dsimp only
    cases loadKey o label with
    | error p => rfl
    | ok o' => exact ih o' fun c' later => labelled c' (List.mem_cons_of_mem _ later)

theorem replayed_cons (r : ℕ) (bs : List ℕ) :
    replayed h (r :: bs) = replayed h bs ++ directives h r := by
  rw [replayed, List.reverse_cons, List.flatMap_append, List.flatMap_singleton]
  rfl

/-- What `load` does at a rule, by what kind of a rule it is. -/
theorem load_succ (good : Good h) (fuel : ℕ) (o : ProxyOption T) {label : Text × List Text}
    (found : h.label r = some label) :
    load h (fuel + 1) o r =
      if inBlock h r then
        (match h.parent r with
          | none => .ok o
          | some p => load h fuel o p) >>= fun o => (directives h r).foldlM loadKey o
      else .ok o := by
  have same : inBlock h r = isBlock label.1 := by
    rw [inBlock, found]
    rfl
  rw [load, found, same]
  dsimp only
  split
  · cases h.parent r with
    | none => exact loadChildren_eq good o r
    | some p => exact congrArg (load h fuel o p >>= ·) (funext fun o => loadChildren_eq good o r)
  · rfl

/-- `load` replays the rules of the blocks from the outermost one inwards. -/
theorem load_eq (good : Good h) (line : Line h r ps) {fuel : ℕ} (enough : ps.length < fuel)
    (o : ProxyOption T) :
    load h fuel o r = (replayed h (blocks h (r :: ps))).foldlM loadKey o := by
  obtain ⟨fuel, rfl⟩ : ∃ k, fuel = k + 1 := ⟨fuel - 1, by omega⟩
  induction line generalizing fuel with
  | @root r inside orphan =>
    obtain ⟨label, found⟩ := exists_label inside
    rw [load_succ good fuel o found, orphan]
    by_cases block : inBlock h r = true
    · rw [if_pos block, blocks, List.takeWhile_cons_of_pos block, replayed_cons]
      rfl
    · rw [if_neg block, blocks, List.takeWhile_cons_of_neg block]
      rfl
  | @child p c ps line child points ih =>
    obtain ⟨label, found⟩ := exists_label (good.down p c child).2.1
    obtain ⟨fuel, rfl⟩ : ∃ k, fuel = k + 1 := ⟨fuel - 1, by rw [List.length_cons] at enough; omega⟩
    rw [load_succ good _ o found, points]
    by_cases block : inBlock h c = true
    · rw [if_pos block, blocks, List.takeWhile_cons_of_pos block, replayed_cons,
        List.foldlM_append]
      have outer := ih fuel (by rw [List.length_cons] at enough; omega)
      rw [← blocks, ← outer]
    · rw [if_neg block, blocks, List.takeWhile_cons_of_neg block]
      rfl

end Line

/-! ## What each option is set to -/

/-- The first argument of a rule of this name. -/
def argument (k : Key) (r : Text × List Text) : Option Text :=
  if r.1 = k.name then some (r.2.headD []) else none

/-- The rules that can be loaded. -/
def Loads (T : TextTemplate Loc) (r : Text × List Text) : Prop :=
  ∀ k, r.1 = Key.name k → ∃ v rest, r.2 = v :: rest ∧
    (k = .proxyPass → '$' ∈ v → T.parse (replaceFrom 0 v) ≠ none)

section Keys

variable {T : TextTemplate Loc}

theorem store_ok_iff (o : ProxyOption T) (args : List Text) (v : Text) (k : Key) :
    (∃ o', o.store args v k = .ok o') ↔
      (k = .proxyPass → '$' ∈ v → T.parse (replaceFrom 0 v) ≠ none) := by
  cases k with
  | proxyPass =>
    rw [ProxyOption.store, StringTemplateValue.store]
    by_cases dollar : '$' ∈ v
    · rw [if_pos dollar]
      cases T.parse (replaceFrom 0 v) with
      | none => simp [dollar]
      | some t => simp
    · rw [if_neg dollar]
      simp [dollar]
  | proxyPassRequestBody =>
    rw [ProxyOption.store]
    cases literalFlag v with
    | none => simp
    | some b => simp
  | proxyBind => simp [ProxyOption.store]
  | proxyPassHeader => simp [ProxyOption.store]
  | proxyMethod => simp [ProxyOption.store]

theorem loadKey_ok_iff (o : ProxyOption T) (r : Text × List Text) :
    (∃ o', loadKey o r = .ok o') ↔ Loads T r := by
  obtain ⟨name, args⟩ := r
  rw [loadKey]
  cases named : keyNamed name with
  | none => exact iff_of_true ⟨o, rfl⟩ fun k same => absurd same (keyNamed_eq_none named k)
  | some k =>
    obtain rfl := keyNamed_eq_some_iff.mp named
    cases args with
    | nil =>
      refine iff_of_false ?_ fun loads => ?_
      · rintro ⟨o', ran⟩
        cases ran
      · obtain ⟨v, rest, same, -⟩ := loads k rfl
        cases same
    | cons v rest =>
      refine (store_ok_iff o _ v k).trans ⟨fun parses k' same => ?_, fun loads => ?_⟩
      · obtain rfl := name_injective same
        exact ⟨v, rest, rfl, parses⟩
      · obtain ⟨v', rest', same, parses⟩ := loads k rfl
        cases same
        exact parses

/-- A rule that is loaded is none of those that are known, or is stored by its first argument. -/
theorem loadKey_cases {o o' : ProxyOption T} {r : Text × List Text} (ran : loadKey o r = .ok o') :
    ((∀ k, argument k r = none) ∧ o' = o) ∨
    ∃ k v, (∀ k', argument k' r = if k = k' then some v else none) ∧ o.store r.2 v k = .ok o' := by
  obtain ⟨name, args⟩ := r
  rw [loadKey] at ran
  cases named : keyNamed name with
  | none =>
    rw [named] at ran
    cases ran
    exact .inl ⟨fun k => if_neg (keyNamed_eq_none named k), rfl⟩
  | some k =>
    rw [named] at ran
    obtain rfl := keyNamed_eq_some_iff.mp named
    cases args with
    | nil => cases ran
    | cons v rest =>
      refine .inr ⟨k, v, fun k' => ?_, ran⟩
      simp only [argument, name_injective.eq_iff, List.headD_cons]

/-- What the cases of `loadKey` set. -/
structure Stored (o o' : ProxyOption T) (k : Key) (v : Text) : Prop where
  method : o'.pass.method = if k = .proxyMethod then ⟨true, v⟩ else o.pass.method
  body : o'.pass.body = if k = .proxyPassRequestBody then
    ((literalFlag v).map (⟨true, ·⟩)).getD o.pass.body else o.pass.body
  tpl : o'.pass.uri.tpl = if k = .proxyPass ∧ '$' ∈ v then T.parse (replaceFrom 0 v)
    else o.pass.uri.tpl
  value : o'.pass.uri.value = if k = .proxyPass ∧ '$' ∉ v then v else o.pass.uri.value

theorem stored_of_store {o o' : ProxyOption T} {args : List Text} {v : Text} {k : Key}
    (ran : o.store args v k = .ok o') : Stored o o' k v := by
  cases k with
  | proxyPass =>
    rw [ProxyOption.store, StringTemplateValue.store] at ran
    by_cases dollar : '$' ∈ v
    · rw [if_pos dollar] at ran
      cases parsed : T.parse (replaceFrom 0 v) with
      | none =>
        rw [parsed] at ran
        cases ran
      | some t =>
        rw [parsed] at ran
        cases ran
        exact ⟨rfl, rfl, by simp [dollar, parsed], by simp [dollar]⟩
    · rw [if_neg dollar] at ran
      cases ran
      exact ⟨rfl, rfl, by simp [dollar], by simp [dollar]⟩
  | proxyPassRequestBody =>
    rw [ProxyOption.store] at ran
    cases flag : literalFlag v with
    | none =>
      rw [flag] at ran
      cases ran
      exact ⟨rfl, by simp [flag], rfl, rfl⟩
    | some b =>
      rw [flag] at ran
      cases ran
      exact ⟨rfl, by simp [flag], rfl, rfl⟩
  | proxyBind =>
    cases ran
    exact ⟨rfl, rfl, rfl, rfl⟩
  | proxyPassHeader =>
    cases ran
    exact ⟨rfl, rfl, rfl, rfl⟩
  | proxyMethod =>
    cases ran
    exact ⟨rfl, rfl, rfl, rfl⟩

/-- An option that only rules of one name set, from their argument. -/
theorem sets_of_stored {β : Type} {field : ProxyOption T → β} {k : Key} {write : Text → Option β}
    (here : ∀ {o o' v}, Stored o o' k v → field o' = (write v).getD (field o))
    (elsewhere : ∀ {o o' v k'}, k' ≠ k → Stored o o' k' v → field o' = field o) :
    Sets loadKey field fun r => (argument k r).bind write := by
  intro o r o' ran
  dsimp only
  rcases loadKey_cases ran with ⟨unknown, rfl⟩ | ⟨k', v, given, ran⟩
  · rw [unknown]
    rfl
  · have stored := stored_of_store ran
    rw [given]
    by_cases same : k' = k
    · subst same
      rw [if_pos rfl]
      exact here stored
    · rw [if_neg same]
      exact elsewhere same stored

theorem method_set : Sets (loadKey (T := T)) (·.pass.method)
    fun r => (argument .proxyMethod r).bind fun v => some ⟨true, v⟩ := by
  refine sets_of_stored (fun stored => ?_) fun other stored => ?_
  · rw [stored.method, if_pos rfl]
    rfl
  · rw [stored.method, if_neg other]

theorem body_set : Sets (loadKey (T := T)) (·.pass.body)
    fun r => (argument .proxyPassRequestBody r).bind fun v => (literalFlag v).map (⟨true, ·⟩) := by
  refine sets_of_stored (fun stored => ?_) fun other stored => ?_
  · rw [stored.body, if_pos rfl]
  · rw [stored.body, if_neg other]

theorem tpl_set : Sets (loadKey (T := T)) (·.pass.uri.tpl)
    fun r => (argument .proxyPass r).bind fun v =>
      if '$' ∈ v then some (T.parse (replaceFrom 0 v)) else none := by
  refine sets_of_stored (fun {o o' v} stored => ?_) fun other stored => ?_
  · rw [stored.tpl]
    by_cases dollar : '$' ∈ v <;> simp [dollar]
  · rw [stored.tpl, if_neg fun both => other both.1]

theorem value_set : Sets (loadKey (T := T)) (·.pass.uri.value)
    fun r => (argument .proxyPass r).bind fun v => if '$' ∈ v then none else some v := by
  refine sets_of_stored (fun {o o' v} stored => ?_) fun other stored => ?_
  · rw [stored.value]
    by_cases dollar : '$' ∈ v <;> simp [dollar]
  · rw [stored.value, if_neg fun both => other both.1]

end Keys

/-! ## The innermost setting -/

/-- The arguments of the rules of a name, in the order in which they are loaded. -/
def arguments (h : Heap) (k : Key) (bs : List ℕ) : List Text :=
  (replayed h bs).filterMap (argument k)

/-- The argument of the last rule of a name in the innermost block that has one. -/
def setting (h : Heap) (k : Key) (bs : List ℕ) : Option Text :=
  bs.findSome? fun b => ((directives h b).filterMap (argument k)).getLast?

theorem getLast?_arguments (h : Heap) (k : Key) (bs : List ℕ) :
    (arguments h k bs).getLast? = setting h k bs :=
  getLast?_replayed bs (directives h) (argument k)

/-- The value of a flag, as it is checked by `validFlag`. -/
def flagValue (v : Text) : Option Bool := literalFlag (v.map Char.toLower)

/-- The options are those of the innermost block that sets them. -/
structure InnermostWins (T : Templates Loc) (h : Heap) (bs : List ℕ)
    (o : ProxyOption T.toTextTemplate) : Prop where
  method : ∀ v, setting h .proxyMethod bs = some v → o.pass.method = ⟨true, v⟩
  body : ∀ v b, setting h .proxyPassRequestBody bs = some v → flagValue v = some b →
    o.pass.body = ⟨true, b⟩
  uri : ∀ v, setting h .proxyPass bs = some v →
    ∀ m, o.pass.uri.valueIn m = some (expectedFrom T.toTextTemplate m 0 v)

/-- The last address with a variable that is loaded. -/
def lastTemplated (h : Heap) (bs : List ℕ) : Option Text :=
  ((arguments h .proxyPass bs).filter ('$' ∈ ·)).getLast?

/-- The last flag that `loadKey` knows. -/
def lastLiteral (h : Heap) (bs : List ℕ) : Option Bool :=
  ((arguments h .proxyPassRequestBody bs).filterMap literalFlag).getLast?

/-- When the innermost setting wins: all rules can be loaded; the first trouble of an address with
variables, if any, is a fine one; an address without variables has no template before it, or one
that renders the address; and a flag in capital letters only repeats the last one that is known. -/
structure Overrides (T : Templates Loc) (h : Heap) (bs : List ℕ) (fine : Option Trouble → Prop) :
    Prop where
  loads : ∀ r ∈ replayed h bs, Loads T.toTextTemplate r
  template : ∀ v, setting h .proxyPass bs = some v → '$' ∈ v →
    fine (troubleFrom 0 v)
  plain : ∀ v, setting h .proxyPass bs = some v → '$' ∉ v →
    ∀ x t, lastTemplated h bs = some x → T.parse (replaceFrom 0 x) = some t →
      ∀ m, T.execute t m = some v
  flag : ∀ v b, setting h .proxyPassRequestBody bs = some v → flagValue v = some b →
    lastLiteral h bs = some b

section Replay

variable {T : TextTemplate Loc} {h : Heap} {bs : List ℕ} {o : ProxyOption T}

theorem method_loaded (ran : (replayed h bs).foldlM loadKey {} = .ok o) :
    o.pass.method = ((setting h .proxyMethod bs).map (⟨true, ·⟩)).getD ⟨false, []⟩ := by
  rw [method_set.foldlM ran, ← List.filterMap_filterMap, ← arguments, ← getLast?_arguments,
    List.filterMap_eq_map', List.getLast?_map]

theorem body_loaded (ran : (replayed h bs).foldlM loadKey {} = .ok o) :
    o.pass.body = ((lastLiteral h bs).map (⟨true, ·⟩)).getD ⟨false, false⟩ := by
  rw [body_set.foldlM ran, ← List.filterMap_filterMap, ← arguments, ← List.map_filterMap,
    List.getLast?_map, lastLiteral]

theorem tpl_loaded (ran : (replayed h bs).foldlM loadKey {} = .ok o) :
    o.pass.uri.tpl = (lastTemplated h bs).bind fun x => T.parse (replaceFrom 0 x) := by
  rw [tpl_set.foldlM ran, ← List.filterMap_filterMap, ← arguments, filterMap_ite,
    List.getLast?_map, ← lastTemplated]
  cases lastTemplated h bs with
  | none => rfl
  | some x => rfl

theorem exists_arguments {k : Key} {v : Text} (set : setting h k bs = some v) :
    ∃ before, arguments h k bs = before ++ [v] := by
  rw [← getLast?_arguments] at set
  exact List.getLast?_eq_some_iff.mp set

theorem lastTemplated_eq {v : Text} (set : setting h .proxyPass bs = some v) (dollar : '$' ∈ v) :
    lastTemplated h bs = some v := by
  obtain ⟨before, same⟩ := exists_arguments set
  rw [lastTemplated, same, List.filter_append]
  simp [dollar]

theorem value_loaded (ran : (replayed h bs).foldlM loadKey {} = .ok o) {v : Text}
    (set : setting h .proxyPass bs = some v) (plain : '$' ∉ v) : o.pass.uri.value = v := by
  obtain ⟨before, same⟩ := exists_arguments set
  rw [value_set.foldlM ran, ← List.filterMap_filterMap, ← arguments, same, List.filterMap_append]
  simp [plain]

/-- The address that is set parses if all rules can be loaded. -/
theorem parses_of_loads (loads : ∀ r ∈ replayed h bs, Loads T r) {v : Text}
    (set : setting h .proxyPass bs = some v) (dollar : '$' ∈ v) :
    ∃ t, T.parse (replaceFrom 0 v) = some t := by
  rw [← getLast?_arguments] at set
  obtain ⟨r, listed, given⟩ := List.mem_filterMap.mp (List.mem_of_getLast? set)
  rw [argument] at given
  split at given
  · rename_i named
    obtain ⟨v', rest, args, parses⟩ := loads r listed .proxyPass named
    rw [args] at given
    cases given
    exact Option.ne_none_iff_exists'.mp (parses rfl dollar)
  · cases given

end Replay

/-- The address that is loaded is rendered as the innermost one is iff templates reproduce that one,
or it has no template left over in its place. -/
theorem uri_wins_iff (T : Templates Loc) {h : Heap} {bs : List ℕ} {o : ProxyOption T.toTextTemplate}
    (ran : (replayed h bs).foldlM loadKey {} = .ok o)
    (loads : ∀ r ∈ replayed h bs, Loads T.toTextTemplate r) {v : Text}
    (set : setting h .proxyPass bs = some v) :
    (∀ m, o.pass.uri.valueIn m = some (expectedFrom T.toTextTemplate m 0 v)) ↔
      ('$' ∈ v → Reproduces T v) ∧
      ('$' ∉ v → ∀ x t, lastTemplated h bs = some x → T.parse (replaceFrom 0 x) = some t →
        ∀ m, T.execute t m = some v) := by
  have tpl := tpl_loaded ran
  by_cases dollar : '$' ∈ v
  · obtain ⟨t, parsed⟩ := parses_of_loads loads set dollar
    rw [lastTemplated_eq set dollar, Option.bind_some, parsed] at tpl
    simp only [dollar, not_true_eq_false, false_implies, and_true, true_implies,
      StringTemplateValue.valueIn, tpl]
    constructor
    · intro renders
      exact ⟨t, parsed, renders⟩
    · rintro ⟨t', parsed', renders⟩
      rw [parsed] at parsed'
      cases parsed'
      exact renders
  · have value := value_loaded ran set dollar
    simp only [dollar, not_false_eq_true, false_implies, true_and, true_implies,
      expectedFrom_plain _ _ dollar, StringTemplateValue.valueIn, tpl]
    cases lastTemplated h bs with
    | none => simp [value]
    | some x =>
      rw [Option.bind_some]
      cases parsed : T.parse (replaceFrom 0 x) with
      | none =>
        refine iff_of_true (fun _ => congrArg some value) ?_
        rintro x' t ⟨⟩ parsed'
        rw [parsed] at parsed'
        cases parsed'
      | some t =>
        constructor
        · rintro renders x' t' ⟨⟩ parsed'
          rw [parsed] at parsed'
          cases parsed'
          exact renders
        · intro renders
          exact renders x t rfl parsed

/-- `load` returns with the innermost settings if nothing of the above stands in the way. If it
does, then nothing did, unless it is an action of its own in the innermost address. -/
theorem innermost_wins (T : Templates Loc) {h : Heap} (good : Good h) {r : ℕ} {ps : List ℕ}
    (line : Line h r ps) {fuel : ℕ} (enough : ps.length < fuel) :
    (Overrides T h (blocks h (r :: ps)) (· = none) →
      ∃ o : ProxyOption T.toTextTemplate, load h fuel {} r = .ok o ∧
        InnermostWins T h (blocks h (r :: ps)) o) ∧
    ((∃ o : ProxyOption T.toTextTemplate, load h fuel {} r = .ok o ∧
        InnermostWins T h (blocks h (r :: ps)) o) →
      Overrides T h (blocks h (r :: ps)) fun trouble =>
        trouble = none ∨ trouble = some .ownAction) := by
  rw [load_eq good line enough]
  generalize blocks h (r :: ps) = bs
  have returns := foldlM_ok_iff (loadKey_ok_iff (T := T.toTextTemplate)) (replayed h bs) {}
  constructor
  · intro overrides
    obtain ⟨o, ran⟩ := returns.mpr overrides.loads
    refine ⟨o, ran, fun v set => ?_, fun v b set flag => ?_, fun v set => ?_⟩
    · rw [method_loaded ran, set]
      rfl
    · rw [body_loaded ran, overrides.flag v b set flag]
      rfl
    · exact (uri_wins_iff T ran overrides.loads set).mpr
        ⟨fun dollar => reproduces_of_no_trouble T (overrides.template v set dollar),
          overrides.plain v set⟩
  · rintro ⟨o, ran, wins⟩
    have loads := returns.mp ⟨o, ran⟩
    refine ⟨loads, fun v set dollar => ?_, fun v set => ?_, fun v b set flag => ?_⟩
    · exact trouble_of_reproduces T dollar
        (((uri_wins_iff T ran loads set).mp (wins.uri v set)).1 dollar)
    · exact ((uri_wins_iff T ran loads set).mp (wins.uri v set)).2
    · have body := wins.body v b set flag
      rw [body_loaded ran] at body
      cases last : lastLiteral h bs with
      | none =>
        rw [last] at body
        cases body
      | some b' =>
        rw [last] at body
        cases body
        rfl

/-! ## Two blocks -/

private def rule (name : String) (args : List String) : Stmt :=
  ⟨name.toList, [], 0, args.map String.toList, [], [], none⟩

private def block (name : String) (body : List Stmt) : Stmt :=
  ⟨name.toList, [], 0, [], [], [], some body⟩

/-- A server with a location, and an address in both. -/
private def nestedHeap (outer inner : String) : Heap :=
  (ruleFromStmt exactly (block "server" [rule "proxy_pass" [outer],
    block "location" [rule "proxy_pass" [inner], rule "proxy_method" ["GET"]]]) none Heap.empty).2

private theorem nestedHeap_good (outer inner : String) : Good (nestedHeap outer inner) :=
  (made_ruleFromStmt exactly _ none Heap.empty good_empty).good

private theorem nestedHeap_line (outer inner : String) : Line (nestedHeap outer inner) 2 [0] := by
  have children : (nestedHeap outer inner).children 0 = [1, 2] := rfl
  refine .child (.root (Nat.zero_lt_succ _) rfl) ?_ rfl
  rw [children]
  decide

private def nestedBlocks (outer inner : String) : List ℕ := blocks (nestedHeap outer inner) [2, 0]

theorem innermost_wins_sample :
    ∃ o : ProxyOption fieldTemplates.toTextTemplate, load (nestedHeap "/a" "/b") 2 {} 2 = .ok o ∧
      InnermostWins fieldTemplates (nestedHeap "/a" "/b") (nestedBlocks "/a" "/b") o := by
  refine (innermost_wins fieldTemplates (nestedHeap_good "/a" "/b") (nestedHeap_line "/a" "/b")
    (Nat.lt_succ_self 1)).1 ?_
  have set : setting (nestedHeap "/a" "/b") .proxyPass (nestedBlocks "/a" "/b") =
      some "/b".toList := by decide +kernel
  refine ⟨?_, fun v set' dollar => ?_, fun v set' plain x t last => ?_, fun v b set' => ?_⟩
  · exact (foldlM_ok_iff loadKey_ok_iff _ {}).mp ⟨_, rfl⟩
  · cases set.symm.trans set'
    exact absurd dollar (by decide)
  · have none : lastTemplated (nestedHeap "/a" "/b") (nestedBlocks "/a" "/b") = none := by
      decide +kernel
    cases none.symm.trans last
  · have none : setting (nestedHeap "/a" "/b") .proxyPassRequestBody (nestedBlocks "/a" "/b") =
      none := by decide +kernel
    cases none.symm.trans set'

/-- The address of the location is stored, but the template of the server is what is rendered. -/
theorem outer_template_wins :
    ∃ o : ProxyOption fieldTemplates.toTextTemplate, load (nestedHeap "$x" "/b") 2 {} 2 = .ok o ∧
      setting (nestedHeap "$x" "/b") .proxyPass (nestedBlocks "$x" "/b") = some "/b".toList ∧
      o.pass.uri.valueIn (fun _ => none) = some "<no value>".toList ∧
      ¬ InnermostWins fieldTemplates (nestedHeap "$x" "/b") (nestedBlocks "$x" "/b") o := by
  have set : setting (nestedHeap "$x" "/b") .proxyPass (nestedBlocks "$x" "/b") =
      some "/b".toList := by decide +kernel
  refine ⟨_, rfl, set, rfl, fun wins => ?_⟩
  have rendered := wins.uri _ set fun _ => none
  rw [expectedFrom_plain _ _ (by decide)] at rendered
  exact absurd rendered (by decide +kernel)

end ProxyOptions
