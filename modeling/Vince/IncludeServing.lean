import Mathlib.Algebra.Order.BigOperators.Group.List
import Vince.ConfigInclude

/-!
# Includes and the servers that are started

`startEverything` builds its rules from the statements of the first file only. Here the result
is compared with the rules of the one file in which every include is replaced by the statements
of the files it names. The two lists of servers agree exactly when the includes of the main
file stand where they add nothing to a server and no server.
-/

namespace IncludeServing

open GoText ConfigLex DirectiveTable ConfigAnalyze ConfigParse ParseReads LoadSafety Worklist
open ServerRules ConfigInclude StateTransition Relation

variable {site : Site} {opts : ParseOpts} {start : Text} {table : Directives} {payload : Payload}
  {env : ParseEnv} {whole load : Text → List Stmt} {stmt inner : Stmt} {stmts body : List Stmt}

/-! ## The first file of the payload -/

theorem config_grows {sys : System} {loop final : Loop} {s : LoopState}
    (path : Reaches (loopStep sys opts) s (.running final)) (here : s = .running loop) :
    loop.config <+: final.config := by
  induction path using ReflTransGen.head_induction_on generalizing loop with
  | refl => cases here; exact List.prefix_rfl
  | head edge path ih =>
    subst here
    rw [Option.mem_def, loopStep] at edge
    split at edge
    · cases edge
    · split at edge
      · cases edge
        exact (panicked_stuck path).elim
      · cases edge
        exact (List.prefix_append _ _).trans (ih rfl)
      · cases edge
        exact (List.prefix_append _ _).trans (ih rfl)

/-- The first entry of `Config` holds the statements of the start file. -/
theorem first_parsed (quiet : QuietOpts opts) (known : start ∈ site.names)
    (returns : ParseReturns site.system opts table start payload) :
    ∃ main, payload.config.head? = some (some main) ∧
      bare main.parsed = site.stmts (optsFor opts start) start := by
  obtain ⟨loop, path, ended, rfl⟩ := parseReturns_iff.mp returns
  have quiet' : QuietOpts (optsFor opts start) := quiet
  rcases ReflTransGen.cases_head path with same | ⟨s, edge, path⟩
  · cases same
    cases ended
  · have current : (firstLoop table start).shared.includes[(firstLoop table start).idx]? =
      some ⟨start, []⟩ := rfl
    by_cases safe : site.Safe (optsFor opts start) start
    · obtain ⟨st, parsed, next, -, same⟩ := loopStep_safe quiet' current known safe
      rw [parseStart, Option.mem_def, next] at edge
      obtain ⟨later, grown⟩ := config_grows path (Option.some.inj edge).symm
      exact ⟨_, by rw [← grown]; rfl, same⟩
    · obtain ⟨fault, next⟩ := loopStep_panics quiet' current known safe
      rw [parseStart, Option.mem_def, next] at edge
      cases edge
      exact (panicked_stuck path).elim

/-! ## Inlining -/

mutual

/-- The statements that stand for one statement once its includes are replaced. -/
def expandStmt (env : ParseEnv) (load : Text → List Stmt) : Stmt → List Stmt
  | ⟨directive, filename, line, args, comment, includes, none⟩ =>
    if isInclude env directive then (named env directive args).flatMap load
    else [⟨directive, filename, line, args, comment, includes, none⟩]
  | ⟨directive, filename, line, args, comment, includes, some body⟩ =>
    if isInclude env directive then (named env directive args).flatMap load
    else [⟨directive, filename, line, args, comment, includes, some (expand env load body)⟩]
termination_by structural stmt => stmt

/-- Every include statement, at any depth, replaced by the statements loaded for the files it
names. -/
def expand (env : ParseEnv) (load : Text → List Stmt) : List Stmt → List Stmt
  | [] => []
  | stmt :: rest => expandStmt env load stmt ++ expand env load rest
termination_by structural stmts => stmts

end

theorem expandStmt_eq (stmt : Stmt) : expandStmt env load stmt =
    if isInclude env stmt.directive then (named env stmt.directive stmt.args).flatMap load
    else [{ stmt with blocks := stmt.blocks.map (expand env load) }] := by
  rcases stmt with ⟨_, _, _, _, _, _, _ | body⟩ <;> simp only [expandStmt, Option.map]

theorem expand_eq_flatMap (stmts : List Stmt) :
    expand env load stmts = stmts.flatMap (expandStmt env load) := by
  induction stmts with
  | nil => rfl
  | cons stmt rest ih => rw [expand, ih, List.flatMap_cons]

/-- `whole name` is the file `name` with every include replaced by the whole of the files it
names. -/
def IsInlining (site : Site) (opts : ParseOpts) (whole : Text → List Stmt) : Prop :=
  ∀ name, whole name = expand (site.system.env opts name) whole (site.stmts opts name)

theorem expand_congr {load' : Text → List Stmt} (stmts : List Stmt)
    (same : ∀ name ∈ includeNames env stmts, load name = load' name) :
    expand env load stmts = expand env load' stmts := by
  induction stmts using Stmt.forest_induction with
  | nil => rfl
  | cons stmt rest body tail =>
    rw [includeNames, stmtNames_eq] at same
    simp only [List.mem_append] at same
    rw [expand, expand, expandStmt_eq, expandStmt_eq,
      tail fun name mem => same name (.inr mem)]
    split
    · rw [List.flatMap_congr fun name mem => same name (.inl (.inl mem))]
    · cases blocks : stmt.blocks with
      | none => rfl
      | some list =>
        rw [Option.map_some, Option.map_some, body list blocks fun name mem =>
          same name (.inl (.inr (by simpa [blocks] using mem)))]

/-- The inlining up to a depth of includes. -/
def inlineTo (site : Site) (opts : ParseOpts) : Nat → Text → List Stmt
  | 0, _ => []
  | depth + 1, name =>
    expand (site.system.env opts name) (inlineTo site opts depth) (site.stmts opts name)

theorem includes_stmts (quiet : QuietOpts opts) (name : Text) :
    site.includes opts name = includeNames (site.system.env opts name) (site.stmts opts name) := by
  rw [Site.includes, Site.stmts]
  cases run : site.alone opts name with
  | error fault => rfl
  | ok result =>
    obtain ⟨parsed, rest, st⟩ := result
    obtain ⟨stmts, -, agrees⟩ := parseTokens_agrees (quiet.env site.system name) run
    have names := agrees.names_eq
    rw [← agrees.bare_eq] at names
    exact names

/-! ## Rules without includes -/

mutual

/-- The rule or one below it is named `include`. -/
def Rule.mentions : Rule → Bool
  | ⟨name, _, children⟩ => name = "include".toList || mentionsAny children
termination_by structural rule => rule

def mentionsAny : List Rule → Bool
  | [] => false
  | rule :: rules => Rule.mentions rule || mentionsAny rules
termination_by structural rules => rules

end

/-- No include statement, at any depth. -/
def IncludeFree (stmts : List Stmt) : Prop := mentionsAny (rulesFromStmts stmts) = false

theorem ruleFromStmt_eq (stmt : Stmt) : ruleFromStmt stmt =
    ⟨stmt.directive, stmt.args, rulesFromStmts (stmt.blocks.getD [])⟩ := by
  rcases stmt with ⟨_, _, _, _, _, _, _ | body⟩ <;> rfl

theorem includeFree_nil : IncludeFree [] := rfl

theorem includeFree_cons : IncludeFree (stmt :: stmts) ↔
    (stmt.directive ≠ "include".toList ∧ IncludeFree (stmt.blocks.getD [])) ∧
      IncludeFree stmts := by
  simp only [IncludeFree, rulesFromStmts, mentionsAny, ruleFromStmt_eq, Rule.mentions,
    Bool.or_eq_false_iff, decide_eq_false_iff_not, ne_eq]

theorem includeFree_append {others : List Stmt} :
    IncludeFree (stmts ++ others) ↔ IncludeFree stmts ∧ IncludeFree others := by
  induction stmts with
  | nil => simp only [List.nil_append, includeFree_nil, true_and]
  | cons stmt stmts ih => simp only [List.cons_append, includeFree_cons, ih, and_assoc]

theorem includeFree_flatMap {names : List Text} (free : ∀ name ∈ names, IncludeFree (load name)) :
    IncludeFree (names.flatMap load) := by
  induction names with
  | nil => exact includeFree_nil
  | cons name names ih =>
    rw [List.forall_mem_cons] at free
    rw [List.flatMap_cons, includeFree_append]
    exact ⟨free.1, ih free.2⟩

theorem isInclude_iff (follows : env.opts.single = false) {directive : Text} :
    isInclude env directive = true ↔ directive = "include".toList := by
  simp only [isInclude, follows, Bool.not_false, Bool.true_and, decide_eq_true_eq]

theorem expand_free (follows : env.opts.single = false) (stmts : List Stmt)
    (free : ∀ name ∈ includeNames env stmts, IncludeFree (load name)) :
    IncludeFree (expand env load stmts) := by
  induction stmts using Stmt.forest_induction with
  | nil => exact includeFree_nil
  | cons stmt rest body tail =>
    rw [includeNames, stmtNames_eq] at free
    simp only [List.mem_append] at free
    rw [expand, expandStmt_eq, includeFree_append]
    refine ⟨?_, tail fun name mem => free name (.inr mem)⟩
    split
    · exact includeFree_flatMap fun name mem => free name (.inl (.inl mem))
    · rename_i other
      refine includeFree_cons.mpr ⟨⟨fun same => other ((isInclude_iff follows).mpr same), ?_⟩,
        includeFree_nil⟩
      cases blocks : stmt.blocks with
      | none => exact includeFree_nil
      | some list =>
        exact body list blocks fun name mem => free name (.inl (.inr (by simpa [blocks] using mem)))

/-- Without includes, expanding changes nothing that the rules show. -/
theorem rules_expand_free (follows : env.opts.single = false) (stmts : List Stmt)
    (free : IncludeFree stmts) :
    rulesFromStmts (expand env load stmts) = rulesFromStmts stmts := by
  induction stmts using Stmt.forest_induction with
  | nil => rfl
  | cons stmt rest body tail =>
    obtain ⟨⟨other, inside⟩, later⟩ := includeFree_cons.mp free
    rw [expand, expandStmt_eq, if_neg (mt (isInclude_iff follows).mp other), List.singleton_append,
      rulesFromStmts, rulesFromStmts, tail later, ruleFromStmt_eq, ruleFromStmt_eq stmt]
    cases blocks : stmt.blocks with
    | none => rfl
    | some list =>
      rw [blocks] at inside
      simp only [Option.map_some, Option.getD_some, body list blocks inside]

/-- Expanding changes the rules exactly when there is an include to expand. -/
theorem rules_expand_iff (follows : env.opts.single = false) (stmts : List Stmt)
    (free : ∀ name, IncludeFree (load name)) :
    rulesFromStmts stmts = rulesFromStmts (expand env load stmts) ↔ IncludeFree stmts := by
  constructor
  · intro same
    have expanded := expand_free follows stmts fun name _ => free name
    rwa [IncludeFree, ← same] at expanded
  · exact fun inside => (rules_expand_free follows stmts inside).symm

theorem includes_unknown {name : Text} (unknown : name ∉ site.names) :
    site.includes opts name = [] := by
  have missing : site.entries.lookup name = none := by
    rw [Option.eq_none_iff_forall_ne_some]
    exact fun text found => unknown (List.mem_map.mpr ⟨_, entry_of_lookup found, rfl⟩)
  have empty : site.tokens name = [] := by simp only [Site.tokens, missing]
  rw [Site.includes, Site.alone, empty]
  rfl

section Acyclic

variable {rank : Text → Nat}
  (acyclic : ∀ name, ∀ found ∈ site.includes opts name, rank found < rank name)
include acyclic

theorem inlineTo_stable (quiet : QuietOpts opts) {depth depth' : Nat} {name : Text}
    (deep : rank name < depth) (deep' : rank name < depth') :
    inlineTo site opts depth name = inlineTo site opts depth' name := by
  induction depth generalizing depth' name with
  | zero => omega
  | succ depth ih =>
    obtain _ | depth' := depth'
    · omega
    · rw [inlineTo, inlineTo]
      refine expand_congr _ fun found mem => ?_
      rw [← includes_stmts quiet] at mem
      have lower := acyclic name found mem
      exact ih (by omega) (by omega)

theorem exists_inlining (quiet : QuietOpts opts) : ∃ whole, IsInlining site opts whole := by
  refine ⟨fun name => inlineTo site opts (rank name + 1) name, fun name => ?_⟩
  dsimp only
  rw [inlineTo]
  refine expand_congr _ fun found mem => ?_
  rw [← includes_stmts quiet] at mem
  exact inlineTo_stable acyclic quiet (acyclic name found mem) (Nat.lt_succ_self _)

theorem whole_free (quiet : QuietOpts opts) (follows : opts.single = false)
    (inlines : IsInlining site opts whole) (name : Text) : IncludeFree (whole name) := by
  induction size : rank name using Nat.strong_induction_on generalizing name with
  | _ size ih =>
    rw [inlines name]
    refine expand_free follows _ fun found mem => ?_
    rw [← includes_stmts quiet] at mem
    exact ih (rank found) (size ▸ acyclic name found mem) found rfl

end Acyclic

/-! ## Servers -/

theorem length_flatMap_le {α β : Type} {f g : α → List β} {list : List α}
    (shorter : ∀ a ∈ list, (f a).length ≤ (g a).length) :
    (list.flatMap f).length ≤ (list.flatMap g).length := by
  rw [List.length_flatMap, List.length_flatMap]
  exact List.sum_le_sum shorter

/-- Where no part of one list is longer than the same part of another, the lists are equal
part by part. -/
theorem flatMap_eq_flatMap_iff {α β : Type} {f g : α → List β} {list : List α}
    (shorter : ∀ a ∈ list, (f a).length ≤ (g a).length) :
    list.flatMap f = list.flatMap g ↔ ∀ a ∈ list, f a = g a := by
  induction list with
  | nil => simp
  | cons a list ih =>
    rw [List.forall_mem_cons] at shorter
    rw [List.flatMap_cons, List.flatMap_cons, List.forall_mem_cons, ← ih shorter.2]
    constructor
    · intro same
      have rest := length_flatMap_le shorter.2
      have total := congrArg List.length same
      rw [List.length_append, List.length_append] at total
      exact List.append_inj same (by have := shorter.1; omega)
    · rintro ⟨first, rest⟩
      rw [first, rest]

/-- The server a statement of an http block gives. -/
def picked (inner : Stmt) : List Rule :=
  if inner.directive = "server".toList then [ruleFromStmt inner] else []

theorem filter_servers (body : List Stmt) :
    (rulesFromStmts body).filter (·.name = "server".toList) = body.flatMap picked := by
  induction body with
  | nil => rfl
  | cons inner body ih =>
    rw [rulesFromStmts, List.flatMap_cons, ← ih, List.filter_cons, picked, ruleFromStmt_eq]
    by_cases server : inner.directive = "server".toList
    · simp only [server, decide_true, if_true, List.singleton_append]
    · simp only [server, decide_false, Bool.false_eq_true, if_false, List.nil_append]

theorem serversIn_rule (stmt : Stmt) : serversIn (ruleFromStmt stmt) =
    if stmt.directive = "http".toList then (stmt.blocks.getD []).flatMap picked else [] := by
  rw [serversIn, ruleFromStmt_eq, filter_servers]

theorem servers_core (stmts : List Stmt) :
    servers (core stmts) = stmts.flatMap fun stmt => serversIn (ruleFromStmt stmt) := by
  rw [servers, core, ruleFromStmt_eq, Option.getD_some, rulesFromStmts_eq_map, List.flatMap_map]

/-- A statement of an http block keeps the servers as they are when it is expanded: an include
there brings no server, and a server has no include below it. -/
def Kept (env : ParseEnv) (whole : Text → List Stmt) (inner : Stmt) : Prop :=
  if isInclude env inner.directive then
    ∀ found ∈ named env inner.directive inner.args, ∀ stmt ∈ whole found,
      stmt.directive ≠ "server".toList
  else inner.directive = "server".toList → IncludeFree (inner.blocks.getD [])

/-- The includes of a main file add nothing to a server and no server. -/
def Transparent (env : ParseEnv) (whole : Text → List Stmt) (main : List Stmt) : Prop :=
  ∀ stmt ∈ main,
    if isInclude env stmt.directive then
      ∀ found ∈ named env stmt.directive stmt.args, servers (core (whole found)) = []
    else stmt.directive = "http".toList → ∀ inner ∈ stmt.blocks.getD [], Kept env whole inner

/-- The servers of an expanded statement, if it is no include. -/
theorem serversIn_expanded (stmt : Stmt) :
    serversIn (ruleFromStmt { stmt with blocks := stmt.blocks.map (expand env whole) }) =
      if stmt.directive = "http".toList then
        (stmt.blocks.getD []).flatMap fun inner => (expandStmt env whole inner).flatMap picked
      else [] := by
  rw [serversIn_rule]
  cases stmt.blocks with
  | none => rfl
  | some body =>
    simp only [Option.map_some, Option.getD_some, expand_eq_flatMap, List.flatMap_assoc]

section Expanding

variable (follows : env.opts.single = false) (free : ∀ name, IncludeFree (whole name))
include follows

theorem include_ne {directive keyword : Text} (active : isInclude env directive = true)
    (other : keyword ≠ "include".toList) : directive ≠ keyword := by
  rw [(isInclude_iff follows).mp active]
  exact other.symm

theorem picked_shorter (inner : Stmt) :
    (picked inner).length ≤ ((expandStmt env whole inner).flatMap picked).length := by
  rw [expandStmt_eq]
  split
  · rename_i active
    rw [picked, if_neg (include_ne follows active (by decide))]
    exact Nat.zero_le _
  · simp only [List.flatMap_singleton, picked]
    split <;> simp

theorem serversIn_shorter (stmt : Stmt) : (serversIn (ruleFromStmt stmt)).length ≤
    ((expandStmt env whole stmt).flatMap fun stmt => serversIn (ruleFromStmt stmt)).length := by
  rw [expandStmt_eq]
  split
  · rename_i active
    rw [serversIn_rule, if_neg (include_ne follows active (by decide))]
    exact Nat.zero_le _
  · rw [List.flatMap_singleton, serversIn_expanded, serversIn_rule]
    split
    · exact length_flatMap_le fun inner _ => picked_shorter follows inner
    · exact Nat.le_refl _

include free

theorem picked_expand_iff (inner : Stmt) :
    picked inner = (expandStmt env whole inner).flatMap picked ↔ Kept env whole inner := by
  rw [expandStmt_eq, Kept]
  split
  · rename_i active
    rw [picked, if_neg (include_ne follows active (by decide)), eq_comm, List.flatMap_eq_nil_iff]
    simp only [List.mem_flatMap, forall_exists_index, and_imp, picked]
    constructor
    · intro none found mem stmt inWhole server
      have := none stmt found mem inWhole
      rw [if_pos server] at this
      cases this
    · intro none stmt found mem inWhole
      exact if_neg (none found mem stmt inWhole)
  · by_cases server : inner.directive = "server".toList
    · simp only [picked, if_pos server, List.flatMap_singleton, List.cons.injEq, and_true,
        ruleFromStmt_eq, Rule.mk.injEq, true_and, forall_prop_of_true server]
      cases inner.blocks with
      | none => exact iff_of_true rfl includeFree_nil
      | some body => exact rules_expand_iff follows body free
    · simp only [picked, if_neg server, List.flatMap_singleton, true_iff]
      exact fun same => absurd same server

/-- The servers of the main file and of its inlining agree exactly when the main file's includes
are transparent to them. -/
theorem servers_expand_iff (main : List Stmt) :
    servers (core main) = servers (core (expand env whole main)) ↔ Transparent env whole main := by
  rw [servers_core, servers_core, expand_eq_flatMap, List.flatMap_assoc,
    flatMap_eq_flatMap_iff fun stmt _ => serversIn_shorter follows stmt, Transparent]
  refine forall₂_congr fun stmt _ => ?_
  rw [expandStmt_eq]
  split
  · rename_i active
    rw [serversIn_rule, if_neg (include_ne follows active (by decide)), List.flatMap_assoc,
      eq_comm, List.flatMap_eq_nil_iff]
    simp only [servers_core]
  · rw [List.flatMap_singleton, serversIn_expanded, serversIn_rule]
    by_cases http : stmt.directive = "http".toList
    · rw [if_pos http, if_pos http,
        flatMap_eq_flatMap_iff fun inner _ => picked_shorter follows inner]
      simp only [picked_expand_iff follows free, http, forall_const]
    · rw [if_neg http, if_neg http]
      exact iff_of_true rfl fun same => absurd same http

end Expanding

theorem rules_bare (stmts : List Stmt) : rulesFromStmts (bare stmts) = rulesFromStmts stmts := by
  induction stmts using Stmt.forest_induction with
  | nil => rfl
  | cons stmt rest body tail =>
    rw [bare, rulesFromStmts, rulesFromStmts, tail, bareStmt_eq, ruleFromStmt_eq, ruleFromStmt_eq]
    cases blocks : stmt.blocks with
    | none => rfl
    | some list => simp only [Option.map_some, Option.getD_some, body list blocks]

theorem servers_bare (stmts : List Stmt) :
    servers (core (bare stmts)) = servers (core stmts) := by
  rw [servers, servers, core, core, ruleFromStmt_eq, ruleFromStmt_eq]
  simp only [Option.getD_some, rules_bare]

/-- For files whose includes are acyclic, and whatever the payload of a parse that returns: the
inlining of the files exists, and the servers taken from the first file are those of its
inlining exactly when the includes of the start file are transparent to them. -/
theorem serving_iff_transparent (site : Site) (table : Directives) (start : Text)
    (known : start ∈ site.names) (rank : Text → Nat)
    (acyclic : ∀ name ∈ site.names,
      ∀ found ∈ site.includes (optsFor defaultParseOpts start) name, rank found < rank name)
    (payload : Payload) (returns : ParseReturns site.system defaultParseOpts table start payload) :
    ∃ main, payload.config.head? = some (some main) ∧
      (∃ whole, IsInlining site (optsFor defaultParseOpts start) whole) ∧
      ∀ whole, IsInlining site (optsFor defaultParseOpts start) whole →
        (servers (core main.parsed) = servers (core (whole start)) ↔
          Transparent (site.system.env (optsFor defaultParseOpts start) start) whole
            (site.stmts (optsFor defaultParseOpts start) start)) := by
  have quiet : QuietOpts (optsFor defaultParseOpts start) := fun _ => rfl
  have acyclic : ∀ name, ∀ found ∈ site.includes (optsFor defaultParseOpts start) name,
      rank found < rank name := by
    intro name found mem
    by_cases inSite : name ∈ site.names
    · exact acyclic name inSite found mem
    · rw [includes_unknown inSite] at mem
      cases mem
  obtain ⟨main, first, same⟩ := first_parsed (fun _ => rfl) known returns
  refine ⟨main, first, exists_inlining acyclic quiet, fun whole inlines => ?_⟩
  have free := whole_free acyclic quiet rfl inlines
  rw [inlines start, ← servers_expand_iff rfl free, ← same, servers_bare]

private def quietSite : Site where
  sprintf format _ := format
  lexFuel := 100
  entries := [(['m'], "http\x7binclude s;\x7d\n".toList), (['s'], "a;\n".toList)]
  globMatch _ := .ok fun _ => false
  distinct := by decide
  lexes := lexes_of_all (by decide +kernel)

private def servingStmt (directive : Text) (args : List Text) (includes : List Nat)
    (blocks : Option (List Stmt)) : Stmt :=
  ⟨directive, [], 1, args, [], includes, blocks⟩

/-- The file `m` with `http{include s;}` and the file `s` with `a;`. -/
theorem serving_iff_transparent_sample : ∃ payload main whole,
    ParseReturns quietSite.system defaultParseOpts [] ['m'] payload ∧
    payload.config.head? = some (some main) ∧
    IsInlining quietSite (optsFor defaultParseOpts ['m']) whole ∧
    servers (core main.parsed) = servers (core (whole ['m'])) := by
  have returns : ParseReturns quietSite.system defaultParseOpts [] ['m'] ⟨⟨.ok, []⟩,
      [some ⟨['m'], ⟨.ok, []⟩, [servingStmt "http".toList [] []
        (some [servingStmt "include".toList [['s']] [1] none])]⟩,
      some ⟨['s'], ⟨.ok, []⟩, [servingStmt ['a'] [] [] none]⟩]⟩ := ⟨5, by decide +kernel⟩
  obtain ⟨main, first, ⟨whole, inlines⟩, agree⟩ := serving_iff_transparent quietSite [] ['m']
    (by decide) (fun name => if name = ['m'] then 1 else 0) (by decide +kernel) _ returns
  refine ⟨_, main, whole, returns, first, inlines, (agree whole inlines).mpr ?_⟩
  have stmts : quietSite.stmts (optsFor defaultParseOpts ['m']) ['m'] =
      [servingStmt "http".toList [] [] (some [servingStmt "include".toList [['s']] [] none])] := by
    decide +kernel
  have included : whole ['s'] = [servingStmt ['a'] [] [] none] := by
    have other : quietSite.stmts (optsFor defaultParseOpts ['m']) ['s'] =
        [servingStmt ['a'] [] [] none] := by
      decide +kernel
    rw [inlines ['s'], other]
    rfl
  have names : named (quietSite.system.env (optsFor defaultParseOpts ['m']) ['m'])
      "include".toList [['s']] = [['s']] := by
    decide +kernel
  rw [stmts, Transparent, List.forall_mem_singleton, if_neg (by decide)]
  intro _
  refine List.forall_mem_singleton.mpr ?_
  rw [Kept, if_pos (by decide)]
  simp only [servingStmt, names, List.forall_mem_singleton, included]
  decide

private def servingSite : Site where
  sprintf format _ := format
  lexFuel := 100
  entries := [(['m'], "http\x7binclude s;\x7d\n".toList), (['s'], "server\x7b\x7d\n".toList)]
  globMatch _ := .ok fun _ => false
  distinct := by decide
  lexes := lexes_of_all (by decide +kernel)

/-- The file `m` with `http{include s;}` and the file `s` with `server{}` parse without an
error. Served from the first file there is no server, inlined there is one. -/
theorem included_server_lost :
    let main : ParsingContext := ⟨['m'], ⟨.ok, []⟩,
      [servingStmt "http".toList [] [] (some [servingStmt "include".toList [['s']] [1] none])]⟩
    let other : ParsingContext := ⟨['s'], ⟨.ok, []⟩, [servingStmt "server".toList [] [] (some [])]⟩
    parse 5 servingSite.system defaultParseOpts directives ['m'] =
      some (.ok ⟨⟨.ok, []⟩, [some main, some other]⟩) ∧
    servers (core main.parsed) = [] ∧
    ∀ whole, IsInlining servingSite (optsFor defaultParseOpts ['m']) whole →
      servers (core (whole ['m'])) = [⟨"server".toList, [], []⟩] := by
  refine ⟨by decide +kernel, rfl, fun whole inlines => ?_⟩
  have first : servingSite.stmts (optsFor defaultParseOpts ['m']) ['m'] =
      [servingStmt "http".toList [] [] (some [servingStmt "include".toList [['s']] [] none])] := by
    decide +kernel
  have second : servingSite.stmts (optsFor defaultParseOpts ['m']) ['s'] =
      [servingStmt "server".toList [] [] (some [])] := by
    decide +kernel
  have included : whole ['s'] = [servingStmt "server".toList [] [] (some [])] := by
    rw [inlines ['s'], second]
    rfl
  have expanded : whole ['m'] =
      [servingStmt "http".toList [] [] (some ((whole ['s'] ++ []) ++ []))] := by
    rw [inlines ['m'], first]
    rfl
  rw [expanded, included]
  rfl

end IncludeServing
