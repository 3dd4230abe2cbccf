import Vince.IncludeServing
import Vince.PayloadIndices

/-!
# Combining the parsed files into one (`config_parse.go`)

With the option `combine`, `parse` ends by replacing include statements with the statements of
the entries their indices lead to. `performInclude` does so in place; no index occurs twice, so
that no statement is rewritten twice and the statements can be passed along by value. The jumps
from file to file are by fuel, which counts how deep they are nested.

The result is compared with the inlining of the files. It differs from that in two ways: an
include that named no file stays, and a block that comes out empty is dropped.
-/

namespace CombineIncludes

open GoText ConfigLex DirectiveTable ConfigAnalyze ConfigParse ParseReads LoadSafety Worklist
open ConfigInclude IncludeServing PayloadIndices StateTransition Relation

/-- The slice that `performInclude` returns: nil when nothing was appended to it. -/
def orNil (o : List Stmt) : Option (List Stmt) := if o.isEmpty then none else some o

mutual

def performStmt (jump : Nat → Except Fault (List Stmt)) : Stmt → Except Fault (List Stmt)
  | ⟨directive, filename, line, args, comment, includes, none⟩ =>
    if includes ≠ [] then do
      let files ← includes.mapM jump
      .ok files.flatten
    else .ok [⟨directive, filename, line, args, comment, includes, none⟩]
  | ⟨directive, filename, line, args, comment, includes, some body⟩ => do
    -- the block is rewritten even if it is thrown away afterwards
    let body ← performBlock jump body
    if includes ≠ [] then do
      let files ← includes.mapM jump
      .ok files.flatten
    else .ok [⟨directive, filename, line, args, comment, includes, orNil body⟩]
termination_by structural stmt => stmt

/-- The loop of `performInclude`, given what it returns for an index. -/
def performBlock (jump : Nat → Except Fault (List Stmt)) : List Stmt → Except Fault (List Stmt)
  | [] => .ok []
  | stmt :: rest => do
    let o ← performStmt jump stmt
    let later ← performBlock jump rest
    .ok (o ++ later)
termination_by structural stmts => stmts

end

def performInclude : Nat → List (Option ParsingContext) → List Stmt → Except Fault (List Stmt)
  | 0, _, _ => .error .outOfFuel
  | fuel + 1, config, block => performBlock (fun idx => match config[idx]? with
      | none => .error .indexOutOfRange
      | some none => .error .nilDereference
      | some (some parsing) => performInclude fuel config parsing.parsed) block

/-- An entry whose fields are read. -/
def deref : Option ParsingContext → Except Fault ParsingContext
  | none => .error .nilDereference
  | some parsing => .ok parsing

def combinedReport (contexts : List ParsingContext) : Report where
  status := if contexts.any (·.report.status = .failed) then .failed else .ok
  errors := contexts.flatMap (·.report.errors)

def combineParsedConfig (fuel : Nat) (p : Payload) : Except Fault Payload :=
  match p.config with
  | [] => .error .indexOutOfRange
  | first :: _ => do
    let main ← deref first
    let contexts ← p.config.mapM deref
    let parsed ← performInclude fuel p.config main.parsed
    .ok ⟨p.report, [some ⟨main.file, combinedReport contexts, parsed⟩]⟩

/-- `parse` to its end, with at most so many rounds, and jumps nested so deep. -/
def parseAll (rounds depth : Nat) (sys : System) (opts : ParseOpts) (table : Directives)
    (filename : Text) : Option (Except Fault Payload) :=
  match parse rounds sys opts table filename with
  | some (.ok payload) =>
    if opts.combine then some (combineParsedConfig depth payload) else some (.ok payload)
  | other => other

variable {env : ParseEnv} {jump : Nat → Except Fault (List Stmt)} {load : Text → List Stmt}
  {whole : Text → List Stmt} {stmt : Stmt} {stmts : List Stmt} {site : Site} {opts : ParseOpts}

/-! ## The same by names -/

mutual

/-- What `performInclude` makes of a statement, by the names of the files. -/
def mergeStmt (env : ParseEnv) (load : Text → List Stmt) : Stmt → List Stmt
  | ⟨directive, filename, line, args, comment, includes, none⟩ =>
    if named env directive args ≠ [] then (named env directive args).flatMap load
    else [⟨directive, filename, line, args, comment, includes, none⟩]
  | ⟨directive, filename, line, args, comment, includes, some body⟩ =>
    if named env directive args ≠ [] then (named env directive args).flatMap load
    else [⟨directive, filename, line, args, comment, includes, orNil (merge env load body)⟩]
termination_by structural stmt => stmt

def merge (env : ParseEnv) (load : Text → List Stmt) : List Stmt → List Stmt
  | [] => []
  | stmt :: rest => mergeStmt env load stmt ++ merge env load rest
termination_by structural stmts => stmts

end

theorem mergeStmt_eq (stmt : Stmt) : mergeStmt env load stmt =
    if named env stmt.directive stmt.args ≠ [] then
      (named env stmt.directive stmt.args).flatMap load
    else [{ stmt with blocks := stmt.blocks.bind fun body => orNil (merge env load body) }] := by
  rcases stmt with ⟨_, _, _, _, _, _, _ | body⟩ <;> simp only [mergeStmt, Option.bind]

/-- The jumps for consecutive indices load the names at their places. -/
def Loads (jump : Nat → Except Fault (List Stmt)) (load : Text → List Stmt) (k : Nat)
    (names : List Text) : Prop :=
  ∀ (i : Nat) (name : Text), names[i]? = some name → jump (k + i) = .ok (load name)

theorem Loads.left {k : Nat} {names later : List Text}
    (loads : Loads jump load k (names ++ later)) : Loads jump load k names := by
  intro i name found
  have bound := (List.getElem?_eq_some_iff.mp found).1
  exact loads i name ((List.getElem?_append_left bound).trans found)

theorem Loads.right {k : Nat} {names later : List Text}
    (loads : Loads jump load k (names ++ later)) : Loads jump load (k + names.length) later := by
  intro i name found
  rw [Nat.add_assoc]
  refine loads (names.length + i) name ?_
  rw [List.getElem?_append_right (Nat.le_add_right _ _), Nat.add_sub_cancel_left, found]

theorem mapM_of_loads {k : Nat} {names : List Text} (loads : Loads jump load k names) :
    (List.range' k names.length).mapM jump = .ok (names.map load) := by
  induction names generalizing k with
  | nil => rfl
  | cons name names ih =>
    have first : jump k = .ok (load name) := loads 0 name rfl
    have split : Loads jump load k ([name] ++ names) := loads
    have rest : Loads jump load (k + 1) names := split.right
    rw [List.length_cons, List.range'_succ, List.mapM_cons, first, ih rest]
    rfl

theorem performStmt_eq (stmt : Stmt) (blocks : Option (List Stmt))
    (rewritten : ∀ body, stmt.blocks = some body →
      ∃ o, performBlock jump body = .ok o ∧ blocks = orNil o)
    (plain : stmt.blocks = none → blocks = none) :
    performStmt jump stmt = if stmt.includes ≠ [] then
        (do let files ← stmt.includes.mapM jump
            .ok files.flatten)
      else .ok [{ stmt with blocks := blocks }] := by
  rcases stmt with ⟨directive, filename, line, args, comment, includes, _ | body⟩
  · rw [performStmt, plain rfl]
  · obtain ⟨o, run, rfl⟩ := rewritten body rfl
    rw [performStmt, run]
    rfl

theorem perform_numberStmt (stmt : Stmt) (k : Nat) (loads : Loads jump load k (stmtNames env stmt))
    (inner : ∀ body, stmt.blocks = some body → ∀ k, Loads jump load k (includeNames env body) →
      performBlock jump (number env k body) = .ok (merge env load (bare body))) :
    performStmt jump (numberStmt env k stmt) = .ok (mergeStmt env load (bareStmt stmt)) := by
  rw [stmtNames_eq] at loads
  have files := mapM_of_loads loads.left
  rw [numberStmt_eq, bareStmt_eq, mergeStmt_eq, performStmt_eq _
    (stmt.blocks.bind fun body => orNil (merge env load (bare body)))]
  · dsimp only
    by_cases empty : named env stmt.directive stmt.args = []
    · rw [if_neg (by simp [empty]), if_neg (by simp [empty]), empty]
      cases stmt.blocks <;> rfl
    · have some : List.range' k (named env stmt.directive stmt.args).length ≠ [] := by
        simpa using empty
      rw [if_pos some, if_pos empty, files, List.flatMap_def]
      rfl
  · intro body block
    obtain ⟨list, blocks, rfl⟩ := Option.map_eq_some_iff.mp block
    rw [blocks] at loads ⊢
    exact ⟨_, inner list blocks _ loads.right, rfl⟩
  · intro none
    rw [Option.map_eq_none_iff.mp none]
    rfl

theorem perform_number (stmts : List Stmt) (k : Nat)
    (loads : Loads jump load k (includeNames env stmts)) :
    performBlock jump (number env k stmts) = .ok (merge env load (bare stmts)) := by
  induction stmts using Stmt.forest_induction generalizing k with
  | nil => rfl
  | cons stmt rest body tail =>
    rw [includeNames] at loads
    have first := perform_numberStmt stmt k loads.left body
    rw [number, performBlock, first, tail _ loads.right, bare, merge]
    rfl

/-! ## Where it is the inlining -/

/-- The statement stands in the forest and not within the block of an include. -/
inductive Stands (env : ParseEnv) (stmt : Stmt) : List Stmt → Prop where
  | here {stmts : List Stmt} (mem : stmt ∈ stmts) : Stands env stmt stmts
  | inside {outer : Stmt} {stmts body : List Stmt} (mem : outer ∈ stmts)
      (plain : isInclude env outer.directive = false) (block : outer.blocks = some body)
      (deeper : Stands env stmt body) : Stands env stmt stmts

theorem stands_cons {first : Stmt} : Stands env stmt (first :: stmts) ↔ stmt = first ∨
    (isInclude env first.directive = false ∧
      ∃ body, first.blocks = some body ∧ Stands env stmt body) ∨ Stands env stmt stmts := by
  constructor
  · intro stands
    cases stands with
    | here mem =>
      rcases List.mem_cons.mp mem with same | mem
      · exact .inl same
      · exact .inr (.inr (.here mem))
    | inside mem plain block deeper =>
      rcases List.mem_cons.mp mem with rfl | mem
      · exact .inr (.inl ⟨plain, _, block, deeper⟩)
      · exact .inr (.inr (.inside mem plain block deeper))
  · rintro (rfl | ⟨plain, body, block, deeper⟩ | later)
    · exact .here List.mem_cons_self
    · exact .inside List.mem_cons_self plain block deeper
    · cases later with
      | here mem => exact .here (List.mem_cons_of_mem _ mem)
      | inside mem plain block deeper =>
        exact .inside (List.mem_cons_of_mem _ mem) plain block deeper

/-- An include names some file; the block of another statement does not come out empty. -/
def Fills (env : ParseEnv) (whole : Text → List Stmt) (stmt : Stmt) : Prop :=
  if isInclude env stmt.directive then named env stmt.directive stmt.args ≠ []
  else ∀ body, stmt.blocks = some body → expand env whole body ≠ []

theorem named_of_plain {directive : Text} (plain : ¬ isInclude env directive = true)
    (args : List Text) : named env directive args = [] := if_neg plain

theorem expandStmt_shorter (stmt : Stmt)
    (shorter : ∀ name ∈ named env stmt.directive stmt.args,
      (whole name).length ≤ (load name).length) :
    (expandStmt env whole stmt).length ≤ (mergeStmt env load stmt).length := by
  rw [expandStmt_eq, mergeStmt_eq]
  by_cases active : isInclude env stmt.directive = true
  · rw [if_pos active]
    by_cases empty : named env stmt.directive stmt.args = []
    · simp [empty]
    · rw [if_pos empty]
      exact length_flatMap_le shorter
  · rw [if_neg active, if_neg (by simp [named_of_plain active])]
    exact Nat.le_refl _

theorem expand_shorter (stmts : List Stmt)
    (shorter : ∀ name ∈ includeNames env stmts, (whole name).length ≤ (load name).length) :
    (expand env whole stmts).length ≤ (merge env load stmts).length := by
  induction stmts with
  | nil => exact Nat.le_refl _
  | cons stmt rest ih =>
    rw [includeNames, stmtNames_eq] at shorter
    have first := expandStmt_shorter stmt
      fun name mem => shorter name (List.mem_append_left _ (List.mem_append_left _ mem))
    have later := ih fun name mem => shorter name (List.mem_append_right _ mem)
    rw [expand, merge, List.length_append, List.length_append]
    omega

theorem append_eq_append_iff_of_le {α : Type} {a b c d : List α} (first : c.length ≤ a.length)
    (second : d.length ≤ b.length) : a ++ b = c ++ d ↔ a = c ∧ b = d := by
  constructor
  · intro same
    have total := congrArg List.length same
    rw [List.length_append, List.length_append] at total
    exact List.append_inj same (by omega)
  · rintro ⟨rfl, rfl⟩
    rfl

theorem orNil_eq_some {o body : List Stmt} : orNil o = some body ↔ o = body ∧ body ≠ [] := by
  cases o with
  | nil =>
    constructor
    · intro impossible
      cases impossible
    · rintro ⟨rfl, some⟩
      exact absurd rfl some
  | cons first rest =>
    constructor
    · intro same
      cases same
      exact ⟨rfl, List.cons_ne_nil _ _⟩
    · rintro ⟨rfl, -⟩
      rfl

theorem mergeStmt_eq_expandStmt_iff (stmt : Stmt)
    (shorter : ∀ name ∈ named env stmt.directive stmt.args,
      (whole name).length ≤ (load name).length) :
    mergeStmt env load stmt = expandStmt env whole stmt ↔
      (Fills env whole stmt ∧ ∀ name ∈ named env stmt.directive stmt.args, load name = whole name) ∧
        (isInclude env stmt.directive = false → ∀ body, stmt.blocks = some body →
          merge env load body = expand env whole body) := by
  rw [mergeStmt_eq, expandStmt_eq, Fills]
  by_cases active : isInclude env stmt.directive = true
  · rw [if_pos active, if_pos active]
    have skipped : (isInclude env stmt.directive = false → ∀ body, stmt.blocks = some body →
        merge env load body = expand env whole body) ↔ True := by simp [active]
    rw [skipped, and_true]
    by_cases empty : named env stmt.directive stmt.args = []
    · simp [empty]
    · rw [if_pos empty, eq_comm, flatMap_eq_flatMap_iff shorter]
      simp only [ne_eq, empty, not_false_eq_true, true_and]
      exact forall₂_congr fun name mem => eq_comm
  · have plain : isInclude env stmt.directive = false := by simpa using active
    rw [if_neg active, if_neg active, if_neg (by simp [named_of_plain active]),
      named_of_plain active]
    simp only [plain, true_imp_iff, List.not_mem_nil, false_imp_iff, implies_true, and_true]
    cases blocks : stmt.blocks with
    | none => simp
    | some list =>
      simp only [Option.bind_some, Option.map_some, List.cons.injEq, Stmt.mk.injEq, true_and,
        and_true, orNil_eq_some, Option.some.injEq, forall_eq']
      exact and_comm

theorem merge_eq_expand_iff (stmts : List Stmt)
    (shorter : ∀ name ∈ includeNames env stmts, (whole name).length ≤ (load name).length) :
    merge env load stmts = expand env whole stmts ↔
      ∀ stmt, Stands env stmt stmts → Fills env whole stmt ∧
        ∀ name ∈ named env stmt.directive stmt.args, load name = whole name := by
  induction stmts using Stmt.forest_induction with
  | nil =>
    refine iff_of_true rfl fun stmt stands => ?_
    cases stands with
    | here mem => cases mem
    | inside mem => cases mem
  | cons first rest body tail =>
    rw [includeNames, stmtNames_eq] at shorter
    have own : ∀ name ∈ named env first.directive first.args,
        (whole name).length ≤ (load name).length :=
      fun name mem => shorter name (List.mem_append_left _ (List.mem_append_left _ mem))
    have later : ∀ name ∈ includeNames env rest, (whole name).length ≤ (load name).length :=
      fun name mem => shorter name (List.mem_append_right _ mem)
    have inner : ∀ list, first.blocks = some list →
        ∀ name ∈ includeNames env list, (whole name).length ≤ (load name).length := by
      intro list blocks name mem
      refine shorter name (List.mem_append_left _ (List.mem_append_right _ ?_))
      rw [blocks]
      exact mem
    rw [merge, expand, append_eq_append_iff_of_le (expandStmt_shorter first own)
      (expand_shorter rest later), mergeStmt_eq_expandStmt_iff first own, tail later]
    constructor
    · rintro ⟨⟨here, within⟩, others⟩ stmt stands
      rcases stands_cons.mp stands with rfl | ⟨plain, list, block, deeper⟩ | stands
      · exact here
      · exact (body list block (inner list block)).mp (within plain list block) stmt deeper
      · exact others stmt stands
    · intro all
      refine ⟨⟨all first (stands_cons.mpr (.inl rfl)), fun plain list block => ?_⟩,
        fun stmt stands => all stmt (stands_cons.mpr (.inr (.inr stands)))⟩
      refine (body list block (inner list block)).mpr fun stmt deeper => ?_
      exact all stmt (stands_cons.mpr (.inr (.inl ⟨plain, list, block, deeper⟩)))

/-! ## Whole files -/

/-- The files combined, up to a depth of includes. -/
def mergeTo (site : Site) (opts : ParseOpts) : Nat → Text → List Stmt
  | 0, _ => []
  | depth + 1, name =>
    merge (site.system.env opts name) (mergeTo site opts depth) (site.stmts opts name)

/-- An include that stands in one file names the other. -/
def Brings (site : Site) (opts : ParseOpts) (name found : Text) : Prop :=
  ∃ stmt, Stands (site.system.env opts name) stmt (site.stmts opts name) ∧
    found ∈ named (site.system.env opts name) stmt.directive stmt.args

/-- In the start file and all that it brings in, every include names some file and no other block
comes out empty. -/
def Filled (site : Site) (opts : ParseOpts) (whole : Text → List Stmt) (start : Text) : Prop :=
  ∀ name, ReflTransGen (Brings site opts) start name →
    ∀ stmt, Stands (site.system.env opts name) stmt (site.stmts opts name) →
      Fills (site.system.env opts name) whole stmt

theorem mem_includeNames {name : Text} (mem : stmt ∈ stmts)
    (named : name ∈ stmtNames env stmt) : name ∈ includeNames env stmts := by
  induction stmts with
  | nil => cases mem
  | cons first rest ih =>
    rw [includeNames]
    rcases List.mem_cons.mp mem with rfl | later
    · exact List.mem_append_left _ named
    · exact List.mem_append_right _ (ih later)

theorem Stands.names {name : Text} (stands : Stands env stmt stmts)
    (named : name ∈ named env stmt.directive stmt.args) : name ∈ includeNames env stmts := by
  induction stands with
  | here mem =>
    refine mem_includeNames mem ?_
    rw [stmtNames_eq]
    exact List.mem_append_left _ named
  | inside mem plain block deeper ih =>
    refine mem_includeNames mem ?_
    rw [stmtNames_eq, block]
    exact List.mem_append_right _ ih

section Acyclic

variable {rank : Text → Nat}
  (acyclic : ∀ name, ∀ found ∈ site.includes opts name, rank found < rank name)
include acyclic

theorem mergeTo_longer (quiet : QuietOpts opts) (inlines : IsInlining site opts whole)
    {depth : Nat} {name : Text} (deep : rank name < depth) :
    (whole name).length ≤ (mergeTo site opts depth name).length := by
  induction depth generalizing name with
  | zero => omega
  | succ depth ih =>
    rw [inlines name, mergeTo]
    refine expand_shorter _ fun found mem => ?_
    rw [← includes_stmts quiet] at mem
    have lower := acyclic name found mem
    exact ih (by omega)

theorem mergeTo_eq_iff (quiet : QuietOpts opts) (inlines : IsInlining site opts whole)
    {depth : Nat} {name : Text} (deep : rank name < depth) :
    mergeTo site opts depth name = whole name ↔ Filled site opts whole name := by
  induction depth generalizing name with
  | zero => omega
  | succ depth ih =>
    have lower : ∀ found ∈ includeNames (site.system.env opts name) (site.stmts opts name),
        rank found < depth := by
      intro found mem
      rw [← includes_stmts quiet] at mem
      have := acyclic name found mem
      omega
    rw [inlines name, mergeTo, merge_eq_expand_iff _
      fun found mem => mergeTo_longer acyclic quiet inlines (lower found mem)]
    constructor
    · intro all file path stmt stands
      rcases ReflTransGen.cases_head path with rfl | ⟨found, ⟨outer, standsOuter, mem⟩, path⟩
      · exact (all stmt stands).1
      · have below := lower found (standsOuter.names mem)
        exact (ih below).mp ((all outer standsOuter).2 found mem) file path stmt stands
    · intro filled stmt stands
      refine ⟨filled name .refl stmt stands, fun found mem => ?_⟩
      refine (ih (lower found (stands.names mem))).mpr fun file path => ?_
      exact filled file (.head ⟨stmt, stands, mem⟩ path)

end Acyclic

/-! ## A work list that has come to its end -/

/-- The work list is that of a site, from the start file on, with an entry for each name. -/
structure Settled (site : Site) (opts : ParseOpts) (start : Text) (loop : Loop) : Prop where
  consistent : Consistent site.system opts loop
  length_eq : loop.config.length = (Shared.names loop.shared).length
  known : ∀ name ∈ Shared.names loop.shared, name ∈ site.names
  first : (Shared.names loop.shared)[0]? = some start

theorem settled_of_ends (quiet : QuietOpts opts) {table : Directives} {start : Text} {loop : Loop}
    (known : start ∈ site.names) (ends : Ends site.system opts table start loop) :
    Settled site (optsFor opts start) start loop := by
  obtain ⟨path, ended⟩ := ends
  have quiet' : QuietOpts (optsFor opts start) := quiet
  have consistent := consistent_run quiet' path (consistent_start table start)
  obtain ⟨queue, follows, walks, -⟩ :=
    drain_of_loop quiet' path ended _ _ rfl (follows_start table known) (by simp)
  have names : Shared.names loop.shared = queue := follows.names_eq.trans (List.append_nil _)
  have drains : Drains (site.includes (optsFor opts start)) start queue := walks
  have queue_eq : queue ++ [] = start :: queue.flatMap _ :=
    (inv_reaches inv_start drains).queue_eq
  have past := List.getElem?_eq_none_iff.mp ended
  have bounded := consistent.bounded
  rw [consistent.idx_eq, ← length_names] at past
  refine ⟨consistent, by omega, fun name mem => ?_, ?_⟩
  · rw [names] at mem
    cases drains.mem_iff.mp mem with
    | refl => exact known
    | tail _ edge => exact includes_known quiet' _ _ edge
  · rw [names]
    rw [List.append_nil] at queue_eq
    rw [queue_eq]
    rfl

variable {start : Text} {loop : Loop}

theorem readable_of_known {name : Text} (known : name ∈ site.names) :
    ¬ Unreadable site.system name := by
  obtain ⟨text, opens, lexed⟩ := opens_of_known known
  exact readable_of_lexed opens lexed

theorem Settled.entry (settled : Settled site opts start loop) {i : Nat} {name : Text}
    (found : (Shared.names loop.shared)[i]? = some name) :
    ∃ parsing, loop.config[i]? = some (some parsing) ∧ parsing.file = name := by
  have bound := (List.getElem?_eq_some_iff.mp found).1
  rw [← settled.length_eq] at bound
  have here := List.getElem?_eq_getElem bound
  obtain ⟨name', found', holds⟩ := settled.consistent.entries i _ here
  rw [found] at found'
  cases found'
  cases entry : loop.config[i] with
  | none =>
    rw [entry] at holds
    exact absurd holds (readable_of_known (settled.known name (List.mem_of_getElem? found)))
  | some parsing =>
    rw [entry] at holds here
    exact ⟨parsing, here, holds.2⟩

theorem ReadsFile.stmts_eq (quiet : QuietOpts opts) {name : Text}
    (reads : ReadsFile site.system opts name stmts) : site.stmts opts name = stmts := by
  obtain ⟨text, tokens, rest, opens, lexed, reads⟩ := reads
  obtain ⟨text', found⟩ := lookup_of_mem (openFile_known opens)
  have opens' : site.system.fs.openFile name = .ok text' := by
    simp only [Site.system, Site.fs, found]
  rw [opens] at opens'
  cases opens'
  have lexed' : lex site.system.lexFuel text name = _ := lex_tokens found
  rw [lexed] at lexed'
  cases lexed'
  exact (alone_of_reads quiet reads).2

/-- What `performInclude` returns for an entry. -/
theorem Settled.perform (settled : Settled site opts start loop) (quiet : QuietOpts opts)
    {rank : Text → Nat} (acyclic : ∀ name, ∀ found ∈ site.includes opts name,
      rank found < rank name) {depth : Nat} {parsing : ParsingContext}
    (mem : some parsing ∈ loop.config) (deep : rank parsing.file < depth) :
    performInclude depth loop.config parsing.parsed =
      .ok (mergeTo site opts depth parsing.file) := by
  induction depth generalizing parsing with
  | zero => omega
  | succ depth ih =>
    obtain ⟨before, stmts, after, reads, names, same⟩ := settled.consistent.numbered parsing mem
    have own : site.stmts opts parsing.file = stmts := ReadsFile.stmts_eq quiet reads
    have plain : bare stmts = stmts := by
      obtain ⟨_, _, _, -, -, reads⟩ := reads
      exact reads.bare_eq
    rw [performInclude, mergeTo, own, same, perform_number, plain]
    intro i name found
    have place : (Shared.names loop.shared)[before.length + i]? = some name := by
      rw [names, List.append_assoc, List.getElem?_append_right (Nat.le_add_right _ _),
        Nat.add_sub_cancel_left]
      exact (List.getElem?_append_left (List.getElem?_eq_some_iff.mp found).1).trans found
    obtain ⟨target, entry, rfl⟩ := settled.entry place
    have lower := acyclic parsing.file target.file (by
      rw [includes_stmts quiet, own]
      exact List.mem_of_getElem? found)
    simp only [entry]
    exact ih (List.mem_of_getElem? entry) (by omega)

theorem mapM_deref {config : List (Option ParsingContext)}
    (present : ∀ entry ∈ config, ∃ parsing, entry = some parsing) :
    ∃ contexts, config.mapM deref = .ok contexts := by
  induction config with
  | nil => exact ⟨[], rfl⟩
  | cons entry config ih =>
    rw [List.forall_mem_cons] at present
    obtain ⟨parsing, rfl⟩ := present.1
    obtain ⟨contexts, run⟩ := ih present.2
    refine ⟨parsing :: contexts, ?_⟩
    rw [List.mapM_cons, run]
    rfl

theorem Settled.combine (settled : Settled site opts start loop) (quiet : QuietOpts opts)
    {rank : Text → Nat} (acyclic : ∀ name, ∀ found ∈ site.includes opts name,
      rank found < rank name) {depth : Nat} (deep : rank start < depth) (report : Report) :
    ∃ main, combineParsedConfig depth ⟨report, loop.config⟩ = .ok ⟨report, [some main]⟩ ∧
      main.parsed = mergeTo site opts depth start := by
  obtain ⟨main, entry, file⟩ := settled.entry settled.first
  have performed := settled.perform quiet acyclic (List.mem_of_getElem? entry) (file ▸ deep)
  have present : ∀ entry ∈ loop.config, ∃ parsing, entry = some parsing := by
    intro entry mem
    obtain ⟨i, bound, rfl⟩ := List.getElem_of_mem mem
    have inside : i < (Shared.names loop.shared).length := settled.length_eq ▸ bound
    obtain ⟨parsing, found, -⟩ := settled.entry (List.getElem?_eq_getElem inside)
    rw [List.getElem?_eq_getElem bound] at found
    exact ⟨parsing, Option.some.inj found⟩
  obtain ⟨contexts, run⟩ := mapM_deref present
  refine ⟨⟨main.file, combinedReport contexts, mergeTo site opts depth main.file⟩, ?_,
    by rw [file]⟩
  cases shape : loop.config with
  | nil =>
    rw [shape] at entry
    cases entry
  | cons first rest =>
    rw [shape] at entry performed run
    cases entry
    simp only [combineParsedConfig, deref, run, performed, bind, Except.bind]

/-- With `combine` on, `parse` returns one entry for every acyclic set of files; its statements
are the inlining exactly when every include brought in names some file and no block of another
statement comes out empty. -/
theorem combine_inlines_iff (site : Site) (opts : ParseOpts) (quiet : QuietOpts opts)
    (combining : opts.combine = true) (table : Directives) (start : Text)
    (known : start ∈ site.names) (rank : Text → Nat)
    (acyclic : ∀ name, ∀ found ∈ site.includes (optsFor opts start) name, rank found < rank name)
    (safe : ∀ name, Reachable (site.includes (optsFor opts start)) start name →
      site.Safe (optsFor opts start) name) :
    (∃ whole, IsInlining site (optsFor opts start) whole) ∧
      ∃ rounds depth payload main,
        parseAll rounds depth site.system opts table start = some (.ok payload) ∧
        payload.config = [some main] ∧
        ∀ whole, IsInlining site (optsFor opts start) whole →
          (main.parsed = whole start ↔ Filled site (optsFor opts start) whole start) := by
  have quiet' : QuietOpts (optsFor opts start) := quiet
  refine ⟨exists_inlining acyclic quiet', ?_⟩
  obtain ⟨queue, drains⟩ := drains_of_rank acyclic start
  obtain ⟨payload, returns, -⟩ := (parse_drains_iff table quiet known).mpr
    ⟨drains, fun name mem => safe name (drains.mem_iff.mp mem)⟩
  obtain ⟨rounds, run⟩ := returns
  obtain ⟨loop, ends, rfl⟩ := parseReturns_iff_ends.mp ⟨rounds, run⟩
  have deep := Nat.lt_succ_self (rank start)
  obtain ⟨main, combined, parsed⟩ := (settled_of_ends quiet known ends).combine quiet' acyclic deep
    (Loop.payload loop).report
  refine ⟨rounds, rank start + 1, ⟨(Loop.payload loop).report, [some main]⟩, main, ?_, rfl,
    fun whole inlines => ?_⟩
  · simp only [parseAll, run, combining, if_true]
    exact congrArg some combined
  · rw [parsed]
    exact mergeTo_eq_iff acyclic quiet' inlines deep

private def combineOpts : ParseOpts := { defaultParseOpts with combine := true }

theorem combine_inlines_sample :
    ∃ rounds depth payload main,
      parseAll rounds depth treeSite.system combineOpts directives ['m'] = some (.ok payload) ∧
      payload.config = [some main] ∧
      ∀ whole, IsInlining treeSite (optsFor combineOpts ['m']) whole →
        (main.parsed = whole ['m'] ↔ Filled treeSite (optsFor combineOpts ['m']) whole ['m']) := by
  have first : treeSite.includes (optsFor combineOpts ['m']) ['m'] = [['b']] := by
    decide +kernel
  have others : ∀ name, name ≠ ['m'] → treeSite.includes (optsFor combineOpts ['m']) name = [] := by
    intro name other
    by_cases known : name ∈ treeSite.names
    · have same : name = ['b'] := by
        rcases List.mem_cons.mp known with same | known
        · exact absurd same other
        · exact List.mem_singleton.mp known
      rw [same]
      decide +kernel
    · exact includes_unknown known
  have safe : ∀ name ∈ treeSite.names, treeSite.Safe (optsFor combineOpts ['m']) name := by
    simp only [treeSite, Site.names, List.map_cons, List.map_nil, List.forall_mem_cons]
    unfold Site.Safe
    decide +kernel
  refine (combine_inlines_iff treeSite combineOpts (fun _ => rfl) rfl directives ['m'] (by decide)
    (fun name => if name = ['m'] then 1 else 0) ?_ ?_).2
  · intro name found mem
    by_cases main : name = ['m']
    · subst main
      rw [first, List.mem_singleton] at mem
      subst mem
      decide
    · rw [others name main] at mem
      cases mem
  · intro name path
    cases path with
    | refl => exact safe _ (by decide)
    | tail _ edge => exact safe _ (includes_known (fun _ => rfl) _ _ edge)

private def emptySite : Site where
  sprintf format _ := format
  lexFuel := 100
  entries := [(['m'], "events\x7b\x7d\n".toList)]
  globMatch _ := .ok fun _ => false
  distinct := by decide
  lexes := lexes_of_all (by decide +kernel)

private def eventsStmt (blocks : Option (List Stmt)) : Stmt :=
  ⟨"events".toList, ['m'], 1, [], [], [], blocks⟩

/-- One file with an empty block: once combined the statement has no block. -/
theorem empty_block_lost :
    parseAll 2 2 emptySite.system combineOpts directives ['m'] =
        some (.ok ⟨⟨.ok, []⟩, [some ⟨['m'], ⟨.ok, []⟩, [eventsStmt none]⟩]⟩) ∧
      ∀ whole, IsInlining emptySite (optsFor combineOpts ['m']) whole →
        whole ['m'] = [eventsStmt (some [])] := by
  refine ⟨by decide +kernel, fun whole inlines => ?_⟩
  have stmts : emptySite.stmts (optsFor combineOpts ['m']) ['m'] = [eventsStmt (some [])] := by
    decide +kernel
  rw [inlines ['m'], stmts]
  rfl

end CombineIncludes
