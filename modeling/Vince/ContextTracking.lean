import Vince.AnalyzeCalls
import Vince.CombineIncludes

/-!
# The contexts in which statements are analyzed

`parseInternal` hands its context on from block to block by `enterBlock`, and through the work list
from an include statement to the files it names. The context of a call of `analyze` is `contextOf`
the directives around the statement, across files: this is shown for the calls of a run, then along
the loop over the files, and for the tree that combining makes of them.

The block of an ignored directive is to be consumed, but of `consume` only the branch for a nested
`{` is skipped: the `continue` stands inside that test. So the statements of such a block are
analyzed, and its includes are followed. A file that is included there has no include statement in
the trees, and its context starts inside the block.
-/

namespace ContextTracking

open GoText ConfigLex DirectiveTable ConfigAnalyze ArgumentChecks ConfigParse ParseReads
  AnalyzeCalls ConfigInclude PayloadIndices CombineIncludes
open StateTransition Relation
open Effects (bind_eq_ok)

/-! ## The context of a path -/

/-- What follows the last occurrence of a directive, with the directive. -/
def fromLast (directive : Text) (path : List Text) : List Text :=
  directive :: (path.reverse.takeWhile (· ≠ directive)).reverse

/-- The whole path, but for what stands between a leading `http` and the last `location`. -/
def contextOf : List Text → List Text
  | [] => []
  | first :: rest =>
    if first = "http".toList ∧ "location".toList ∈ rest then
      first :: fromLast "location".toList rest
    else first :: rest

theorem head_contextOf (path : List Text) : (contextOf path).head? = path.head? := by
  cases path with
  | nil => rfl
  | cons first rest =>
    rw [contextOf]
    split <;> rfl

theorem fromLast_same (directive : Text) (path : List Text) :
    fromLast directive (path ++ [directive]) = [directive] := by
  simp [fromLast]

theorem fromLast_other {directive other : Text} (differ : other ≠ directive) (path : List Text) :
    fromLast directive (path ++ [other]) = fromLast directive path ++ [other] := by
  simp [fromLast, differ]

/-- One block further in. -/
theorem contextOf_concat (path : List Text) (directive : Text) :
    contextOf (path ++ [directive]) = enterBlock directive (contextOf path) := by
  rw [enterBlock, head_contextOf]
  cases path with
  | nil =>
    rw [if_neg (fun both => nomatch both.1)]
    exact if_neg fun both => List.not_mem_nil both.2
  | cons first rest =>
    rw [List.cons_append, contextOf, contextOf]
    by_cases location : directive = "location".toList
    · have found : "location".toList ∈ rest ++ [directive] := by
        rw [location]
        exact List.mem_append_right _ (List.mem_singleton_self _)
      by_cases http : first = "http".toList
      · have enters : (first :: rest).head? = some "http".toList ∧
            directive = "location".toList := ⟨by rw [http]; rfl, location⟩
        rw [if_pos enters, if_pos ⟨http, found⟩, http, location, fromLast_same]
      · have apart : ¬ ((first :: rest).head? = some "http".toList ∧
            directive = "location".toList) := fun both => http (Option.some.inj both.1)
        rw [if_neg apart, if_neg (fun both => http both.1), if_neg (fun both => http both.1),
          List.cons_append]
    · have apart : ¬ ((first :: rest).head? = some "http".toList ∧
          directive = "location".toList) := fun both => location both.2
      have same : "location".toList ∈ rest ++ [directive] ↔ "location".toList ∈ rest := by
        rw [List.mem_append, List.mem_singleton]
        exact ⟨fun either => either.resolve_right fun last => location last.symm, .inl⟩
      rw [if_neg apart]
      by_cases drops : first = "http".toList ∧ "location".toList ∈ rest
      · rw [if_pos drops, if_pos ⟨drops.1, same.mpr drops.2⟩, fromLast_other location,
          List.cons_append]
      · rw [if_neg drops, if_neg fun both => drops ⟨both.1, same.mp both.2⟩, List.cons_append]

example : contextOf ["http".toList, "server".toList, "location".toList, "location".toList,
    "if".toList] = ["http".toList, "location".toList, "if".toList] := by decide

variable {env : ParseEnv} {ctx path : List Text} {consume : Bool} {tokens rest : List Token}
  {st st' : Shared} {log : List Call} {parsed stmts : List Stmt}

/-! ## Statements under their blocks -/

/-- The statement stands in the forest under blocks of these directives, from the outside. -/
inductive Under (stmt : Stmt) : List Text → List Stmt → Prop
  | here {stmts : List Stmt} (mem : stmt ∈ stmts) : Under stmt [] stmts
  | inside {outer : Stmt} {stmts body : List Stmt} {path : List Text} (mem : outer ∈ stmts)
      (block : outer.blocks = some body) (deeper : Under stmt path body) :
      Under stmt (outer.directive :: path) stmts

theorem not_under_nil {stmt : Stmt} : ¬ Under stmt path [] := by
  intro under
  cases under with
  | here mem => cases mem
  | inside mem => cases mem

theorem under_cons {stmt first : Stmt} (under : Under stmt path (first :: stmts)) :
    (stmt = first ∧ path = []) ∨ (∃ body inner, first.blocks = some body ∧
      path = first.directive :: inner ∧ Under stmt inner body) ∨ Under stmt path stmts := by
  cases under with
  | here mem =>
    rcases List.mem_cons.mp mem with same | mem
    · exact .inl ⟨same, rfl⟩
    · exact .inr (.inr (.here mem))
  | inside mem block deeper =>
    rcases List.mem_cons.mp mem with rfl | mem
    · exact .inr (.inl ⟨_, _, block, rfl, deeper⟩)
    · exact .inr (.inr (.inside mem block deeper))

theorem Under.later {stmt first : Stmt} (under : Under stmt path stmts) :
    Under stmt path (first :: stmts) := by
  cases under with
  | here mem => exact .here (List.mem_cons_of_mem _ mem)
  | inside mem block deeper => exact .inside (List.mem_cons_of_mem _ mem) block deeper

theorem under_of_mem_indices {i : Nat} (stmts : List Stmt) (mem : i ∈ indices stmts) :
    ∃ stmt path, Under stmt path stmts ∧ i ∈ stmt.includes := by
  induction stmts using Stmt.forest_induction with
  | nil => cases mem
  | cons first rest body tail =>
    rw [indices, stmtIndices_eq, List.mem_append, List.mem_append] at mem
    rcases mem with (own | inner) | later
    · exact ⟨first, [], .here List.mem_cons_self, own⟩
    · cases block : first.blocks with
      | none => simp [block] at inner
      | some list =>
        rw [block] at inner
        obtain ⟨stmt, path, under, found⟩ := body list block inner
        exact ⟨stmt, _, .inside List.mem_cons_self block under, found⟩
    · obtain ⟨stmt, path, under, found⟩ := tail later
      exact ⟨stmt, path, under.later, found⟩

/-- Every index in the forest leads to an element with the context of its statement, where the
forest itself stands under `path`. -/
def Brings (includes : List FileCtx) (path : List Text) (stmts : List Stmt) : Prop :=
  ∀ (stmt : Stmt) (inner : List Text), Under stmt inner stmts → ∀ i ∈ stmt.includes,
    includes[i]?.map (·.ctx) = some (contextOf (path ++ inner))

section Brings

variable {includes later : List FileCtx} {stmt : Stmt}

theorem brings_nil : Brings includes path [] :=
  fun _ _ under => (not_under_nil under).elim

theorem brings_cons
    (own : ∀ i ∈ stmt.includes, includes[i]?.map (·.ctx) = some (contextOf path))
    (inner : ∀ body, stmt.blocks = some body → Brings includes (path ++ [stmt.directive]) body)
    (tail : Brings includes path stmts) : Brings includes path (stmt :: stmts) := by
  intro found place under i mem
  rcases under_cons under with ⟨rfl, rfl⟩ | ⟨body, deeper, block, rfl, within⟩ | later
  · rw [List.append_nil]
    exact own i mem
  · rw [List.append_cons]
    exact inner body block found deeper within i mem
  · exact tail found place later i mem

theorem brings_comments (line : Nat) (comments : List Text)
    (tail : Brings includes path stmts) :
    Brings includes path (comments.map (argComment line) ++ stmts) := by
  induction comments with
  | nil => exact tail
  | cons comment comments ih =>
    exact brings_cons (fun i mem => absurd mem List.not_mem_nil) (fun _ none => nomatch none) ih

theorem getElem?_grown {i : Nat} {ctx : List Text} (grown : includes <+: later)
    (found : includes[i]?.map (·.ctx) = some ctx) : later[i]?.map (·.ctx) = some ctx := by
  obtain ⟨more, rfl⟩ := grown
  obtain ⟨f, place, -⟩ := Option.map_eq_some_iff.mp found
  rw [List.getElem?_append_left (List.getElem?_eq_some_iff.mp place).1, found]

theorem Brings.grow (grown : includes <+: later) (brings : Brings includes path stmts) :
    Brings later path stmts :=
  fun stmt inner under i mem => getElem?_grown grown (brings stmt inner under i mem)

end Brings

/-! ## What is passed to `analyze` -/

/-- The statement as it was before its includes and its block were read. -/
def asAnalyzed (stmt : Stmt) : Stmt := { stmt with includes := [], blocks := none }

/-- A comment, or what looks like one. -/
def IsNote (stmt : Stmt) : Prop :=
  stmt.directive = ['#'] ∧ stmt.args = [] ∧ stmt.includes = [] ∧ stmt.blocks = none

/-- The calls are those for a forest that stands under `path`, each statement before its block,
and comments left out. Where a directive is ignored there are others in between. -/
inductive Passed (env : ParseEnv) : List Text → List Stmt → List Call → Prop
  | done {path : List Text} : Passed env path [] []
  | note {path : List Text} {stmt : Stmt} {stmts : List Stmt} {log : List Call}
      (note : IsNote stmt) (tail : Passed env path stmts log) :
      Passed env path (stmt :: stmts) log
  | statement {path : List Text} {stmt : Stmt} {stmts : List Stmt} {term : Text}
      {inner log : List Call}
      (within : Passed env (path ++ [stmt.directive]) (stmt.blocks.getD []) inner)
      (tail : Passed env path stmts log) :
      Passed env path (stmt :: stmts)
        (⟨env.file, asAnalyzed stmt, term, contextOf path, env.opts.checks⟩ :: (inner ++ log))
  | ignored {path : List Text} {directive : Text} {stmts : List Stmt} {dropped log : List Call}
      (ignored : env.ignored directive = true) (tail : Passed env path stmts log) :
      Passed env path stmts (dropped ++ log)

theorem passed_comments (line : Nat) (comments : List Text) (tail : Passed env path stmts log) :
    Passed env path (comments.map (argComment line) ++ stmts) log := by
  induction comments with
  | nil => exact tail
  | cons comment comments ih => exact .note ⟨rfl, rfl, rfl, rfl⟩ ih

/-- A run in the context of a path passes the statements it returns, and the files they bring in
get the contexts of their places. -/
theorem passes_of_runs (runs : Runs env ctx consume tokens st log parsed rest st') :
    consume = false → ∀ path, ctx = contextOf path →
      Passed env path parsed log ∧ Brings st'.includes path parsed := by
  induction runs with
  | done => exact fun _ path _ => ⟨.done, brings_nil⟩
  | close => exact fun _ path _ => ⟨.done, brings_nil⟩
  | braces => exact fun impossible => nomatch impossible
  | comment found tail ih =>
    intro plain path same
    obtain ⟨passed, brings⟩ := ih plain path same
    split
    · exact ⟨.note ⟨rfl, rfl, rfl, rfl⟩ passed, brings_cons
        (fun i mem => absurd mem List.not_mem_nil) (fun _ none => nomatch none) brings⟩
    · exact ⟨passed, brings⟩
  | ignoredBlock starts plain arguments ignored opened within tail _ ih =>
    intro plain path same
    obtain ⟨passed, brings⟩ := ih plain path same
    exact ⟨.ignored ignored passed, brings⟩
  | ignored starts plain arguments ignored ended tail ih => exact ih
  | @simple _ _ token term _ _ _ _ _ _ later args comments indices _ starts plain arguments kept
      included ended tail ih =>
    intro plain path same
    obtain ⟨passed, brings⟩ := ih plain path same
    obtain ⟨-, brought, -⟩ := queues_checked included
    subst same
    have first : Passed env path ({ newStmt env token args with includes := indices } :: _)
        (callOf env (contextOf path) (newStmt env token args) term :: ([] ++ later)) :=
      .statement .done (passed_comments token.line comments passed)
    refine ⟨first,
      brings_cons (fun i mem => ?_) (fun _ none => nomatch none) (brings_comments _ _ brings)⟩
    exact getElem?_grown tail.grown (brought i mem)
  | @block _ _ token _ _ _ _ _ _ _ _ _ _ _ args _ _ body _ starts plain arguments kept included
      opened within tail ihWithin ihTail =>
    intro plain path same
    obtain ⟨passed, brings⟩ := ihTail plain path same
    obtain ⟨-, brought, -⟩ := queues_checked included
    obtain ⟨passedIn, bringsIn⟩ := ihWithin rfl (path ++ [token.text])
      (by rw [same, contextOf_concat])
    subst same
    refine ⟨.statement passedIn (passed_comments _ _ passed),
      brings_cons (fun i mem => ?_) (fun list block => ?_) (brings_comments _ _ brings)⟩
    · exact getElem?_grown (within.grown.trans tail.grown) (brought i mem)
    · cases block
      exact bringsIn.grow tail.grown

/-- Every statement in the forest that is no comment has its call. -/
theorem Passed.call_of_under {stmt : Stmt} {inner : List Text} (passed : Passed env path stmts log)
    (under : Under stmt inner stmts) : IsNote stmt ∨ ∃ call ∈ log, call.filename = env.file ∧
      call.stmt = asAnalyzed stmt ∧ call.ctx = contextOf (path ++ inner) := by
  induction passed generalizing inner with
  | done => exact (not_under_nil under).elim
  | note note tail ih =>
    rcases under_cons under with ⟨rfl, -⟩ | ⟨body, deeper, block, -, -⟩ | later
    · exact .inl note
    · rw [note.2.2.2] at block
      cases block
    · exact ih later
  | statement within tail ihWithin ih =>
    rcases under_cons under with ⟨rfl, rfl⟩ | ⟨body, deeper, block, rfl, within⟩ | later
    · refine .inr ⟨_, List.mem_cons_self, rfl, rfl, ?_⟩
      rw [List.append_nil]
    · rw [block] at ihWithin
      rcases ihWithin within with note | ⟨call, mem, file, same, ctx⟩
      · exact .inl note
      · refine .inr ⟨call, List.mem_cons_of_mem _ (List.mem_append_left _ mem), file, same, ?_⟩
        rw [ctx, ← List.append_cons]
    · rcases ih later with note | ⟨call, mem, found⟩
      · exact .inl note
      · exact .inr ⟨call, List.mem_cons_of_mem _ (List.mem_append_right _ mem), found⟩
  | ignored ignored tail ih =>
    rcases ih under with note | ⟨call, mem, found⟩
    · exact .inl note
    · exact .inr ⟨call, List.mem_append_right _ mem, found⟩

/-! ## From file to file -/

/-- The blocks around the statements of an entry: none for the main file, and for a file that an
include statement brings in those of the statement, within its own file and around that. -/
inductive Encloses (config : List (Option ParsingContext)) : Nat → List Text → Prop
  | main : Encloses config 0 []
  | included {i j : Nat} {path inner : List Text} {parsing : ParsingContext} {stmt : Stmt}
      (outer : Encloses config j path) (entry : config[j]? = some (some parsing))
      (under : Under stmt inner parsing.parsed) (mem : i ∈ stmt.includes) :
      Encloses config i (path ++ inner)

theorem Encloses.grow {config later : List (Option ParsingContext)} {i : Nat}
    (grown : config <+: later) (encloses : Encloses config i path) : Encloses later i path := by
  induction encloses with
  | main => exact .main
  | included _ entry under mem ih =>
    obtain ⟨more, rfl⟩ := grown
    have bound := (List.getElem?_eq_some_iff.mp entry).1
    exact .included ih ((List.getElem?_append_left bound).trans entry) under mem

variable {sys : System} {opts : ParseOpts} {table : Directives} {filename : Text} {loop : Loop}
  {logs : List (List Call)} {i : Nat}

/-- The rounds of the loop up to a state, with the calls of `analyze` in each. -/
inductive Logged (sys : System) (opts : ParseOpts) (table : Directives) (filename : Text) :
    Loop → List (List Call) → Prop
  | start : Logged sys opts table filename (firstLoop table filename) []
  | unread {loop : Loop} {logs : List (List Call)} {f : FileCtx} {err : ConfigError}
      (before : Logged sys opts table filename loop logs)
      (current : loop.shared.includes[loop.idx]? = some f) (fails : Unreadable sys f.name) :
      Logged sys opts table filename
        ⟨{ loop.shared with handler := loop.shared.handler.map (·.add err) }, loop.idx + 1,
          loop.config ++ [none]⟩ (logs ++ [[]])
  | parsed {loop : Loop} {logs : List (List Call)} {f : FileCtx} {text : Text}
      {tokens rest : List Token} {log : List Call} {parsed : List Stmt} {st : Shared}
      (before : Logged sys opts table filename loop logs)
      (current : loop.shared.includes[loop.idx]? = some f)
      (opens : sys.fs.openFile f.name = .ok text)
      (lexed : lex sys.lexFuel text f.name = some (.ok tokens))
      (runs : Runs (sys.env opts f.name) f.ctx false tokens
        { loop.shared with parsing := ⟨.ok, []⟩ } log parsed rest st) :
      Logged sys opts table filename
        ⟨st, loop.idx + 1, loop.config ++ [some ⟨f.name, st.parsing, parsed⟩]⟩ (logs ++ [log])

theorem exists_logged
    (path : Reaches (loopStep sys opts) (parseStart table filename) (.running loop)) :
    ∃ logs, Logged sys opts table filename loop logs := by
  refine run_induction (motive := fun loop => ∃ logs, Logged sys opts table filename loop logs)
    ⟨[], .start⟩ (fun before after done round => ?_) path
  obtain ⟨logs, logged⟩ := done
  obtain ⟨f, current, ⟨fails, err, rfl⟩ | ⟨text, tokens, parsed, rest, st, opens, lexed, parse,
    rfl⟩⟩ := round_cases round
  · exact ⟨_, .unread logged current fails⟩
  · obtain ⟨log, runs⟩ := runs_of_parse parse
    exact ⟨_, .parsed logged current opens lexed runs⟩

/-- The entry was parsed from the file, in its context, with these calls, and what was appended to
the work list is still there. -/
def ParsedFrom (sys : System) (opts : ParseOpts) (includes : List FileCtx) (f : FileCtx)
    (log : List Call) (parsing : ParsingContext) : Prop :=
  ∃ text tokens rest st st', sys.fs.openFile f.name = .ok text ∧
    lex sys.lexFuel text f.name = some (.ok tokens) ∧ parsing.file = f.name ∧
    Runs (sys.env opts f.name) f.ctx false tokens st log parsing.parsed rest st' ∧
    st'.includes <+: includes

/-- Every entry of the loop was parsed from the element of the work list at its place. -/
structure Followed (sys : System) (opts : ParseOpts) (loop : Loop) (logs : List (List Call)) :
    Prop where
  idx_eq : loop.idx = loop.config.length
  length_eq : logs.length = loop.config.length
  main : loop.shared.includes[0]?.map (·.ctx) = some []
  entries : ∀ (i : Nat) (parsing : ParsingContext), loop.config[i]? = some (some parsing) →
    ∃ f log, loop.shared.includes[i]? = some f ∧ logs[i]? = some log ∧
      ParsedFrom sys opts loop.shared.includes f log parsing

theorem ParsedFrom.grow {includes later : List FileCtx} {f : FileCtx} {log : List Call}
    {parsing : ParsingContext} (grown : includes <+: later)
    (parsed : ParsedFrom sys opts includes f log parsing) :
    ParsedFrom sys opts later f log parsing := by
  obtain ⟨text, tokens, rest, st, st', opens, lexed, file, runs, kept⟩ := parsed
  exact ⟨text, tokens, rest, st, st', opens, lexed, file, runs, kept.trans grown⟩

theorem ParsedFrom.passes {includes : List FileCtx} {f : FileCtx} {log : List Call}
    {parsing : ParsingContext} (parsed : ParsedFrom sys opts includes f log parsing)
    (same : f.ctx = contextOf path) :
    Passed (sys.env opts parsing.file) path parsing.parsed log ∧
      Brings includes path parsing.parsed := by
  obtain ⟨text, tokens, rest, st, st', opens, lexed, file, runs, kept⟩ := parsed
  obtain ⟨passed, brings⟩ := passes_of_runs runs rfl path same
  exact ⟨file ▸ passed, brings.grow kept⟩

theorem Followed.grow {f : FileCtx} {log : List Call} {st : Shared} {entry : Option ParsingContext}
    (followed : Followed sys opts loop logs) (current : loop.shared.includes[loop.idx]? = some f)
    (grown : loop.shared.includes <+: st.includes)
    (new : ∀ parsing, entry = some parsing → ParsedFrom sys opts st.includes f log parsing) :
    Followed sys opts ⟨st, loop.idx + 1, loop.config ++ [entry]⟩ (logs ++ [log]) := by
  have kept {j : Nat} {g : FileCtx} (place : loop.shared.includes[j]? = some g) :
      st.includes[j]? = some g := by
    obtain ⟨more, same⟩ := grown
    rw [← same, List.getElem?_append_left (List.getElem?_eq_some_iff.mp place).1, place]
  refine ⟨by simp [followed.idx_eq], by simp [followed.length_eq],
    getElem?_grown grown followed.main, fun i parsing found => ?_⟩
  dsimp only at found
  rw [List.getElem?_append] at found
  split at found
  · rename_i bound
    obtain ⟨g, log', place, logged, parsed⟩ := followed.entries i parsing found
    refine ⟨g, log', kept place, ?_, parsed.grow grown⟩
    rw [List.getElem?_append_left (by rw [followed.length_eq]; exact bound), logged]
  · rename_i bound
    obtain ⟨last, same⟩ := List.getElem?_eq_some_iff.mp found
    rw [List.length_singleton] at last
    have here : i = loop.config.length := by omega
    subst here
    refine ⟨f, log, kept (followed.idx_eq ▸ current), ?_, new parsing (by simpa using same)⟩
    rw [← followed.length_eq, List.getElem?_concat_length]

theorem Logged.followed (logged : Logged sys opts table filename loop logs) :
    Followed sys opts loop logs := by
  induction logged with
  | start => exact ⟨rfl, rfl, rfl, fun i parsing impossible => nomatch impossible⟩
  | unread before current fails ih =>
    exact ih.grow current List.prefix_rfl fun parsing impossible => nomatch impossible
  | parsed before current opens lexed runs ih =>
    refine ih.grow current runs.grown fun parsing same => ?_
    cases same
    exact ⟨_, _, _, _, _, opens, lexed, rfl, runs, List.prefix_rfl⟩

/-- The context of a file is that of the blocks around it. -/
theorem Followed.context (followed : Followed sys opts loop logs)
    (encloses : Encloses loop.config i path) :
    loop.shared.includes[i]?.map (·.ctx) = some (contextOf path) := by
  induction encloses with
  | main => exact followed.main
  | @included _ _ path inner parsing stmt _ entry under mem ih =>
    obtain ⟨f, log, place, -, parsed⟩ := followed.entries _ parsing entry
    rw [place, Option.map_some, Option.some.injEq] at ih
    exact (parsed.passes ih).2 stmt inner under _ mem

theorem Followed.passed {parsing : ParsingContext} (followed : Followed sys opts loop logs)
    (entry : loop.config[i]? = some (some parsing)) (encloses : Encloses loop.config i path) :
    ∃ log, logs[i]? = some log ∧
      Passed (sys.env opts parsing.file) path parsing.parsed log := by
  obtain ⟨f, log, place, logged, parsed⟩ := followed.entries i parsing entry
  have same := followed.context encloses
  rw [place, Option.map_some, Option.some.injEq] at same
  exact ⟨log, logged, (parsed.passes same).1⟩

/-- Where nothing is ignored, every file was brought in by a statement of the trees. -/
theorem exists_encloses (quiet : QuietOpts opts)
    (path : Reaches (loopStep sys opts) (parseStart table filename) (.running loop)) :
    loop.idx = loop.config.length ∧
      ∀ i < loop.shared.includes.length, ∃ path, Encloses loop.config i path := by
  refine run_induction (motive := fun loop => loop.idx = loop.config.length ∧
      ∀ i < loop.shared.includes.length, ∃ path, Encloses loop.config i path)
    ⟨rfl, fun i bound => ⟨[], ?_⟩⟩ (fun before after done round => ?_) path
  · have first : i = 0 := Nat.lt_one_iff.mp bound
    subst first
    exact .main
  · obtain ⟨idx_eq, enclosed⟩ := done
    obtain ⟨f, st, entry, more, errors, current, adds, rfl⟩ := round_adds quiet round
    have grown : before.config <+: before.config ++ [entry] := List.prefix_append _ _
    refine ⟨by simp [idx_eq], fun i bound => ?_⟩
    by_cases old : i < before.shared.includes.length
    · obtain ⟨path, encloses⟩ := enclosed i old
      exact ⟨path, encloses.grow grown⟩
    · -- the places added in this round are those in the new entry
      have total := congrArg List.length adds.names
      rw [List.length_append, length_names, length_names] at total
      have mem : i ∈ entryIndices entry := by
        rw [adds.handed, List.mem_range'_1, length_names]
        dsimp only at bound
        omega
      cases entry with
      | none => cases mem
      | some parsing =>
        obtain ⟨stmt, inner, under, mem⟩ := under_of_mem_indices _ mem
        obtain ⟨path, encloses⟩ := enclosed before.idx (List.getElem?_eq_some_iff.mp current).1
        refine ⟨path ++ inner, .included (encloses.grow grown) ?_ under mem⟩
        rw [idx_eq, List.getElem?_concat_length]

/-! ## The combined tree -/

section Combined

variable {jump : Nat → Except Fault (List Stmt)} {stmt : Stmt} {inner : List Text}

/-- The statement is another one with its block rewritten. -/
def Rewrites (origin stmt : Stmt) : Prop :=
  ∃ blocks, stmt = { origin with blocks := blocks } ∧ (origin.blocks = none → blocks = none)

/-- A statement of the combined tree stands there where it stood in the forest, or an index of the
forest led to it. -/
def ComesFrom (jump : Nat → Except Fault (List Stmt)) (stmts : List Stmt) (stmt : Stmt)
    (path : List Text) : Prop :=
  (∃ origin, Under origin path stmts ∧ Rewrites origin stmt) ∨
    ∃ host outer i file inner, Under host outer stmts ∧ i ∈ host.includes ∧ jump i = .ok file ∧
      Under stmt inner file ∧ path = outer ++ inner

theorem ComesFrom.later {first : Stmt} (comes : ComesFrom jump stmts stmt path) :
    ComesFrom jump (first :: stmts) stmt path := by
  rcases comes with ⟨origin, under, same⟩ | ⟨host, outer, i, file, inner, under, found⟩
  · exact .inl ⟨origin, under.later, same⟩
  · exact .inr ⟨host, outer, i, file, inner, under.later, found⟩

theorem ComesFrom.inside {first : Stmt} {body : List Stmt} (block : first.blocks = some body)
    (comes : ComesFrom jump body stmt path) :
    ComesFrom jump (first :: stmts) stmt (first.directive :: path) := by
  rcases comes with ⟨origin, under, same⟩ | ⟨host, outer, i, file, inner, under, mem, run, deeper,
    rfl⟩
  · exact .inl ⟨origin, .inside List.mem_cons_self block under, same⟩
  · exact .inr ⟨host, _, i, file, inner, .inside List.mem_cons_self block under, mem, run, deeper,
      rfl⟩

theorem under_append {first second : List Stmt} (under : Under stmt path (first ++ second)) :
    Under stmt path first ∨ Under stmt path second := by
  induction first with
  | nil => exact .inr under
  | cons head first ih =>
    rcases under_cons under with ⟨rfl, rfl⟩ | ⟨body, inner, block, rfl, within⟩ | later
    · exact .inl (.here List.mem_cons_self)
    · exact .inl (.inside List.mem_cons_self block within)
    · rcases ih later with found | found
      · exact .inl found.later
      · exact .inr found

theorem under_jumps {places : List Nat} {files : List (List Stmt)}
    (run : places.mapM jump = .ok files) (under : Under stmt path files.flatten) :
    ∃ i ∈ places, ∃ file, jump i = .ok file ∧ Under stmt path file := by
  induction places generalizing files with
  | nil => cases run; exact (not_under_nil under).elim
  | cons place places ih =>
    rw [List.mapM_cons] at run
    obtain ⟨file, first, run⟩ := bind_eq_ok run
    obtain ⟨others, tail, run⟩ := bind_eq_ok run
    cases run
    rcases under_append under with here | later
    · exact ⟨place, List.mem_cons_self, file, first, here⟩
    · obtain ⟨i, mem, found⟩ := ih tail later
      exact ⟨i, List.mem_cons_of_mem _ mem, found⟩

theorem comesFrom_performStmt {first : Stmt} {o : List Stmt} (run : performStmt jump first = .ok o)
    (inner : ∀ body, first.blocks = some body → ∀ o, performBlock jump body = .ok o →
      ∀ stmt path, Under stmt path o → ComesFrom jump body stmt path)
    (under : Under stmt path o) : ComesFrom jump (first :: stmts) stmt path := by
  have led {files : List (List Stmt)} (jumps : first.includes.mapM jump = .ok files)
      (under : Under stmt path files.flatten) : ComesFrom jump (first :: stmts) stmt path := by
    obtain ⟨i, mem, file, jumped, within⟩ := under_jumps jumps under
    exact .inr ⟨first, [], i, file, path, .here List.mem_cons_self, mem, jumped, within, rfl⟩
  rcases first with ⟨directive, filename, line, args, comment, includes, _ | body⟩
  · rw [performStmt] at run
    split at run
    · obtain ⟨files, jumps, run⟩ := bind_eq_ok run
      cases run
      exact led jumps under
    · cases run
      rcases under_cons under with ⟨rfl, rfl⟩ | ⟨body, deeper, block, -, -⟩ | later
      · exact .inl ⟨_, .here List.mem_cons_self, none, rfl, id⟩
      · cases block
      · exact (not_under_nil later).elim
  · rw [performStmt] at run
    obtain ⟨list, rewritten, run⟩ := bind_eq_ok run
    split at run
    · obtain ⟨files, jumps, run⟩ := bind_eq_ok run
      cases run
      exact led jumps under
    · cases run
      rcases under_cons under with ⟨rfl, rfl⟩ | ⟨body', deeper, block, rfl, within⟩ | later
      · exact .inl ⟨_, .here List.mem_cons_self, orNil list, rfl, by simp⟩
      · obtain ⟨rfl, -⟩ := orNil_eq_some.mp block
        exact (inner body rfl _ rewritten stmt deeper within).inside rfl
      · exact (not_under_nil later).elim

theorem comesFrom_performBlock (stmts : List Stmt) {o : List Stmt}
    (run : performBlock jump stmts = .ok o) (under : Under stmt path o) :
    ComesFrom jump stmts stmt path := by
  induction stmts using Stmt.forest_induction generalizing o stmt path with
  | nil => cases run; exact (not_under_nil under).elim
  | cons first rest body tail =>
    rw [performBlock] at run
    obtain ⟨own, first_eq, run⟩ := bind_eq_ok run
    obtain ⟨later, rest_eq, run⟩ := bind_eq_ok run
    cases run
    rcases under_append under with here | after
    · exact comesFrom_performStmt first_eq
        (fun list block _ run _ _ => body list block run) here
    · exact (tail rest_eq after).later

/-- In the combined tree a statement stands under the blocks around it in its own file, and around
that file. -/
theorem under_performInclude {config : List (Option ParsingContext)} {depth : Nat}
    {parsing : ParsingContext} {o : List Stmt} {inner : List Text}
    (encloses : Encloses config i path) (entry : config[i]? = some (some parsing))
    (run : performInclude depth config parsing.parsed = .ok o) (under : Under stmt inner o) :
    ∃ j source outer deeper origin, Encloses config j outer ∧ config[j]? = some (some source) ∧
      Under origin deeper source.parsed ∧ path ++ inner = outer ++ deeper ∧
        Rewrites origin stmt := by
  induction depth generalizing i path parsing o inner with
  | zero => cases run
  | succ depth ih =>
    rw [performInclude] at run
    rcases comesFrom_performBlock _ run under with ⟨origin, found, same⟩ |
      ⟨host, outer, k, file, deeper, found, mem, jumped, within, rfl⟩
    · exact ⟨i, parsing, path, inner, origin, encloses, entry, found, rfl, same⟩
    · dsimp only at jumped
      split at jumped
      · cases jumped
      · cases jumped
      · rename_i source there
        rw [← List.append_assoc]
        exact ih (.included encloses entry found mem) there jumped within

end Combined

/-! ## Every statement in the context of its nesting -/

/-- The payload of a run that returns is that of the loop's end, or its combination. -/
theorem ends_of_parseAll {rounds depth : Nat} {payload : Payload}
    (returns : parseAll rounds depth sys opts table filename = some (.ok payload)) :
    ∃ loop, Ends sys opts table filename loop ∧
      (opts.combine = false → payload = Loop.payload loop) ∧
      (opts.combine = true → combineParsedConfig depth (Loop.payload loop) = .ok payload) := by
  rw [parseAll] at returns
  split at returns
  · rename_i found parsed
    obtain ⟨loop, ends, rfl⟩ := parseReturns_iff_ends.mp ⟨rounds, parsed⟩
    refine ⟨loop, ends, fun apart => ?_, fun combined => ?_⟩
    · rw [if_neg (by simp [apart])] at returns
      cases returns
      rfl
    · rw [if_pos combined] at returns
      exact Option.some.inj returns
  · rename_i other
    exact (other payload returns).elim

/-- A statement of the combined tree was passed in the context of its place there. -/
theorem Followed.combined {depth : Nat} {payload : Payload} {parsing : ParsingContext}
    {stmt : Stmt} (followed : Followed sys opts loop logs)
    (combine : combineParsedConfig depth (Loop.payload loop) = .ok payload)
    (mem : some parsing ∈ payload.config) (under : Under stmt path parsing.parsed) :
    IsNote stmt ∨ ∃ log ∈ logs, ∃ call ∈ log,
      call.stmt = asAnalyzed stmt ∧ call.ctx = contextOf path := by
  rw [combineParsedConfig] at combine
  split at combine
  · cases combine
  · rename_i first others config_eq
    obtain ⟨main, deref_eq, combine⟩ := bind_eq_ok combine
    obtain ⟨contexts, -, combine⟩ := bind_eq_ok combine
    obtain ⟨parsed, performed, combine⟩ := bind_eq_ok combine
    cases combine
    cases List.mem_singleton.mp mem
    cases first with
    | none => cases deref_eq
    | some first =>
      cases deref_eq
      have config : loop.config = some main :: others := config_eq
      have here : loop.config[0]? = some (some main) := by rw [config]; rfl
      obtain ⟨j, source, outer, inner, origin, encloses, entry, found, same, blocks, rfl, plain⟩ :=
        under_performInclude .main here performed under
      obtain ⟨log, logged, passed⟩ := followed.passed entry encloses
      rcases passed.call_of_under found with ⟨directive, args, includes, block⟩ |
        ⟨call, called, -, stmt_eq, ctx_eq⟩
      · exact .inl ⟨directive, args, includes, plain block⟩
      · refine .inr ⟨log, List.mem_of_getElem? logged, call, called, stmt_eq, ?_⟩
        rw [ctx_eq, ← same, List.nil_append]

/-- In a run that returns, the calls of `analyze` for a file are those for its statements, each in
the context of the blocks around it; for the combined tree these are the blocks in that tree. Where
nothing is ignored, there is no other file. -/
theorem analyzed_in_context (sys : System) (opts : ParseOpts) (table : Directives)
    (filename : Text) (rounds depth : Nat) (payload : Payload)
    (returns : parseAll rounds depth sys opts table filename = some (.ok payload)) :
    ∃ loop, Ends sys opts table filename loop ∧
      (∃ logs, Logged sys (optsFor opts filename) table filename loop logs) ∧
      (∀ logs, Logged sys (optsFor opts filename) table filename loop logs →
        (opts.combine = false → payload = Loop.payload loop ∧
          ∀ (i : Nat) (parsing : ParsingContext) (path : List Text),
            payload.config[i]? = some (some parsing) → Encloses payload.config i path →
              ∃ log, logs[i]? = some log ∧
                Passed (sys.env (optsFor opts filename) parsing.file) path parsing.parsed log) ∧
        (opts.combine = true → ∀ parsing, some parsing ∈ payload.config →
          ∀ stmt path, Under stmt path parsing.parsed → IsNote stmt ∨
            ∃ log ∈ logs, ∃ call ∈ log, call.stmt = asAnalyzed stmt ∧
              call.ctx = contextOf path)) ∧
      (QuietOpts opts → ∀ i < loop.config.length, ∃ path, Encloses loop.config i path) := by
  obtain ⟨loop, ends, plain, combined⟩ := ends_of_parseAll returns
  refine ⟨loop, ends, exists_logged ends.1, fun logs logged => ⟨fun apart => ?_,
    fun combine parsing mem stmt path under => ?_⟩, fun quiet i bound => ?_⟩
  · obtain rfl := plain apart
    exact ⟨rfl, fun i parsing path entry encloses => logged.followed.passed entry encloses⟩
  · exact logged.followed.combined (combined combine) mem under
  · have quiet' : QuietOpts (optsFor opts filename) := quiet
    have consistent := consistent_run quiet' ends.1 (consistent_start table filename)
    have within := consistent.bounded
    rw [length_names] at within
    exact (exists_encloses quiet' ends.1).2 i (Nat.lt_of_lt_of_le bound within)

private def sampleStmt (directive : Text) (args : List Text) (includes : List Nat)
    (blocks : Option (List Stmt)) : Stmt :=
  ⟨directive, [], 1, args, [], includes, blocks⟩

/-- The file `b` is included in a location of a server. -/
private def nestedSite : Site where
  sprintf format _ := format
  lexFuel := 100
  entries := [(['m'], "http\x7bserver\x7blocation /\x7binclude b;\x7d\x7d\x7d\n".toList),
    (['b'], "a;\n".toList)]
  globMatch _ := .ok fun _ => false
  distinct := by decide
  lexes := lexes_of_all (by decide +kernel)

private def includeB : Stmt := sampleStmt "include".toList [['b']] [1] none

private def location : Stmt := sampleStmt "location".toList [['/']] [] (some [includeB])

private def server : Stmt := sampleStmt "server".toList [] [] (some [location])

private def http : Stmt := sampleStmt "http".toList [] [] (some [server])

private def nestedPayload : Payload :=
  ⟨⟨.ok, []⟩, [some ⟨['m'], ⟨.ok, []⟩, [http]⟩,
    some ⟨['b'], ⟨.ok, []⟩, [sampleStmt ['a'] [] [] none]⟩]⟩

theorem analyzed_in_context_sample :
    ∃ loop logs log, Logged nestedSite.system (optsFor defaultParseOpts ['m']) directives ['m'] loop
        logs ∧ logs[1]? = some log ∧
      ∃ call ∈ log, call.stmt = ⟨['a'], [], 1, [], [], [], none⟩ ∧
        call.ctx = ["http".toList, "location".toList] := by
  have returns : parseAll 2 0 nestedSite.system defaultParseOpts directives ['m'] =
      some (.ok nestedPayload) := by decide +kernel
  obtain ⟨loop, -, ⟨logs, logged⟩, all, -⟩ := analyzed_in_context _ _ _ _ _ _ _ returns
  have under : Under includeB ["http".toList, "server".toList, "location".toList] [http] :=
    .inside (List.mem_singleton_self http) rfl (.inside (List.mem_singleton_self server) rfl
      (.inside (List.mem_singleton_self location) rfl (.here (List.mem_singleton_self includeB))))
  have encloses : Encloses nestedPayload.config 1
      ([] ++ ["http".toList, "server".toList, "location".toList]) :=
    .included .main rfl under List.mem_cons_self
  obtain ⟨log, found, passed⟩ := ((all logs logged).1 rfl).2 1 _ _ rfl encloses
  rcases passed.call_of_under (.here List.mem_cons_self) with note | ⟨call, mem, -, same, ctx⟩
  · exact absurd note.1 (by decide)
  · exact ⟨loop, logs, log, logged, found, call, mem, same, ctx.trans (by decide)⟩

/-- The file `a` is included within a block of an ignored directive. -/
private def droppingSite : Site where
  sprintf format _ := format
  lexFuel := 100
  entries := [(['m'], "foo\x7bbar\x7binclude a;\x7d\x7d\n".toList), (['a'], "x;\n".toList)]
  globMatch _ := .ok fun _ => false
  distinct := by decide
  lexes := lexes_of_all (by decide +kernel)

private def droppingOpts : ParseOpts :=
  { defaultParseOpts with ignore := some (· = "foo".toList) }

private def viewLoop : LoopState → Option (Payload × List (Text × List Text))
  | .panicked _ => none
  | .running loop => some (Loop.payload loop, loop.shared.includes.map fun f => (f.name, f.ctx))

private def droppedPayload : Payload :=
  ⟨⟨.ok, []⟩, [some ⟨['m'], ⟨.ok, []⟩, []⟩,
    some ⟨['a'], ⟨.ok, []⟩, [sampleStmt ['x'] [] [] none]⟩]⟩

private theorem droppedPayload_encloses : ¬ ∃ path, Encloses droppedPayload.config 1 path := by
  rintro ⟨path, encloses⟩
  cases encloses with
  | @included _ j _ _ parsing stmt _ entry under mem =>
    have shape : parsing.parsed = [] ∨ parsing.parsed = [sampleStmt ['x'] [] [] none] := by
      rcases j with _ | _ | j
      · cases entry; exact .inl rfl
      · cases entry; exact .inr rfl
      · cases entry
    rcases shape with none | one
    · rw [none] at under
      exact not_under_nil under
    · rw [one] at under
      rcases under_cons under with ⟨rfl, -⟩ | ⟨body, inner, block, -, -⟩ | later
      · cases mem
      · cases block
      · exact not_under_nil later

/-- The statement of `a` is analyzed in the context `bar`, and stands in the payload with nothing
around it. -/
theorem dropped_include_context :
    ∃ loop logs, Ends droppingSite.system droppingOpts directives ['m'] loop ∧
      Loop.payload loop = droppedPayload ∧
      Logged droppingSite.system (optsFor droppingOpts ['m']) directives ['m'] loop logs ∧
      logs[1]? = some [⟨['a'], sampleStmt ['x'] [] [] none, [';'], ["bar".toList],
        droppingOpts.checks⟩] ∧
      ¬ ∃ path, Encloses droppedPayload.config 1 path := by
  have seen : viewLoop (Transitions.run (loopStep droppingSite.system
      (optsFor droppingOpts ['m'])) 2 (parseStart directives ['m'])) =
        some (droppedPayload, [(['m'], []), (['a'], ["bar".toList])]) := by decide +kernel
  have path : Reaches (loopStep droppingSite.system (optsFor droppingOpts ['m']))
      (parseStart directives ['m']) _ := Transitions.reaches_run 2 _
  generalize Transitions.run (loopStep droppingSite.system (optsFor droppingOpts ['m'])) 2
    (parseStart directives ['m']) = final at seen path
  cases final with
  | panicked fault => cases seen
  | running loop =>
    obtain ⟨same, workList⟩ := Prod.mk.inj (Option.some.inj seen)
    obtain ⟨logs, logged⟩ := exists_logged path
    have followed := logged.followed
    have config : loop.config = droppedPayload.config := congrArg (·.config) same
    have entry : loop.config[1]? =
        some (some ⟨['a'], ⟨.ok, []⟩, [sampleStmt ['x'] [] [] none]⟩) := by
      rw [config]
      rfl
    obtain ⟨f, log, place, found, text, tokens, rest, st, st', opens, lexed, file, runs, -⟩ :=
      followed.entries 1 _ entry
    have element : (f.name, f.ctx) = (['a'], ["bar".toList]) := by
      have there := congrArg (·[1]?) workList
      simpa [place] using there
    obtain ⟨name, ctx⟩ := f
    cases element
    have opened : droppingSite.system.fs.openFile ['a'] = .ok "x;\n".toList := by decide +kernel
    rw [opened] at opens
    cases opens
    have read : lex droppingSite.system.lexFuel "x;\n".toList ['a'] =
        some (.ok [⟨['x'], 1, false⟩, ⟨[';'], 1, false⟩]) := by decide +kernel
    rw [read] at lexed
    cases lexed
    have call := runs.lone ⟨by decide, by decide⟩ (by decide) (by decide) (by decide)
    subst call
    have ended : loop.shared.includes[loop.idx]? = none := by
      have length := congrArg List.length workList
      rw [List.length_map] at length
      rw [followed.idx_eq, config, List.getElem?_eq_none_iff, length]
      decide
    exact ⟨loop, logs, ⟨path, ended⟩, same, logged, found, droppedPayload_encloses⟩

end ContextTracking
