import Vince.LoadSafety
import Vince.Worklist

/-!
# Parsing a file and what it includes (`config_parse.go`)

`parse` walks `opts.includes` while the parser appends to it. One round of its loop is
`loopStep`; a round in which the parser panics leads to a state of its own. The payload's
status and errors are the report behind the error handler. Combining the parsed files into
one is not modelled here.
-/

namespace ConfigInclude

open GoText ConfigLex DirectiveTable ConfigAnalyze ConfigParse ParseReads LoadSafety Worklist
open StateTransition Relation

/-- What a run of `parse` depends on: formatting, files, and how long `lex` may take. -/
structure System where
  sprintf : Text → Text → Text
  fs : FileSystem
  lexFuel : Nat

structure ParsingContext where
  file : Text
  report : Report
  parsed : List Stmt
  deriving DecidableEq

/-- The payload: its report and the files parsed, a nil entry being `none`. -/
structure Payload where
  report : Report
  config : List (Option ParsingContext)
  deriving DecidableEq

def System.env (sys : System) (opts : ParseOpts) (file : Text) : ParseEnv :=
  ⟨sys.sprintf, sys.fs, opts, file⟩

def parseInclude (sys : System) (opts : ParseOpts) (f : FileCtx) (st : Shared) :
    Except Fault (Except ConfigError ParsingContext × Shared) :=
  match sys.fs.openFile f.name with
  | .error message => .ok (.error (.fileSystem message), st)
  | .ok text =>
    match lex sys.lexFuel text f.name with
    | none => .error .outOfFuel
    | some (.error err) => .ok (.error (.lex err), st)
    | some (.ok tokens) =>
      match parseTokens (sys.env opts f.name) f.ctx tokens { st with parsing := ⟨.ok, []⟩ } with
      | .error fault => .error fault
      | .ok (parsed, _, st) => .ok (.ok ⟨f.name, st.parsing, parsed⟩, st)

structure Loop where
  shared : Shared
  idx : Nat
  config : List (Option ParsingContext)

inductive LoopState where
  | running (loop : Loop)
  | panicked (fault : Fault)

def loopStep (sys : System) (opts : ParseOpts) : LoopState → Option LoopState
  | .panicked _ => none
  | .running loop =>
    match loop.shared.includes[loop.idx]? with
    | none => none
    | some f =>
      match parseInclude sys opts f loop.shared with
      | .error fault => some (.panicked fault)
      | .ok (.error err, st) =>
        some (.running ⟨{ st with handler := st.handler.map (·.add err) }, loop.idx + 1,
          loop.config ++ [none]⟩)
      | .ok (.ok parsing, st) =>
        some (.running ⟨st, loop.idx + 1, loop.config ++ [some parsing]⟩)

/-- The options as `parse` sets them up for a start file. -/
def optsFor (opts : ParseOpts) (filename : Text) : ParseOpts :=
  { opts with configDir := Filepath.dir filename }

/-- The loop before its first round, with fresh options. The key is the literal of the source. -/
def firstLoop (table : Directives) (filename : Text) : Loop :=
  ⟨⟨table, ⟨.ok, []⟩, some ⟨.ok, []⟩, [⟨filename, []⟩], [("filename".toList, 0)]⟩, 0, []⟩

def parseStart (table : Directives) (filename : Text) : LoopState :=
  .running (firstLoop table filename)

/-- `parse` without combining, given at most `fuel` rounds; `none` when these were not enough. -/
def parse (fuel : Nat) (sys : System) (opts : ParseOpts) (table : Directives) (filename : Text) :
    Option (Except Fault Payload) :=
  match Transitions.run (loopStep sys (optsFor opts filename)) fuel (parseStart table filename) with
  | .panicked fault => some (.error fault)
  | .running loop =>
    match loop.shared.includes[loop.idx]? with
    | some _ => none
    | none => some (.ok ⟨loop.shared.handler.getD ⟨.ok, []⟩, loop.config⟩)

def ParseReturns (sys : System) (opts : ParseOpts) (table : Directives) (filename : Text)
    (payload : Payload) : Prop :=
  ∃ fuel, parse fuel sys opts table filename = some (.ok payload)

/-- The names of the files in `payload.Config`. -/
def Payload.files (payload : Payload) : List Text :=
  payload.config.filterMap (Option.map (·.file))

theorem parseReturns_iff {sys : System} {opts : ParseOpts} {table : Directives} {filename : Text}
    {payload : Payload} : ParseReturns sys opts table filename payload ↔
      ∃ loop, Reaches (loopStep sys (optsFor opts filename)) (parseStart table filename)
          (.running loop) ∧ loop.shared.includes[loop.idx]? = none ∧
        payload = ⟨loop.shared.handler.getD ⟨.ok, []⟩, loop.config⟩ := by
  constructor
  · rintro ⟨fuel, returned⟩
    rw [parse] at returned
    split at returned
    · cases returned
    · rename_i loop final
      split at returned
      · cases returned
      · rename_i ended
        cases returned
        exact ⟨loop, final ▸ Transitions.reaches_run fuel _, ended, rfl⟩
  · rintro ⟨loop, path, ended, rfl⟩
    obtain ⟨fuel, final⟩ := Transitions.run_of_reaches path
    exact ⟨fuel, by simp only [parse, final, ended]⟩

theorem panicked_stuck {sys : System} {opts : ParseOpts} {fault : Fault} {loop : Loop} :
    ¬ Reaches (loopStep sys opts) (.panicked fault) (.running loop) := by
  intro path
  rcases ReflTransGen.cases_head path with same | ⟨_, impossible, -⟩
  · cases same
  · cases impossible

/-! ## A finite set of files -/

/-- Lexing the files shows that they lex. -/
theorem lexes_of_all {lexFuel : Nat} {entries : List (Text × Text)}
    (all : (entries.all fun entry => (lex lexFuel entry.2 entry.1).any Except.isOk) = true) :
    ∀ entry ∈ entries, ∃ tokens, lex lexFuel entry.2 entry.1 = some (.ok tokens) := by
  intro entry mem
  have ok := List.all_eq_true.mp all entry mem
  cases result : lex lexFuel entry.2 entry.1 with
  | none =>
    rw [result] at ok
    cases ok
  | some outcome =>
    cases outcome with
    | error err =>
      rw [result] at ok
      cases ok
    | ok tokens => exact ⟨tokens, rfl⟩

/-- Finitely many files, all of which lex. Glob patterns select among their names. -/
structure Site where
  sprintf : Text → Text → Text
  lexFuel : Nat
  entries : List (Text × Text)
  globMatch : Text → Except Text (Text → Bool)
  distinct : (entries.map Prod.fst).Nodup
  lexes : ∀ entry ∈ entries, ∃ tokens, lex lexFuel entry.2 entry.1 = some (.ok tokens)

def Site.names (site : Site) : List Text := site.entries.map Prod.fst

def Site.fs (site : Site) : FileSystem where
  openFile name := match site.entries.lookup name with
    | none => .error "file does not exist".toList
    | some text => .ok text
  glob pattern := (site.globMatch pattern).map fun selects => site.names.filter selects

def Site.system (site : Site) : System := ⟨site.sprintf, site.fs, site.lexFuel⟩

def Site.tokens (site : Site) (name : Text) : List Token :=
  match site.entries.lookup name with
  | none => []
  | some text => match lex site.lexFuel text name with
    | some (.ok tokens) => tokens
    | _ => []

/-- One file parsed by itself. -/
def Site.alone (site : Site) (opts : ParseOpts) (name : Text) :
    Except Fault (List Stmt × List Token × Shared) :=
  parseTokens (site.system.env opts name) [] (site.tokens name) ⟨[], ⟨.ok, []⟩, none, [], []⟩

/-- The files that parsing a file adds to the work list. -/
def Site.includes (site : Site) (opts : ParseOpts) (name : Text) : List Text :=
  match site.alone opts name with
  | .error _ => []
  | .ok (_, _, st) => Shared.names st

/-- The statements of a file, without the indices of what they include. -/
def Site.stmts (site : Site) (opts : ParseOpts) (name : Text) : List Stmt :=
  match site.alone opts name with
  | .error _ => []
  | .ok (parsed, _, _) => bare parsed

/-- Parsing the file does not panic. -/
def Site.Safe (site : Site) (opts : ParseOpts) (name : Text) : Prop :=
  survives (site.system.env opts name) 0 .between (site.tokens name) = true

variable {site : Site} {opts : ParseOpts} {name start : Text} {table : Directives}
  {queue : List Text}

theorem lookup_of_mem (known : name ∈ site.names) :
    ∃ text, site.entries.lookup name = some text := by
  obtain ⟨entry, mem, rfl⟩ := List.mem_map.mp known
  exact Option.isSome_iff_exists.mp (List.lookup_isSome_iff.mpr ⟨entry, mem, beq_self_eq_true _⟩)

theorem entry_of_lookup {text : Text} (found : site.entries.lookup name = some text) :
    (name, text) ∈ site.entries := by
  obtain ⟨before, after, split, -⟩ := List.lookup_eq_some_iff.mp found
  simp [split]

theorem lex_tokens {text : Text} (found : site.entries.lookup name = some text) :
    lex site.lexFuel text name = some (.ok (site.tokens name)) := by
  obtain ⟨tokens, lexed⟩ := site.lexes _ (entry_of_lookup found)
  dsimp only at lexed
  rw [Site.tokens, found]
  simp only [lexed]

theorem openFile_known {path content : Text} (opens : site.fs.openFile path = .ok content) :
    path ∈ site.names := by
  simp only [Site.fs] at opens
  split at opens
  · cases opens
  · rename_i text found
    exact List.mem_map.mpr ⟨_, entry_of_lookup found, rfl⟩

theorem glob_known {path : Text} {names : List Text} (globs : site.fs.glob path = .ok names) :
    ∀ found ∈ names, found ∈ site.names := by
  simp only [Site.fs] at globs
  cases selects : site.globMatch path with
  | error message => rw [selects] at globs; cases globs
  | ok select =>
    rw [selects] at globs
    cases globs
    exact fun found => List.mem_of_mem_filter

/-- Includes name files of the site only. -/
theorem resolve_known {env : ParseEnv} (same : env.fs = site.fs) {pattern : Text}
    {names : List Text} (resolved : resolve env pattern = .ok names) :
    ∀ found ∈ names, found ∈ site.names := by
  rw [resolve, same] at resolved
  split at resolved
  · rename_i content opens
    cases resolved
    intro found mem
    rw [List.mem_singleton] at mem
    exact mem ▸ openFile_known opens
  · dsimp only at resolved
    generalize (if Filepath.isAbs pattern = true then pattern
      else Filepath.joinPath env.opts.configDir pattern) = path at resolved
    split at resolved
    · cases globs : site.fs.glob path with
      | error message => rw [globs] at resolved; cases resolved
      | ok list =>
        rw [globs] at resolved
        cases resolved
        exact fun found mem => glob_known globs found ((List.mem_insertionSort _).mp mem)
    · split at resolved
      · cases resolved
      · exact glob_known resolved

theorem named_known {env : ParseEnv} (same : env.fs = site.fs) (directive : Text)
    (args : List Text) : ∀ found ∈ named env directive args, found ∈ site.names := by
  unfold named
  split
  · split
    · simp
    · split
      · simp
      · rename_i names resolved
        exact resolve_known same resolved
  · simp

theorem includeNames_known {env : ParseEnv} (same : env.fs = site.fs) (stmts : List Stmt) :
    ∀ found ∈ includeNames env stmts, found ∈ site.names := by
  induction stmts using Stmt.forest_induction with
  | nil => simp [includeNames]
  | cons stmt rest body tail =>
    intro found mem
    rw [includeNames, stmtNames_eq] at mem
    simp only [List.mem_append] at mem
    rcases mem with (own | inner) | later
    · exact named_known same _ _ found own
    · cases blocks : stmt.blocks with
      | none => simp [blocks] at inner
      | some list => exact body list blocks found (by simpa [blocks] using inner)
    · exact tail found later

/-! ## One round of the loop -/

/-- Nothing is ignored, whichever file is parsed. -/
def QuietOpts (opts : ParseOpts) : Prop :=
  ∀ directive, match opts.ignore with
    | none => True
    | some ignore => ignore directive = false

theorem QuietOpts.env (quiet : QuietOpts opts) (sys : System) (file : Text) :
    Quiet (sys.env opts file) := by
  intro directive
  have := quiet directive
  simp only [ParseEnv.ignored, System.env]
  split <;> simp_all

theorem alone_of_reads (quiet : QuietOpts opts) {stmts : List Stmt} {rest : List Token}
    (reads : Reads (site.system.env opts name) (site.tokens name) stmts rest) :
    site.includes opts name = includeNames (site.system.env opts name) stmts ∧
      site.stmts opts name = stmts := by
  obtain ⟨parsed, st', parse, agrees⟩ := parse_of_reads (quiet.env _ _) reads _ []
    ⟨[], ⟨.ok, []⟩, none, [], []⟩ (Nat.lt_succ_self _)
  have run : site.alone opts name = .ok (parsed, rest, st') := parse
  simp only [Site.includes, Site.stmts, run]
  exact ⟨by simpa [Shared.names] using agrees.names_eq, agrees.bare_eq⟩

theorem includes_known (quiet : QuietOpts opts) (name : Text) :
    ∀ found ∈ site.includes opts name, found ∈ site.names := by
  rw [Site.includes]
  split
  · simp
  · rename_i parsed rest st parse
    obtain ⟨stmts, -, agrees⟩ := parseTokens_agrees (quiet.env site.system name) parse
    rw [agrees.names_eq]
    exact includeNames_known rfl stmts

/-- A file of the site opens and lexes. -/
theorem opens_of_known {name : Text} (known : name ∈ site.names) :
    ∃ text, site.system.fs.openFile name = .ok text ∧
      lex site.system.lexFuel text name = some (.ok (site.tokens name)) := by
  obtain ⟨text, found⟩ := lookup_of_mem known
  exact ⟨text, by simp only [Site.system, Site.fs, found], lex_tokens found⟩

theorem loopStep_safe (quiet : QuietOpts opts) {loop : Loop} {f : FileCtx}
    (current : loop.shared.includes[loop.idx]? = some f) (known : f.name ∈ site.names)
    (safe : site.Safe opts f.name) :
    ∃ st parsed, loopStep site.system opts (.running loop) =
        some (.running ⟨st, loop.idx + 1, loop.config ++ [some ⟨f.name, st.parsing, parsed⟩]⟩) ∧
      Shared.names st = Shared.names loop.shared ++ site.includes opts f.name ∧
      bare parsed = site.stmts opts f.name := by
  obtain ⟨text, opens, lexed⟩ := opens_of_known known
  obtain ⟨stmts, rest, reads, -⟩ := reads_of_survives _ _ le_rfl 0 safe
  obtain ⟨parsed, st', parse, agrees⟩ := parse_of_reads (quiet.env _ _) reads _ f.ctx
    { loop.shared with parsing := ⟨.ok, []⟩ } (Nat.lt_succ_self _)
  obtain ⟨includes_eq, stmts_eq⟩ := alone_of_reads quiet reads
  refine ⟨st', parsed, ?_, includes_eq ▸ agrees.names_eq, stmts_eq ▸ agrees.bare_eq⟩
  simp only [loopStep, current, parseInclude, opens, lexed, parseTokens, parse]

theorem loopStep_panics (quiet : QuietOpts opts) {loop : Loop} {f : FileCtx}
    (current : loop.shared.includes[loop.idx]? = some f) (known : f.name ∈ site.names)
    (notSafe : ¬ site.Safe opts f.name) :
    ∃ fault, loopStep site.system opts (.running loop) = some (.panicked fault) := by
  obtain ⟨text, opens, lexed⟩ := opens_of_known known
  cases parse : parseTokens (site.system.env opts f.name) f.ctx (site.tokens f.name)
      { loop.shared with parsing := ⟨.ok, []⟩ } with
  | error fault =>
    exact ⟨fault, by simp only [loopStep, current, parseInclude, opens, lexed, parse]⟩
  | ok result =>
    obtain ⟨stmts, reads⟩ := reads_of_parse (quiet.env _ _) parse
    exact absurd (survives_of_reads reads).1 notSafe

/-! ## The loop refines the work list -/

/-- The loop stands where the walk does. -/
structure Follows (site : Site) (loop : Loop) (w : Walk Text) : Prop where
  names_eq : Shared.names loop.shared = w.done ++ w.pending
  idx_eq : loop.idx = w.done.length
  files_eq : loop.config.filterMap (Option.map (·.file)) = w.done
  known : ∀ name ∈ w.pending, name ∈ site.names

theorem Follows.current {loop : Loop} {w : Walk Text} {pending : List Text}
    (follows : Follows site loop w) (shape : w.pending = name :: pending) :
    ∃ f, loop.shared.includes[loop.idx]? = some f ∧ f.name = name := by
  have entry : (Shared.names loop.shared)[loop.idx]? = some name := by
    rw [follows.names_eq, follows.idx_eq, shape]
    simp
  rw [Shared.names, List.getElem?_map] at entry
  exact Option.map_eq_some_iff.mp entry

theorem Follows.done {loop : Loop} {w : Walk Text} (follows : Follows site loop w)
    (empty : w.pending = []) : loop.shared.includes[loop.idx]? = none := by
  have length := congrArg List.length follows.names_eq
  rw [empty, List.append_nil, Shared.names, List.length_map] at length
  exact List.getElem?_eq_none (by rw [follows.idx_eq, length])

theorem follows_step (quiet : QuietOpts opts) {loop : Loop} {w w' : Walk Text}
    (follows : Follows site loop w) (edge : step (site.includes opts) w = some w')
    (safe : ∀ name ∈ w'.done, site.Safe opts name) :
    ∃ loop', loopStep site.system opts (.running loop) = some (.running loop') ∧
      Follows site loop' w' := by
  obtain ⟨name, pending, shape, rfl⟩ := step_cases edge
  obtain ⟨f, current, rfl⟩ := follows.current shape
  have known := follows.known
  rw [shape, List.forall_mem_cons] at known
  obtain ⟨st, parsed, next, names, -⟩ := loopStep_safe quiet current known.1 (safe _ (by simp))
  refine ⟨_, next, ?_, ?_, ?_, ?_⟩
  · simp [names, follows.names_eq, shape]
  · simp [follows.idx_eq]
  · simp [List.filterMap_append, follows.files_eq]
  · intro found mem
    rcases List.mem_append.mp mem with mem | mem
    · exact known.2 found mem
    · exact includes_known quiet f.name found mem

theorem follows_drain (quiet : QuietOpts opts) {w : Walk Text}
    (path : Reaches (step (site.includes opts)) w ⟨queue, []⟩)
    (safe : ∀ name ∈ queue, site.Safe opts name) :
    ∀ loop, Follows site loop w → ∃ loop', Reaches (loopStep site.system opts) (.running loop)
      (.running loop') ∧ Follows site loop' ⟨queue, []⟩ := by
  induction path using ReflTransGen.head_induction_on with
  | refl => exact fun loop follows => ⟨loop, .refl, follows⟩
  | head edge path ih =>
    intro loop follows
    obtain ⟨loop₁, next, follows₁⟩ := follows_step quiet follows edge
      fun name mem => safe name (done_subset path mem)
    obtain ⟨loop₂, path₂, follows₂⟩ := ih loop₁ follows₁
    exact ⟨loop₂, .head next path₂, follows₂⟩

/-- Where the loop gets to an end, the walk does, through files that are all safe. -/
theorem drain_of_loop (quiet : QuietOpts opts) {s : LoopState} {final : Loop}
    (path : Reaches (loopStep site.system opts) s (.running final))
    (ended : final.shared.includes[final.idx]? = none) :
    ∀ loop w, s = .running loop → Follows site loop w →
      (∀ name ∈ w.done, site.Safe opts name) →
      ∃ queue, Follows site final ⟨queue, []⟩ ∧
        Reaches (step (site.includes opts)) w ⟨queue, []⟩ ∧
        ∀ name ∈ queue, site.Safe opts name := by
  induction path using ReflTransGen.head_induction_on with
  | refl =>
    rintro loop w ⟨⟩ follows safe
    obtain ⟨done, _ | ⟨name, pending⟩⟩ := w
    · exact ⟨done, follows, .refl, safe⟩
    · obtain ⟨f, current, -⟩ := follows.current rfl
      rw [ended] at current
      cases current
  | head edge path ih =>
    rintro loop ⟨done, _ | ⟨name, pending⟩⟩ rfl follows safe
    · rw [Option.mem_def, loopStep, follows.done rfl] at edge
      cases edge
    · obtain ⟨f, current, rfl⟩ := follows.current rfl
      by_cases safeHere : site.Safe opts f.name
      · have safe' : ∀ name ∈ done ++ [f.name], site.Safe opts name := by
          simpa [or_imp, forall_and] using ⟨safe, safeHere⟩
        have walk : step (site.includes opts) ⟨done, f.name :: pending⟩ =
          some ⟨done ++ [f.name], pending ++ site.includes opts f.name⟩ := rfl
        obtain ⟨loop₁, next, follows₁⟩ := follows_step quiet follows walk safe'
        rw [Option.mem_def, next] at edge
        obtain ⟨queue, followsFinal, walks, safeFinal⟩ :=
          ih loop₁ _ (Option.some.inj edge).symm follows₁ safe'
        exact ⟨queue, followsFinal, .head walk walks, safeFinal⟩
      · have known : f.name ∈ site.names := follows.known _ (by simp)
        obtain ⟨fault, next⟩ := loopStep_panics quiet current known safeHere
        rw [Option.mem_def, next] at edge
        cases edge
        exact (panicked_stuck path).elim

theorem follows_start (table : Directives) (known : start ∈ site.names) :
    Follows site (firstLoop table start) ⟨[], [start]⟩ :=
  ⟨rfl, rfl, rfl, by simpa using known⟩

/-- `parse` returns, having parsed the files of the queue, exactly when the walk over includes
drains with that queue and no file in it makes the parser panic. -/
theorem parse_drains_iff (table : Directives) (quiet : QuietOpts opts)
    (known : start ∈ site.names) :
    (∃ payload, ParseReturns site.system opts table start payload ∧ payload.files = queue) ↔
      Drains (site.includes (optsFor opts start)) start queue ∧
        ∀ name ∈ queue, site.Safe (optsFor opts start) name := by
  have quiet' : QuietOpts (optsFor opts start) := quiet
  have follows := follows_start table known
  constructor
  · rintro ⟨payload, returns, rfl⟩
    obtain ⟨loop, path, ended, rfl⟩ := parseReturns_iff.mp returns
    obtain ⟨queue, followsFinal, walks, safe⟩ :=
      drain_of_loop quiet' path ended _ _ rfl follows (by simp)
    rw [Payload.files, followsFinal.files_eq]
    exact ⟨walks, safe⟩
  · rintro ⟨drains, safe⟩
    obtain ⟨loop, path, follows'⟩ := follows_drain quiet' drains safe _ follows
    exact ⟨_, parseReturns_iff.mpr ⟨loop, path, follows'.done rfl, rfl⟩,
      follows'.files_eq⟩

/-- Include processing returns with every file parsed once exactly when the includes of the
files reached form a tree below the start file, and none of them makes the parser panic. -/
theorem parse_each_once_iff (site : Site) (table : Directives) (start : Text)
    (known : start ∈ site.names) :
    (∃ payload, ParseReturns site.system defaultParseOpts table start payload ∧
        payload.files.Nodup) ↔
      TreeShaped (site.includes (optsFor defaultParseOpts start)) start ∧
        ∀ name, Reachable (site.includes (optsFor defaultParseOpts start)) start name →
          site.Safe (optsFor defaultParseOpts start) name := by
  have quiet : QuietOpts defaultParseOpts := fun _ => rfl
  have quiet' : QuietOpts (optsFor defaultParseOpts start) := quiet
  constructor
  · rintro ⟨payload, returns, nodup⟩
    obtain ⟨drains, safe⟩ := (parse_drains_iff table quiet known).mp ⟨payload, returns, rfl⟩
    exact ⟨drains.treeShaped nodup, fun name path => safe name (drains.mem_iff.mpr path)⟩
  · rintro ⟨tree, safe⟩
    have finite : ∀ name, Reachable (site.includes (optsFor defaultParseOpts start)) start name →
        name ∈ site.names := by
      intro name path
      induction path with
      | refl => exact known
      | tail _ edge _ => exact includes_known quiet' _ _ edge
    obtain ⟨queue, drains, nodup⟩ := tree.drains site.names finite
    obtain ⟨payload, returns, files⟩ := (parse_drains_iff table quiet known).mpr
      ⟨drains, fun name mem => safe name (drains.mem_iff.mp mem)⟩
    exact ⟨payload, returns, files ▸ nodup⟩

/-- The file `m` with `include b;` and the file `b` with `a;`. -/
def treeSite : Site where
  sprintf format _ := format
  lexFuel := 100
  entries := [(['m'], "include b;\n".toList), (['b'], "a;\n".toList)]
  globMatch _ := .ok fun _ => false
  distinct := by decide
  lexes := lexes_of_all (by decide +kernel)

theorem treeSite_includes :
    treeSite.includes (optsFor defaultParseOpts ['m']) ['m'] = [['b']] ∧
      treeSite.includes (optsFor defaultParseOpts ['m']) ['b'] = [] := by
  constructor <;> decide +kernel

theorem parse_each_once_sample :
    ∃ payload, ParseReturns treeSite.system defaultParseOpts directives ['m'] payload ∧
      payload.files.Nodup := by
  obtain ⟨first, second⟩ := treeSite_includes
  have reached : ∀ name, Reachable (treeSite.includes (optsFor defaultParseOpts ['m'])) ['m'] name →
      name = ['m'] ∨ name = ['b'] := by
    intro name path
    induction path with
    | refl => exact .inl rfl
    | tail _ edge ih =>
      rcases ih with rfl | rfl
      · exact .inr (by simpa [first] using edge)
      · simp [second] at edge
  refine (parse_each_once_iff treeSite directives ['m'] (by decide)).mpr ⟨⟨?_, ?_, ?_⟩, ?_⟩
  · intro name path
    rcases reached name path with rfl | rfl <;> simp [first, second]
  · intro name path
    rcases reached name path with rfl | rfl <;> simp [first, second]
  · intro a b pathA pathB differ
    rcases reached a pathA with rfl | rfl <;> rcases reached b pathB with rfl | rfl <;>
      simp_all
  · intro name path
    rcases reached name path with rfl | rfl <;> unfold Site.Safe <;> decide +kernel

private def loopSite : Site where
  sprintf format _ := format
  lexFuel := 100
  entries := [(['m'], "include m;\n".toList)]
  globMatch _ := .ok fun _ => false
  distinct := by decide
  lexes := lexes_of_all (by decide +kernel)

/-- A file that includes itself is appended to the work list in every round. -/
theorem self_include_diverges :
    ¬ ∃ payload, ParseReturns loopSite.system defaultParseOpts directives ['m'] payload := by
  rintro ⟨payload, returns⟩
  have known : ['m'] ∈ loopSite.names := by decide
  obtain ⟨drains, -⟩ :=
    (parse_drains_iff directives (fun _ => rfl) known).mp ⟨payload, returns, rfl⟩
  have itself : loopSite.includes (optsFor defaultParseOpts ['m']) ['m'] = [['m']] := by
    decide +kernel
  refine not_drains (fun name path => ?_) drains
  have same : name = ['m'] := by
    induction path with
    | refl => rfl
    | tail _ edge ih => simpa [ih, itself] using edge
  rw [same, itself]
  simp

end ConfigInclude
