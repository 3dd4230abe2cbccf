import Vince.ErrorFreeRuns

/-!
# Formatting a file (`config_format.go`)

`format` parses a file with all it includes, builds the statements of the file itself and prints
them or writes them back. A run of `parse` on what it wrote goes through the same states as a run
without errors on the file before: the errors are the only place where the parser remembers lines
and comments. Output as JSON is not modelled. The file is a file on disk: one of the embedded files
would not be read back, and `os.Stat` does not fail on it.
-/

namespace FormatCommand

open GoText ConfigLex DirectiveTable ConfigAnalyze ConfigParse ConfigBuild ParseReads ParseForest
  ParseSoundness BuildRoundTrip BuildComments ConfigInclude PayloadIndices AnalyzeCalls
  ErrorFreeRuns Transitions StateTransition

/-- The options of `format`. -/
def formatOpts : ParseOpts := { defaultParseOpts with comments := true }

/-- `ioutil.WriteFile` on a file there is. -/
def writeFile (fs : FileSystem) (file text : Text) : FileSystem :=
  { fs with openFile := fun name => if name = file then .ok text else fs.openFile name }

/-- `format`, given at most `fuel` rounds of `parse`: what it prints and the files it leaves, or the
error it returns. -/
def format (isPrint : Char → Bool) (fuel : Nat) (sys : System) (file : Text) (write : Bool) :
    Option (Except Fault (Except ConfigError (Text × FileSystem))) :=
  match parse fuel sys formatOpts directives file with
  | none => none
  | some (.error fault) => some (.error fault)
  | some (.ok payload) =>
    match payload.report.errors, payload.config with
    | err :: _, _ => some (.ok (.error err))
    | [], [] => some (.error .indexOutOfRange)
    | [], none :: _ => some (.error .nilDereference)
    | [], some main :: _ =>
      let out := build isPrint main.parsed 2 false
      some (.ok (.ok (if write then ([], writeFile sys.fs file out) else (out, sys.fs))))

/-- `parse` as `format` calls it finds no error, and this entry first. -/
def ParsesTo (fuel : Nat) (sys : System) (file : Text) (main : ParsingContext) : Prop :=
  ∃ payload, parse fuel sys formatOpts directives file = some (.ok payload) ∧
    payload.report.errors = [] ∧ payload.config.head? = some (some main)

variable {env : ParseEnv} {fs' : FileSystem}

/-- What `build` writes for these statements is read back: plain words and comments, none of them
at the end. -/
structure Formattable (isPrint : Char → Bool) (stmts : List Stmt) : Prop where
  noted : AllNoted isPrint stmts
  closed : endsInNote stmts = false

section
variable {isPrint : Char → Bool} {stmts : List Stmt}

/-- The lexer reads back the statements and the comments, two comments of one line as one. -/
theorem Formattable.returns (fine : Formattable isPrint stmts) :
    ∃ nodes, Returns (build isPrint stmts 2 false) none (flatten nodes) ∧
      sketch (written [] true nodes) = sketch (merge stmts) := by
  have noted := noted_merge stmts fine.noted
  have closed : ∀ last ∈ (merge stmts).getLast?, isNote last = false := by
    intro last mem
    have none := fine.closed
    rw [endsInNote, ← getLast_merge, mem] at none
    exact none
  obtain ⟨tokens, returns, keys⟩ := lex_notes 2 noted (apart_merge stmts) closed
  obtain ⟨nodes, rfl, sketched⟩ := exists_noted_nodes [] (merge stmts) noted tokens keys
  exact ⟨nodes, build_merge isPrint 2 stmts ▸ returns, sketched⟩

end

/-! ## The loop of the second run -/

/-- The files after formatting, with fuel for the lexer. -/
def rewritten (sys : System) (file out : Text) (lexFuel : Nat) : System :=
  { sys with fs := writeFile sys.fs file out, lexFuel := lexFuel }

/-- What an entry of the payload holds, but for comments, lines and indices. -/
def content (parsing : ParsingContext) : Text × Report × List Stmt :=
  (parsing.file, parsing.report, outline (strip parsing.parsed))

/-- The text is what `build` writes for the statements of the file, and the lexer has the fuel to
read it. -/
structure Rewrites (isPrint : Char → Bool) (sys : System) (opts : ParseOpts) (file : Text)
    (stmts : List Stmt) (out : Text) (nodes : List Node) (lexFuel : Nat) : Prop where
  reads : ReadsFile sys { opts with comments := true } file (bare stmts)
  fine : Formattable isPrint stmts
  lexed : lex lexFuel out file = some (.ok (flatten nodes))
  sketched : sketch (written [] true nodes) = sketch (merge stmts)
  more : sys.lexFuel ≤ lexFuel

section
variable {isPrint : Char → Bool} {sys : System} {opts : ParseOpts} {file out text : Text}
  {tokens rest : List Token} {stmts : List Stmt} {nodes : List Node} {lexFuel : Nat}
  {loop before after before' : Loop}

variable (quiet : QuietOpts opts) (lax : opts.checks.strict = false)
  (separate : opts.combine = false)
  (rewrites : Rewrites isPrint sys opts file stmts out nodes lexFuel)
include quiet lax separate rewrites

end

/-! ## The entry of the file itself -/

section
variable {isPrint : Char → Bool} {sys : System} {opts : ParseOpts} {table : Directives}
  {file : Text} {stmts : List Stmt} {loop : Loop}

theorem first_name (quiet : QuietOpts opts)
    (path : Reaches (loopStep sys opts) (parseStart table file) (.running loop)) :
    (Shared.names loop.shared)[0]? = some file := by
  refine run_induction (motive := fun loop => (Shared.names loop.shared)[0]? = some file)
    rfl ?_ path
  intro before after first round
  obtain ⟨f, st, entry, more, errors, -, adds, rfl⟩ := round_adds quiet round
  dsimp only
  rw [adds.names, List.getElem?_append_left (List.getElem?_eq_some_iff.mp first).1, first]

theorem reads_first (quiet : QuietOpts opts) (ends : Ends sys opts table file loop)
    {main : ParsingContext} (first : loop.config.head? = some (some main)) :
    ReadsFile sys (optsFor opts file) file (bare main.parsed) := by
  have quiet' : QuietOpts (optsFor opts file) := quiet
  have consistent := consistent_run quiet' ends.1 (consistent_start table file)
  rw [List.head?_eq_getElem?] at first
  obtain ⟨name, place, -, own⟩ := consistent.entries 0 _ first
  rw [first_name quiet' ends.1] at place
  cases place
  obtain ⟨before, stmts, after, reads, -, same⟩ :=
    consistent.numbered main (List.mem_of_getElem? first)
  obtain ⟨text, tokens, rest, opens, lexed, forest⟩ := reads
  rw [own] at opens lexed forest
  rw [same, bare_number, forest.bare_eq]
  exact ⟨text, tokens, rest, opens, lexed, forest⟩

/-! ## The second run as a whole -/

end

section
variable {sys : System} {file : Text} {main : ParsingContext} {fuel : Nat}

theorem ParsesTo.reads (parses : ParsesTo fuel sys file main) :
    ReadsFile sys (optsFor formatOpts file) file (bare main.parsed) := by
  obtain ⟨payload, parsed, -, first⟩ := parses
  obtain ⟨loop, ends, rfl⟩ := parseReturns_iff_ends.mp ⟨fuel, parsed⟩
  exact reads_first (fun _ => rfl) ends first

private def siteStmt (line : Nat) (directive : String) (args : List String) (includes : List Nat)
    (blocks : Option (List Stmt)) : Stmt :=
  ⟨directive.toList, [], line, args.map String.toList, [], includes, blocks⟩

end

end FormatCommand
