import Vince.ConfigAnalyze

/-!
# The configuration parser (`config_parse.go`)

`parseInternal` walks a shared token iterator; here it takes the tokens still to come and
returns those it left. What it changes through its pointers is `Shared`. The recursion is
by fuel, one unit per round of the loop; `parseTokens` gives enough of it. A nil token or
a missing first argument is a `Fault`: the program panics there.
-/

namespace ConfigParse

open GoText ConfigLex DirectiveTable ConfigAnalyze

inductive Fault where
  | nilDereference
  | indexOutOfRange
  | outOfFuel
  deriving DecidableEq, Repr

/-- `fs.Open` with the runes of the file, and `filepath.Glob`, which does not go through
the file system it is given. Errors are their texts. -/
structure FileSystem where
  openFile : Text → Except Text Text
  glob : Text → Except Text (List Text)

structure FileCtx where
  name : Text
  ctx : List Text

structure ParseOpts where
  ignore : Option (Text → Bool)
  single : Bool
  comments : Bool
  combine : Bool
  checks : Checks
  configDir : Text

def defaultParseOpts : ParseOpts where
  ignore := some (fun _ => false)
  single := false
  comments := false
  combine := false
  checks := ⟨false, true, true⟩
  configDir := []

inductive Status where
  | ok
  | failed
  deriving DecidableEq, Repr

/-- A status with the errors behind it, as a parsing context and a payload both have. -/
structure Report where
  status : Status
  errors : List ConfigError
  deriving DecidableEq, Repr

def Report.add (r : Report) (err : ConfigError) : Report := ⟨.failed, r.errors ++ [err]⟩

/-- What `parseInternal` changes: the directive table, the report of the file being parsed,
the report behind `opts.errHandler` (none when the handler is nil), and the work list. -/
structure Shared where
  table : Directives
  parsing : Report
  handler : Option Report
  includes : List FileCtx
  included : List (Text × Nat)

def Shared.handleErr (st : Shared) (err : ConfigError) : Shared :=
  { st with handler := st.handler.map (·.add err), parsing := st.parsing.add err }

/-- What stays fixed while one file is parsed. -/
structure ParseEnv where
  sprintf : Text → Text → Text
  fs : FileSystem
  opts : ParseOpts
  file : Text

def ParseEnv.ignored (env : ParseEnv) (directive : Text) : Bool :=
  match env.opts.ignore with
  | none => false
  | some ignore => ignore directive

/-- The `Filename` of a new statement. -/
def ParseEnv.filename (env : ParseEnv) : Text := if env.opts.combine then env.file else []

def checkTerminal (txt : Text) : Bool := txt = ['{'] || txt = [';'] || txt = ['}']

def inDirArgs (tok : Token) : Bool := !checkTerminal tok.text || tok.quote

def isComment (tok : Token) : Bool := tok.text.head? = some '#' && !tok.quote

def prepareIfArgs (args : List Text) : List Text :=
  match args.head?, args.getLast? with
  | some first, some last =>
    if first.head? = some '(' ∧ last.getLast? = some ')' then
      let args := args.modifyHead (trimLeft '(')
      let args := args.dropLast ++ (args.getLast?.map (trimRight ')')).toList
      args.filter (· ≠ [])
    else args
  | _, _ => args

def enterBlock (directive : Text) (ctx : List Text) : List Text :=
  if ctx.head? = some "http".toList ∧ directive = "location".toList then
    ["http".toList, "location".toList]
  else ctx ++ [directive]

/-- The argument loop: arguments, comments among them, the terminator and what follows. -/
def dirArgs : List Token → Except Fault (List Text × List Text × Token × List Token)
  | [] => .error .nilDereference
  | token :: tokens =>
    if inDirArgs token then
      match dirArgs tokens with
      | .error fault => .error fault
      | .ok (args, comments, rest) =>
        if isComment token then .ok (args, token.text.tail :: comments, rest)
        else .ok (token.text :: args, comments, rest)
    else .ok ([], [], token, tokens)

/-- The files an include pattern names, or the text of the error to report. -/
def resolve (env : ParseEnv) (pattern : Text) : Except Text (List Text) :=
  match env.fs.openFile pattern with
  | .ok _ => .ok [pattern]
  | .error _ =>
    let pattern :=
      if Filepath.isAbs pattern then pattern
      else Filepath.joinPath env.opts.configDir pattern
    if pattern.contains '*' then (env.fs.glob pattern).map sortStrings
    else match env.fs.openFile pattern with
      | .error message => .error message
      | .ok _ => env.fs.glob pattern

/-- The loop over the resolved names. Every name is appended, also one already listed. -/
def addIncludes (ctx : List Text) : List Text → Shared → List Nat × Shared
  | [], st => ([], st)
  | name :: names, st =>
    let included := (name, st.includes.length) :: st.included
    let st := { st with included := included, includes := st.includes ++ [⟨name, ctx⟩] }
    let (indices, st) := addIncludes ctx names st
    ((included.lookup name).getD 0 :: indices, st)

def isInclude (env : ParseEnv) (directive : Text) : Bool :=
  !env.opts.single && directive = "include".toList

/-- The include branch, if the statement takes it: the indices of the files it names. -/
def includeFiles (env : ParseEnv) (ctx : List Text) (stmt : Stmt) (st : Shared) :
    Except Fault (List Nat × Shared) :=
  if isInclude env stmt.directive then
    match stmt.args with
    | [] => .error .indexOutOfRange
    | pattern :: _ =>
      match resolve env pattern with
      | .error message => .ok ([], st.handleErr (.ngx ⟨message, stmt.line, env.file⟩))
      | .ok names => .ok (addIncludes ctx names st)
  else .ok ([], st)

/-- The statement as it stands after its arguments were read. -/
def newStmt (env : ParseEnv) (token : Token) (args : List Text) : Stmt where
  directive := token.text
  filename := env.filename
  line := token.line
  args := if token.text = "if".toList then prepareIfArgs args else args
  comment := []
  includes := []
  blocks := none

def commentStmt (env : ParseEnv) (token : Token) : Stmt where
  directive := ['#']
  filename := env.filename
  line := token.line
  args := []
  comment := token.text.tail
  includes := []
  blocks := none

/-- A comment found among the arguments of a statement on the given line. -/
def argComment (line : Nat) (comment : Text) : Stmt :=
  ⟨['#'], [], line, [], comment, [], none⟩

def report (st : Shared) : Option ConfigError → Shared
  | none => st
  | some err => st.handleErr err

/-- The state after `analyze` saw the statement. -/
def checked (env : ParseEnv) (ctx : List Text) (stmt : Stmt) (term : Token) (st : Shared) :
    Shared :=
  let (err, table) :=
    analyze env.sprintf st.table env.file stmt term.text ctx env.opts.checks
  report { st with table := table } err

def parseInternal (env : ParseEnv) : Nat → List Text → Bool → List Token → Shared →
    Except Fault (List Stmt × List Token × Shared)
  | 0, _, _, _, _ => .error .outOfFuel
  | _ + 1, _, _, [], st => .ok ([], [], st)
  | fuel + 1, ctx, consume, token :: tokens, st =>
    if token.is ['}'] then .ok ([], tokens, st)
    else if consume && token.is ['{'] then do
      let (_, tokens, st) ← parseInternal env fuel [] true tokens st
      parseInternal env fuel ctx consume tokens st
    else if isComment token then do
      let (parsed, tokens, st) ← parseInternal env fuel ctx consume tokens st
      .ok (if env.opts.comments then commentStmt env token :: parsed else parsed, tokens, st)
    else do
      let (args, comments, term, tokens) ← dirArgs tokens
      if env.ignored token.text then
        if term.is ['{'] then do
          let (_, tokens, st) ← parseInternal env fuel [] true tokens st
          parseInternal env fuel ctx consume tokens st
        else parseInternal env fuel ctx consume tokens st
      else do
        let stmt := newStmt env token args
        let st := checked env ctx stmt term st
        let (includes, st) ← includeFiles env ctx stmt st
        let (blocks, tokens, st) ← (if term.is ['{'] then do
            let (body, tokens, st) ←
              parseInternal env fuel (enterBlock stmt.directive ctx) false tokens st
            .ok (some body, tokens, st)
          else .ok (none, tokens, st))
        let (parsed, tokens, st) ← parseInternal env fuel ctx consume tokens st
        .ok ({ stmt with includes := includes, blocks := blocks } ::
          (comments.map (argComment stmt.line) ++ parsed), tokens, st)

/-- `parseInternal` on a fresh iterator, not consuming. -/
def parseTokens (env : ParseEnv) (ctx : List Text) (tokens : List Token) (st : Shared) :
    Except Fault (List Stmt × List Token × Shared) :=
  parseInternal env (tokens.length + 1) ctx false tokens st

/-- The result of a parse with the errors it reported. -/
def outcome (result : Except Fault (List Stmt × List Token × Shared)) :
    Except Fault (List Stmt × List Token × List ConfigError) :=
  result.map fun (parsed, rest, st) => (parsed, rest, st.parsing.errors)

theorem ok_of_outcome {result : Except Fault (List Stmt × List Token × Shared)}
    {parsed : List Stmt} {rest : List Token} {errors : List ConfigError}
    (same : outcome result = .ok (parsed, rest, errors)) :
    ∃ st, result = .ok (parsed, rest, st) ∧ st.parsing.errors = errors := by
  cases result with
  | error fault => cases same
  | ok value => cases same; exact ⟨value.2.2, rfl, rfl⟩

end ConfigParse
