import Vince.ConfigParse
import Vince.Effects

/-!
# What the parser reads, apart from what it checks

`Reads env tokens stmts rest` says what statements `parseInternal` finds in a token list and
where it stops, with no context, no directive table and no work list in it. The function
refines it: it returns exactly when the relation relates its tokens to something, with the
same statements up to their `Includes`, the same rest, and a work list extended by the
names of the files the statements include. The `Includes` are the places of these names on
the work list. Only options that ignore nothing are considered.
-/

namespace ParseReads

open GoText ConfigLex ConfigAnalyze ConfigParse
open Effects (bind_eq_ok)

variable {env : ParseEnv} {tokens after middle rest : List Token} {token term : Token}
  {args comments : List Text} {stmts inner parsed : List Stmt} {ctx : List Text}
  {fuel : Nat}

/-- No directive is ignored, as with `defaultParseOpts`. -/
def Quiet (env : ParseEnv) : Prop := ∀ directive, env.ignored directive = false

/-- A token that starts a statement. Terminals other than the closing brace do so too. -/
def Starts (token : Token) : Prop := token.is ['}'] = false ∧ isComment token = false

/-- The include branch has its first argument. -/
def HasPattern (env : ParseEnv) (stmt : Stmt) : Prop :=
  isInclude env stmt.directive = true → stmt.args ≠ []

mutual

def StmtPatterned (env : ParseEnv) : Stmt → Prop
  | ⟨directive, _, _, args, _, _, none⟩ => isInclude env directive = true → args ≠ []
  | ⟨directive, _, _, args, _, _, some body⟩ =>
    (isInclude env directive = true → args ≠ []) ∧ Patterned env body
termination_by structural stmt => stmt

/-- No include statement of the forest, at any depth, lacks its first argument. -/
def Patterned (env : ParseEnv) : List Stmt → Prop
  | [] => True
  | stmt :: rest => StmtPatterned env stmt ∧ Patterned env rest
termination_by structural stmts => stmts

end

inductive Reads (env : ParseEnv) : List Token → List Stmt → List Token → Prop
  | done : Reads env [] [] []
  | close {token : Token} {tokens : List Token} (closing : token.is ['}'] = true) :
      Reads env (token :: tokens) [] tokens
  | comment {token : Token} {tokens rest : List Token} {parsed : List Stmt}
      (found : isComment token = true) (tail : Reads env tokens parsed rest) :
      Reads env (token :: tokens)
        (if env.opts.comments then commentStmt env token :: parsed else parsed) rest
  | simple {token term : Token} {tokens after rest : List Token} {args comments : List Text}
      {parsed : List Stmt} (starts : Starts token)
      (arguments : dirArgs tokens = .ok (args, comments, term, after))
      (pattern : HasPattern env (newStmt env token args)) (ended : term.is ['{'] = false)
      (tail : Reads env after parsed rest) :
      Reads env (token :: tokens)
        (newStmt env token args :: (comments.map (argComment token.line) ++ parsed)) rest
  | block {token term : Token} {tokens after middle rest : List Token}
      {args comments : List Text} {inner parsed : List Stmt} (starts : Starts token)
      (arguments : dirArgs tokens = .ok (args, comments, term, after))
      (pattern : HasPattern env (newStmt env token args)) (opened : term.is ['{'] = true)
      (body : Reads env after inner middle) (tail : Reads env middle parsed rest) :
      Reads env (token :: tokens)
        ({ newStmt env token args with blocks := some inner } ::
          (comments.map (argComment token.line) ++ parsed)) rest

theorem stmtPatterned_iff (stmt : Stmt) : StmtPatterned env stmt ↔
    HasPattern env stmt ∧ ∀ body, stmt.blocks = some body → Patterned env body := by
  rcases stmt with ⟨_, _, _, _, _, _, _ | body⟩ <;> simp [StmtPatterned, HasPattern]

theorem patterned_append (first second : List Stmt) :
    Patterned env (first ++ second) ↔ Patterned env first ∧ Patterned env second := by
  induction first with
  | nil => simp [Patterned]
  | cons stmt first ih => simp [Patterned, ih, and_assoc]

theorem patterned_single (single : env.opts.single = true) (stmts : List Stmt) :
    Patterned env stmts := by
  induction stmts using Stmt.forest_induction with
  | nil => trivial
  | cons stmt rest inner ih =>
    refine ⟨(stmtPatterned_iff stmt).mpr ⟨fun active => ?_, inner⟩, ih⟩
    simp [isInclude, single] at active

/-- The words and the comments among argument tokens. -/
def words (front : List Token) : List Text :=
  (front.filter (fun token => !isComment token)).map (·.text)

def remarks (front : List Token) : List Text :=
  (front.filter isComment).map (·.text.tail)

theorem dirArgs_append {front : List Token} (arguments : ∀ token ∈ front, inDirArgs token = true)
    (stop : inDirArgs term = false) :
    dirArgs (front ++ term :: after) = .ok (words front, remarks front, term, after) := by
  induction front with
  | nil => simp [dirArgs, stop, words, remarks]
  | cons token front ih =>
    have first : inDirArgs token = true := arguments token (by simp)
    have others := ih fun other mem => arguments other (by simp [mem])
    rw [List.cons_append, dirArgs, if_pos first, others]
    by_cases found : isComment token = true <;> simp [found, words, remarks]

/-- `dirArgs` succeeds exactly on argument tokens followed by a terminal. -/
theorem dirArgs_ok (found : dirArgs tokens = .ok (args, comments, term, after)) :
    ∃ front, tokens = front ++ term :: after ∧ (∀ token ∈ front, inDirArgs token = true) ∧
      inDirArgs term = false ∧ args = words front ∧ comments = remarks front := by
  induction tokens generalizing args comments with
  | nil => cases found
  | cons token tokens ih =>
    by_cases first : inDirArgs token = true
    · have found' := found
      rw [dirArgs, if_pos first] at found'
      cases inner : dirArgs tokens with
      | error fault => simp [inner] at found'
      | ok result =>
        obtain ⟨args', comments', term', after'⟩ := result
        have same : term' = term ∧ after' = after := by
          rw [inner] at found'
          dsimp only at found'
          split at found' <;> cases found' <;> exact ⟨rfl, rfl⟩
        obtain ⟨rfl, rfl⟩ := same
        obtain ⟨front, rfl, arguments, stop, -⟩ := ih inner
        have arguments' : ∀ other ∈ token :: front, inDirArgs other = true := by
          simpa using ⟨first, arguments⟩
        rw [← List.cons_append, dirArgs_append arguments' stop] at found
        cases found
        exact ⟨token :: front, rfl, arguments', stop, rfl, rfl⟩
    · have stop : inDirArgs token = false := by simpa using first
      rw [dirArgs, if_neg first] at found
      cases found
      exact ⟨[], rfl, by simp, stop, rfl, rfl⟩

theorem dirArgs_shorter (found : dirArgs tokens = .ok (args, comments, term, after)) :
    after.length < tokens.length := by
  obtain ⟨front, rfl, -⟩ := dirArgs_ok found
  simp only [List.length_append, List.length_cons]
  omega

theorem Reads.shorter (reads : Reads env tokens stmts rest) : rest.length ≤ tokens.length := by
  induction reads with
  | done => exact Nat.le_refl _
  | close closing => simp
  | comment found tail ih => simp only [List.length_cons]; omega
  | simple starts arguments pattern ended tail ih =>
    have := dirArgs_shorter arguments
    simp only [List.length_cons]
    omega
  | block starts arguments pattern opened body tail ihBody ihTail =>
    have := dirArgs_shorter arguments
    simp only [List.length_cons]
    omega

/-! ## Statements without their `Includes` -/

mutual

def bareStmt : Stmt → Stmt
  | ⟨directive, filename, line, args, comment, _, none⟩ =>
    ⟨directive, filename, line, args, comment, [], none⟩
  | ⟨directive, filename, line, args, comment, _, some body⟩ =>
    ⟨directive, filename, line, args, comment, [], some (bare body)⟩
termination_by structural stmt => stmt

def bare : List Stmt → List Stmt
  | [] => []
  | stmt :: rest => bareStmt stmt :: bare rest
termination_by structural stmts => stmts

end

theorem bareStmt_eq (stmt : Stmt) :
    bareStmt stmt = { stmt with includes := [], blocks := stmt.blocks.map bare } := by
  rcases stmt with ⟨_, _, _, _, _, _, _ | body⟩ <;> simp [bareStmt]

/-- The files one statement adds to the work list. -/
def named (env : ParseEnv) (directive : Text) (args : List Text) : List Text :=
  if isInclude env directive then
    match args with
    | [] => []
    | pattern :: _ => match resolve env pattern with
      | .error _ => []
      | .ok names => names
  else []

mutual

/-- The files a forest adds to the work list, a statement's own before those of its block. -/
def includeNames (env : ParseEnv) : List Stmt → List Text
  | [] => []
  | stmt :: rest => stmtNames env stmt ++ includeNames env rest
termination_by structural stmts => stmts

def stmtNames (env : ParseEnv) : Stmt → List Text
  | ⟨directive, _, _, args, _, _, none⟩ => named env directive args
  | ⟨directive, _, _, args, _, _, some body⟩ =>
    named env directive args ++ includeNames env body
termination_by structural stmt => stmt

end

theorem stmtNames_eq (stmt : Stmt) :
    stmtNames env stmt = named env stmt.directive stmt.args ++
      ((stmt.blocks.map (includeNames env)).getD []) := by
  rcases stmt with ⟨_, _, _, _, _, _, _ | body⟩ <;> simp [stmtNames]

def Shared.names (st : Shared) : List Text := st.includes.map (·.name)

theorem length_names (st : Shared) : (Shared.names st).length = st.includes.length :=
  List.length_map _

mutual

/-- A statement with the places of the files it adds to the work list, from `k` on. -/
def numberStmt (env : ParseEnv) : Nat → Stmt → Stmt
  | k, ⟨directive, filename, line, args, comment, _, none⟩ =>
    ⟨directive, filename, line, args, comment,
      List.range' k (named env directive args).length, none⟩
  | k, ⟨directive, filename, line, args, comment, _, some body⟩ =>
    ⟨directive, filename, line, args, comment,
      List.range' k (named env directive args).length,
      some (number env (k + (named env directive args).length) body)⟩
termination_by structural _ stmt => stmt

def number (env : ParseEnv) : Nat → List Stmt → List Stmt
  | _, [] => []
  | k, stmt :: rest => numberStmt env k stmt :: number env (k + (stmtNames env stmt).length) rest
termination_by structural _ stmts => stmts

end

theorem numberStmt_eq (k : Nat) (stmt : Stmt) : numberStmt env k stmt =
    { stmt with
      includes := List.range' k (named env stmt.directive stmt.args).length
      blocks := stmt.blocks.map
        (number env (k + (named env stmt.directive stmt.args).length)) } := by
  rcases stmt with ⟨_, _, _, _, _, _, _ | body⟩ <;> simp [numberStmt]

theorem bare_number (k : Nat) (stmts : List Stmt) : bare (number env k stmts) = bare stmts := by
  induction stmts using Stmt.forest_induction generalizing k with
  | nil => rfl
  | cons stmt rest body tail =>
    rw [number, bare, bare, tail, numberStmt_eq, bareStmt_eq, bareStmt_eq]
    cases blocks : stmt.blocks with
    | none => rfl
    | some list => simp only [Option.map_some, body list blocks]

/-- Where includes are not followed, nothing is numbered. -/
theorem number_single (single : env.opts.single = true) (k : Nat) (stmts : List Stmt) :
    number env k stmts = bare stmts := by
  have none (directive : Text) (args : List Text) : named env directive args = [] := by
    simp [named, isInclude, single]
  induction stmts using Stmt.forest_induction generalizing k with
  | nil => rfl
  | cons stmt rest body tail =>
    rw [number, bare, tail, numberStmt_eq, bareStmt_eq, none]
    cases blocks : stmt.blocks with
    | none => rfl
    | some list => simp [body list blocks]

theorem bare_comments (line : Nat) (comments : List Text) (parsed : List Stmt) :
    bare (comments.map (argComment line) ++ parsed) =
      comments.map (argComment line) ++ bare parsed := by
  induction comments with
  | nil => rfl
  | cons comment comments ih => simp [argComment, bare, bareStmt, ih]

theorem named_comment : named env ['#'] [] = [] := by
  simp [named, isInclude]

theorem includeNames_comments (line : Nat) (comments : List Text) (parsed : List Stmt) :
    includeNames env (comments.map (argComment line) ++ parsed) = includeNames env parsed := by
  induction comments with
  | nil => rfl
  | cons comment comments ih => simp [argComment, includeNames, stmtNames, named_comment, ih]

theorem number_comments (k line : Nat) (comments : List Text) (parsed : List Stmt) :
    number env k (comments.map (argComment line) ++ parsed) =
      comments.map (argComment line) ++ number env k parsed := by
  induction comments with
  | nil => rfl
  | cons comment comments ih => simp [argComment, number, numberStmt, stmtNames, named_comment, ih]

theorem addIncludes_indices (names : List Text) (st : Shared) :
    (addIncludes ctx names st).1 = List.range' st.includes.length names.length := by
  induction names generalizing st with
  | nil => rfl
  | cons name names ih =>
    rw [addIncludes]
    simp [ih, List.range'_succ]

theorem addIncludes_names (names : List Text) (st : Shared) :
    Shared.names (addIncludes ctx names st).2 = Shared.names st ++ names := by
  induction names generalizing st with
  | nil => simp [addIncludes]
  | cons name names ih =>
    rw [addIncludes]
    simp only [ih]
    simp [Shared.names]

theorem checked_names (stmt : Stmt) (st : Shared) :
    Shared.names (checked env ctx stmt term st) = Shared.names st := by
  simp only [checked]
  cases (analyze env.sprintf st.table env.file stmt term.text ctx env.opts.checks).1 <;> rfl

/-! ## Errors -/

def addAll (r : Report) (errors : List ConfigError) : Report := errors.foldl Report.add r

/-- Between two states some errors were reported, to the file's report and to the handler. -/
def Reports (st st' : Shared) : Prop :=
  ∃ errors, st'.parsing = addAll st.parsing errors ∧ st'.handler = st.handler.map (addAll · errors)

theorem Reports.of_eq {st st' : Shared} (parsing : st'.parsing = st.parsing)
    (handler : st'.handler = st.handler) : Reports st st' :=
  ⟨[], parsing, by simp [handler, addAll]⟩

theorem Reports.trans {st st₁ st₂ : Shared} (first : Reports st st₁) (second : Reports st₁ st₂) :
    Reports st st₂ := by
  obtain ⟨errors, parsing, handler⟩ := first
  obtain ⟨errors', parsing', handler'⟩ := second
  refine ⟨errors ++ errors', ?_, ?_⟩
  · simp [parsing', parsing, addAll]
  · simp [handler', handler, addAll, Function.comp_def]

theorem reports_handleErr (st : Shared) (err : ConfigError) : Reports st (st.handleErr err) :=
  ⟨[err], rfl, rfl⟩

theorem reports_checked (stmt : Stmt) (st : Shared) :
    Reports st (checked env ctx stmt term st) := by
  simp only [checked]
  cases (analyze env.sprintf st.table env.file stmt term.text ctx env.opts.checks).1 with
  | none => exact .of_eq rfl rfl
  | some err => exact reports_handleErr _ err

theorem reports_addIncludes (names : List Text) (st : Shared) :
    Reports st (addIncludes ctx names st).2 := by
  induction names generalizing st with
  | nil => exact .of_eq rfl rfl
  | cons name names ih => exact (Reports.of_eq rfl rfl).trans (ih _)

/-- What the include branch does: the indices are the places of the names it appends. -/
structure Appends (env : ParseEnv) (stmt : Stmt) (indices : List Nat) (st st' : Shared) :
    Prop where
  indices_eq : indices =
    List.range' st.includes.length (named env stmt.directive stmt.args).length
  names_eq : Shared.names st' = Shared.names st ++ named env stmt.directive stmt.args
  reports : Reports st st'

theorem includeFiles_ok (stmt : Stmt) (pattern : HasPattern env stmt) (st : Shared) :
    ∃ indices st', includeFiles env ctx stmt st = .ok (indices, st') ∧
      Appends env stmt indices st st' := by
  by_cases active : isInclude env stmt.directive = true
  · cases shape : stmt.args with
    | nil => exact absurd shape (pattern active)
    | cons name others =>
      cases resolved : resolve env name with
      | error message =>
        have nothing : named env stmt.directive stmt.args = [] := by
          simp [named, active, shape, resolved]
        refine ⟨[], st.handleErr (.ngx ⟨message, stmt.line, env.file⟩), ?_, ?_, ?_, ?_⟩
        · simp only [includeFiles, shape, active, if_true, resolved]
        · rw [nothing]
          rfl
        · rw [nothing, List.append_nil]
          rfl
        · exact reports_handleErr st _
      | ok names =>
        have found : named env stmt.directive stmt.args = names := by
          simp [named, active, shape, resolved]
        refine ⟨(addIncludes ctx names st).1, (addIncludes ctx names st).2, ?_, ?_, ?_, ?_⟩
        · simp only [includeFiles, shape, active, if_true, resolved]
        · rw [found]
          exact addIncludes_indices names st
        · rw [found]
          exact addIncludes_names names st
        · exact reports_addIncludes names st
  · have nothing : named env stmt.directive stmt.args = [] := by simp [named, active]
    refine ⟨[], st, if_neg active, ?_, ?_, .of_eq rfl rfl⟩
    · rw [nothing]
      rfl
    · rw [nothing, List.append_nil]

theorem includeFiles_checked (stmt : Stmt) (pattern : HasPattern env stmt) (ctx : List Text)
    (term : Token) (st : Shared) :
    ∃ indices st', includeFiles env ctx stmt (checked env ctx stmt term st) = .ok (indices, st') ∧
      Appends env stmt indices st st' := by
  obtain ⟨indices, st', run, appends⟩ :=
    includeFiles_ok stmt pattern (checked env ctx stmt term st)
  have names : Shared.names (checked env ctx stmt term st) = Shared.names st :=
    checked_names stmt st
  refine ⟨indices, st', run, ?_, ?_, (reports_checked stmt st).trans appends.reports⟩
  · rw [appends.indices_eq, ← length_names, ← length_names, names]
  · rw [appends.names_eq, names]

theorem includeFiles_error (stmt : Stmt) (missing : ¬ HasPattern env stmt) (st : Shared) :
    includeFiles env ctx stmt st = .error .indexOutOfRange := by
  obtain ⟨active, empty⟩ : isInclude env stmt.directive = true ∧ stmt.args = [] := by
    simpa [HasPattern] using missing
  simp only [includeFiles, if_pos active, empty]

/-! ## The function refines the relation -/

theorem isComment_not_is (found : isComment token = true) : token.is ['}'] = false := by
  by_contra closing
  have text : token.text = ['}'] := by simp_all [Token.is]
  simp [isComment, text] at found

theorem parse_comment (found : isComment token = true) (st : Shared) :
    parseInternal env (fuel + 1) ctx false (token :: tokens) st = (do
      let (parsed, tokens, st) ← parseInternal env fuel ctx false tokens st
      .ok (if env.opts.comments then commentStmt env token :: parsed else parsed,
        tokens, st)) := by
  rw [parseInternal, if_neg (by simp [isComment_not_is found]), if_neg (by simp), if_pos found]

/-- What the parser does with the tokens of a directive, once its arguments are read. -/
theorem parse_directive {consume : Bool} (starts : Starts token)
    (plain : (consume && token.is ['{']) = false)
    (arguments : dirArgs tokens = .ok (args, comments, term, after)) (st : Shared) :
    parseInternal env (fuel + 1) ctx consume (token :: tokens) st =
      if env.ignored token.text then
        if term.is ['{'] then do
          let (_, tokens, st) ← parseInternal env fuel [] true after st
          parseInternal env fuel ctx consume tokens st
        else parseInternal env fuel ctx consume after st
      else (do
        let stmt := newStmt env token args
        let (includes, st) ← includeFiles env ctx stmt (checked env ctx stmt term st)
        let (blocks, tokens, st) ← (if term.is ['{'] then do
            let (body, tokens, st) ←
              parseInternal env fuel (enterBlock stmt.directive ctx) false after st
            .ok (some body, tokens, st)
          else .ok (none, after, st))
        let (parsed, tokens, st) ← parseInternal env fuel ctx consume tokens st
        .ok ({ stmt with includes := includes, blocks := blocks } ::
          (comments.map (argComment stmt.line) ++ parsed), tokens, st)) := by
  obtain ⟨notClosing, notComment⟩ := starts
  rw [parseInternal, if_neg (by simp [notClosing]), if_neg (by simp [plain]),
    if_neg (by simp [notComment]), arguments]
  rfl

/-- The same where nothing is ignored. -/
theorem parse_starts (quiet : Quiet env) (starts : Starts token)
    (arguments : dirArgs tokens = .ok (args, comments, term, after)) (st : Shared) :
    parseInternal env (fuel + 1) ctx false (token :: tokens) st = (do
      let stmt := newStmt env token args
      let (includes, st) ← includeFiles env ctx stmt (checked env ctx stmt term st)
      let (blocks, tokens, st) ← (if term.is ['{'] then do
          let (body, tokens, st) ←
            parseInternal env fuel (enterBlock stmt.directive ctx) false after st
          .ok (some body, tokens, st)
        else .ok (none, after, st))
      let (parsed, tokens, st) ← parseInternal env fuel ctx false tokens st
      .ok ({ stmt with includes := includes, blocks := blocks } ::
        (comments.map (argComment stmt.line) ++ parsed), tokens, st)) := by
  rw [parse_directive starts rfl arguments, if_neg (by simp [quiet token.text])]

/-- What the parser returns and leaves, for the statements of the relation. -/
structure Numbers (env : ParseEnv) (parsed stmts : List Stmt) (st st' : Shared) : Prop where
  parsed_eq : parsed = number env st.includes.length stmts
  names_eq : Shared.names st' = Shared.names st ++ includeNames env stmts
  reports : Reports st st'

theorem Numbers.nil (st : Shared) : Numbers env [] [] st st where
  parsed_eq := rfl
  names_eq := by simp [includeNames]
  reports := .of_eq rfl rfl

theorem Numbers.comment {st st' : Shared} (tail : Numbers env parsed stmts st st') :
    Numbers env (if env.opts.comments then commentStmt env token :: parsed else parsed)
      (if env.opts.comments then commentStmt env token :: stmts else stmts) st st' := by
  split
  · have silent : named env ['#'] [] = [] := by simp [named, isInclude]
    refine ⟨?_, ?_, tail.reports⟩
    · simp [commentStmt, number, numberStmt, stmtNames, silent, tail.parsed_eq]
    · simp [commentStmt, includeNames, stmtNames, silent, tail.names_eq]
  · exact tail

/-- The same for a statement, from its block (if any) and what follows. -/
theorem Numbers.stmt {st st₁ st₂ st₃ : Shared} {stmt : Stmt} {indices : List Nat}
    {blocks : Option (List Stmt)} (read : Option (List Stmt)) (line : Nat)
    (appends : Appends env stmt indices st st₁)
    (blocks_eq : blocks = read.map (number env st₁.includes.length))
    (body : Shared.names st₂ = Shared.names st₁ ++ (read.map (includeNames env)).getD [])
    (reported : Reports st₁ st₂) (tail : Numbers env parsed stmts st₂ st₃) :
    Numbers env ({ stmt with includes := indices, blocks := blocks } ::
        (comments.map (argComment line) ++ parsed))
      ({ stmt with blocks := read } :: (comments.map (argComment line) ++ stmts)) st st₃ := by
  have grown : Shared.names st₂ =
      Shared.names st ++ stmtNames env { stmt with blocks := read } := by
    rw [body, appends.names_eq, stmtNames_eq, List.append_assoc]
  have place₁ := congrArg List.length appends.names_eq
  have place₂ := congrArg List.length grown
  rw [List.length_append, length_names, length_names] at place₁ place₂
  refine ⟨?_, ?_, (appends.reports.trans reported).trans tail.reports⟩
  · rw [number, numberStmt_eq, number_comments, tail.parsed_eq, place₂, blocks_eq, place₁,
      appends.indices_eq]
  · rw [tail.names_eq, includeNames, includeNames_comments, grown, List.append_assoc]

theorem parse_numbers (quiet : Quiet env) (reads : Reads env tokens stmts rest) :
    ∀ fuel ctx st, tokens.length < fuel →
      ∃ parsed st', parseInternal env fuel ctx false tokens st = .ok (parsed, rest, st') ∧
        Numbers env parsed stmts st st' := by
  induction reads with
  | done =>
    rintro (_ | fuel) ctx st enough
    · cases enough
    · exact ⟨[], st, rfl, .nil st⟩
  | close closing =>
    rintro (_ | fuel) ctx st enough
    · cases enough
    · exact ⟨[], st, by rw [parseInternal, if_pos closing], .nil st⟩
  | comment found tail ih =>
    rintro (_ | fuel) ctx st enough
    · cases enough
    · obtain ⟨parsed, st', parse, numbers⟩ := ih fuel ctx st (by simpa using enough)
      exact ⟨_, st', by rw [parse_comment found, parse]; rfl, numbers.comment⟩
  | @simple token term tokens after rest args comments stmts starts arguments pattern ended
      tail ih =>
    rintro (_ | fuel) ctx st enough
    · cases enough
    · have shorter := dirArgs_shorter arguments
      simp only [List.length_cons] at enough
      obtain ⟨indices, st₁, followed, appends⟩ := includeFiles_checked _ pattern ctx term st
      obtain ⟨parsed, st₂, parse, numbers⟩ := ih fuel ctx st₁ (by omega)
      refine ⟨_, st₂, ?_, numbers.stmt none _ appends rfl (by simp) (.of_eq rfl rfl)⟩
      rw [parse_starts quiet starts arguments]
      simp only [bind, Except.bind, followed, ended, Bool.false_eq_true, if_false, parse]
      rfl
  | @block token term tokens after middle rest args comments inner stmts starts arguments pattern
      opened body tail ihBody ihTail =>
    rintro (_ | fuel) ctx st enough
    · cases enough
    · have shorter := dirArgs_shorter arguments
      have shorter' := body.shorter
      simp only [List.length_cons] at enough
      obtain ⟨indices, st₁, followed, appends⟩ := includeFiles_checked _ pattern ctx term st
      obtain ⟨inner', st₂, parseBody, numbersBody⟩ :=
        ihBody fuel (enterBlock (newStmt env token args).directive ctx) st₁ (by omega)
      obtain ⟨parsed, st₃, parse, numbers⟩ := ihTail fuel ctx st₂ (by omega)
      refine ⟨_, st₃, ?_, numbers.stmt (some inner) _ appends
        (congrArg some numbersBody.parsed_eq) numbersBody.names_eq numbersBody.reports⟩
      rw [parse_starts quiet starts arguments]
      simp only [bind, Except.bind, followed, opened, if_true, parseBody, parse]
      rfl

/-- The relation speaks of statements without `Includes`. -/
theorem Reads.bare_eq (reads : Reads env tokens stmts rest) : bare stmts = stmts := by
  induction reads with
  | done => rfl
  | close closing => rfl
  | comment found tail ih =>
    split
    · simp [commentStmt, bare, bareStmt, ih]
    · exact ih
  | simple starts arguments pattern ended tail ih =>
    rw [bare, bare_comments, ih]
    rfl
  | block starts arguments pattern opened body tail ihBody ihTail =>
    rw [bare, bare_comments, ihTail, bareStmt_eq]
    simp only [Option.map_some, ihBody]
    rfl

/-- The parser's result next to what the relation says. -/
structure Agrees (env : ParseEnv) (parsed stmts : List Stmt) (st st' : Shared) : Prop where
  bare_eq : bare parsed = stmts
  single_eq : env.opts.single = true → parsed = stmts
  names_eq : Shared.names st' = Shared.names st ++ includeNames env stmts

theorem Numbers.agrees {st st' : Shared} (numbers : Numbers env parsed stmts st st')
    (reads : Reads env tokens stmts rest) : Agrees env parsed stmts st st' := by
  refine ⟨?_, ?_, numbers.names_eq⟩
  · rw [numbers.parsed_eq, bare_number, reads.bare_eq]
  · intro single
    rw [numbers.parsed_eq, number_single single, reads.bare_eq]

theorem parse_of_reads (quiet : Quiet env) (reads : Reads env tokens stmts rest) :
    ∀ fuel ctx st, tokens.length < fuel →
      ∃ parsed st', parseInternal env fuel ctx false tokens st = .ok (parsed, rest, st') ∧
        Agrees env parsed stmts st st' := by
  intro fuel ctx st enough
  obtain ⟨parsed, st', parse, numbers⟩ := parse_numbers quiet reads fuel ctx st enough
  exact ⟨parsed, st', parse, numbers.agrees reads⟩

/-- Where the parser returns, the relation relates its tokens to the same rest. -/
theorem reads_of_parse (quiet : Quiet env) {st st' : Shared}
    (parse : parseInternal env fuel ctx false tokens st = .ok (parsed, rest, st')) :
    ∃ stmts, Reads env tokens stmts rest := by
  induction fuel generalizing ctx tokens st parsed rest st' with
  | zero => cases parse
  | succ fuel ih =>
    cases tokens with
    | nil => cases parse; exact ⟨[], .done⟩
    | cons token tokens =>
      by_cases closing : token.is ['}'] = true
      · rw [parseInternal, if_pos closing] at parse
        cases parse
        exact ⟨[], .close closing⟩
      by_cases found : isComment token = true
      · rw [parse_comment found] at parse
        obtain ⟨⟨parsed', rest', st₁⟩, tail, result⟩ := bind_eq_ok parse
        cases result
        obtain ⟨stmts, reads⟩ := ih tail
        exact ⟨_, .comment found reads⟩
      have starts : Starts token := ⟨by simpa using closing, by simpa using found⟩
      cases arguments : dirArgs tokens with
      | error fault =>
        rw [parseInternal, if_neg closing, if_neg (by simp), if_neg found, arguments] at parse
        cases parse
      | ok result =>
        obtain ⟨args, comments, term, after⟩ := result
        rw [parse_starts quiet starts arguments] at parse
        obtain ⟨⟨indices, st₁⟩, followed, parse⟩ := bind_eq_ok parse
        have pattern : HasPattern env (newStmt env token args) := by
          by_contra missing
          rw [includeFiles_error _ missing] at followed
          cases followed
        obtain ⟨⟨blocks, middle, st₂⟩, body, parse⟩ := bind_eq_ok parse
        obtain ⟨⟨parsed', rest', st₃⟩, tail, result⟩ := bind_eq_ok parse
        cases result
        obtain ⟨stmts, reads⟩ := ih tail
        by_cases opened : term.is ['{'] = true
        · rw [if_pos opened] at body
          obtain ⟨⟨inner, middle', st₂'⟩, body, result⟩ := bind_eq_ok body
          cases result
          obtain ⟨inner', readsBody⟩ := ih body
          exact ⟨_, .block starts arguments pattern opened readsBody reads⟩
        · rw [if_neg opened] at body
          cases body
          exact ⟨_, .simple starts arguments pattern (by simpa using opened) reads⟩

theorem bind_eq_error {α β : Type} {value : Except Fault α} {next : α → Except Fault β}
    {fault : Fault} (run : value >>= next = .error fault) :
    value = .error fault ∨ ∃ produced, value = .ok produced ∧ next produced = .error fault := by
  cases value with
  | error other => cases run; exact .inl rfl
  | ok produced => exact .inr ⟨produced, rfl, run⟩

theorem dirArgs_error {fault : Fault} (failed : dirArgs tokens = .error fault) :
    fault = .nilDereference := by
  induction tokens with
  | nil => cases failed; rfl
  | cons token tokens ih =>
    rw [dirArgs] at failed
    split at failed
    · split at failed
      · rename_i inner
        cases failed
        exact ih inner
      · split at failed <;> cases failed
    · cases failed

/-- One unit of fuel per token and one more is enough: the parser then ends by itself, be it
in a panic. -/
theorem parse_error_ne_outOfFuel (quiet : Quiet env) {fault : Fault} {st : Shared}
    (enough : tokens.length < fuel)
    (failed : parseInternal env fuel ctx false tokens st = .error fault) : fault ≠ .outOfFuel := by
  induction fuel generalizing ctx tokens st with
  | zero => cases enough
  | succ fuel ih =>
    cases tokens with
    | nil => cases failed
    | cons token tokens =>
      simp only [List.length_cons] at enough
      by_cases closing : token.is ['}'] = true
      · rw [parseInternal, if_pos closing] at failed
        cases failed
      by_cases found : isComment token = true
      · rw [parse_comment found] at failed
        rcases bind_eq_error failed with tail | ⟨_, _, impossible⟩
        · exact ih (by omega) tail
        · cases impossible
      have starts : Starts token := ⟨by simpa using closing, by simpa using found⟩
      cases arguments : dirArgs tokens with
      | error other =>
        rw [parseInternal, if_neg closing, if_neg (by simp), if_neg found, arguments] at failed
        cases failed
        simp [dirArgs_error arguments]
      | ok result =>
        obtain ⟨args, comments, term, after⟩ := result
        have shorter := dirArgs_shorter arguments
        rw [parse_starts quiet starts arguments] at failed
        rcases bind_eq_error failed with followed | ⟨⟨indices, st₁⟩, -, failed⟩
        · by_cases pattern : HasPattern env (newStmt env token args)
          · obtain ⟨_, _, followed', -⟩ := includeFiles_checked _ pattern ctx term st
            cases followed'.symm.trans followed
          · cases (includeFiles_error _ pattern _).symm.trans followed
            simp
        rcases bind_eq_error failed with body | ⟨⟨blocks, middle, st₂⟩, body, failed⟩
        · by_cases opened : term.is ['{'] = true
          · rw [if_pos opened] at body
            rcases bind_eq_error body with inner | ⟨_, _, impossible⟩
            · exact ih (by omega) inner
            · cases impossible
          · rw [if_neg opened] at body
            cases body
        · have left : middle.length ≤ after.length := by
            by_cases opened : term.is ['{'] = true
            · rw [if_pos opened] at body
              obtain ⟨_, inner, result⟩ := bind_eq_ok body
              cases result
              obtain ⟨_, reads⟩ := reads_of_parse quiet inner
              exact reads.shorter
            · rw [if_neg opened] at body
              cases body
              exact Nat.le_refl _
          rcases bind_eq_error failed with tail | ⟨_, _, impossible⟩
          · exact ih (by omega) tail
          · cases impossible

/-- The whole of the refinement: with fuel for its tokens, the parser returns exactly where
the relation says so, and with what it says. -/
theorem parseTokens_ok_iff (quiet : Quiet env) (ctx : List Text) (st : Shared) :
    (∃ parsed st', parseTokens env ctx tokens st = .ok (parsed, rest, st')) ↔
      ∃ stmts, Reads env tokens stmts rest := by
  constructor
  · rintro ⟨parsed, st', parse⟩
    exact reads_of_parse quiet parse
  · rintro ⟨stmts, reads⟩
    obtain ⟨parsed, st', parse, -⟩ := parse_of_reads quiet reads _ ctx st (Nat.lt_succ_self _)
    exact ⟨parsed, st', parse⟩

/-- What a returning parse has to do with the relation. -/
theorem parseTokens_numbers (quiet : Quiet env) {st st' : Shared}
    (parse : parseTokens env ctx tokens st = .ok (parsed, rest, st')) :
    ∃ stmts, Reads env tokens stmts rest ∧ Numbers env parsed stmts st st' := by
  obtain ⟨stmts, reads⟩ := reads_of_parse quiet parse
  obtain ⟨parsed', st₁, again, numbers⟩ :=
    parse_numbers quiet reads _ ctx st (Nat.lt_succ_self _)
  rw [parseTokens, again] at parse
  cases parse
  exact ⟨stmts, reads, numbers⟩

theorem parseTokens_agrees (quiet : Quiet env) {st st' : Shared}
    (parse : parseTokens env ctx tokens st = .ok (parsed, rest, st')) :
    ∃ stmts, Reads env tokens stmts rest ∧ Agrees env parsed stmts st st' := by
  obtain ⟨stmts, reads, numbers⟩ := parseTokens_numbers quiet parse
  exact ⟨stmts, reads, numbers.agrees reads⟩

/-- Two readings of the same tokens are the same reading. -/
theorem Reads.unique {stmts' : List Stmt} {rest' : List Token} (quiet : Quiet env)
    (first : Reads env tokens stmts rest) (second : Reads env tokens stmts' rest') :
    stmts = stmts' ∧ rest = rest' := by
  have st : Shared := ⟨[], ⟨.ok, []⟩, none, [], []⟩
  obtain ⟨parsed, st₁, parse, agrees⟩ := parse_of_reads quiet first _ [] st (Nat.lt_succ_self _)
  obtain ⟨parsed', st₂, parse', agrees'⟩ := parse_of_reads quiet second _ [] st (Nat.lt_succ_self _)
  rw [parse] at parse'
  cases parse'
  exact ⟨agrees.bare_eq.symm.trans agrees'.bare_eq, rfl⟩

end ParseReads
