import Vince.ParseReads

/-!
# Parser completeness

A configuration written by the grammar `directive token, argument tokens, then ; or { block }`
with comments anywhere is a list of `Node`s. Its word and comment tokens carry the proof that
they are such, so a node cannot be built from a stray terminal. Reading `flatten forest` gives
back `written forest`: comments between statements at their place, comments among arguments
after their statement. This says nothing yet about token lists that are not of this form.
-/

namespace ParseForest

open GoText ConfigLex ConfigAnalyze ConfigParse ParseReads

/-- A token the grammar allows as a directive or an argument. -/
abbrev WordToken := { token : Token //
  token.quote = true ∨ (checkTerminal token.text = false ∧ token.text.head? ≠ some '#') }

abbrev CommentToken := { token : Token // token.quote = false ∧ token.text.head? = some '#' }

inductive Arg where
  | word (token : WordToken)
  | comment (token : CommentToken)

def Arg.token : Arg → Token
  | .word token => token.val
  | .comment token => token.val

def Arg.text? : Arg → Option Text
  | .word token => some token.val.text
  | .comment _ => none

def Arg.comment? : Arg → Option Text
  | .word _ => none
  | .comment token => some token.val.text.tail

inductive Node where
  | comment (token : CommentToken)
  | simple (directive : WordToken) (args : List Arg) (semicolonLine : Nat)
  | block (directive : WordToken) (args : List Arg) (openLine : Nat) (body : List Node)
      (closeLine : Nat)

def semicolon (line : Nat) : Token := ⟨[';'], line, false⟩

def openBrace (line : Nat) : Token := ⟨['{'], line, false⟩

def closeBrace (line : Nat) : Token := ⟨['}'], line, false⟩

mutual

def Node.tokens : Node → List Token
  | .comment token => [token.val]
  | .simple directive args line => directive.val :: (args.map Arg.token ++ [semicolon line])
  | .block directive args openLine body closeLine =>
    directive.val ::
      (args.map Arg.token ++ openBrace openLine :: (flatten body ++ [closeBrace closeLine]))
termination_by structural node => node

def flatten : List Node → List Token
  | [] => []
  | node :: forest => node.tokens ++ flatten forest
termination_by structural forest => forest

end

/-- The statement a directive token and its arguments stand for, with its block if any. -/
def stmtOf (filename : Text) (directive : WordToken) (args : List Arg)
    (blocks : Option (List Stmt)) : Stmt where
  directive := directive.val.text
  filename := filename
  line := directive.val.line
  args :=
    if directive.val.text = "if".toList then prepareIfArgs (args.filterMap Arg.text?)
    else args.filterMap Arg.text?
  comment := []
  includes := []
  blocks := blocks

/-- The statements for the comments among the arguments of a directive on the given line. -/
def commentsOf (line : Nat) (args : List Arg) : List Stmt :=
  (args.filterMap Arg.comment?).map fun comment => ⟨['#'], [], line, [], comment, [], none⟩

mutual

def Node.stmts (filename : Text) (comments : Bool) : Node → List Stmt
  | .comment token =>
    if comments then [⟨['#'], filename, token.val.line, [], token.val.text.tail, [], none⟩]
    else []
  | .simple directive args _ =>
    stmtOf filename directive args none :: commentsOf directive.val.line args
  | .block directive args _ body _ =>
    stmtOf filename directive args (some (written filename comments body)) ::
      commentsOf directive.val.line args
termination_by structural node => node

/-- The forest of statements that a configuration spells, with the comments between them or
without. -/
def written (filename : Text) (comments : Bool) : List Node → List Stmt
  | [] => []
  | node :: forest => node.stmts filename comments ++ written filename comments forest
termination_by structural forest => forest

end

theorem Node.forest_induction {motive : List Node → Prop} (nil : motive [])
    (comment : ∀ token forest, motive forest → motive (.comment token :: forest))
    (simple : ∀ directive args line forest, motive forest →
      motive (.simple directive args line :: forest))
    (block : ∀ directive args openLine body closeLine forest, motive body → motive forest →
      motive (.block directive args openLine body closeLine :: forest))
    (forest : List Node) : motive forest :=
  @Node.rec_1 (fun node => ∀ forest, motive forest → motive (node :: forest)) motive
    comment simple
    (fun directive args openLine body closeLine inner forest =>
      block directive args openLine body closeLine forest inner)
    nil (fun _ forest first => first forest) forest

variable {env : ParseEnv} {args : List Arg} {rest ending : List Token}

theorem WordToken.not_comment (word : WordToken) : isComment word.val = false := by
  obtain ⟨token, quoted | ⟨-, noHash⟩⟩ := word
  · simp [isComment, quoted]
  · simp [isComment, noHash]

theorem CommentToken.is_comment (comment : CommentToken) : isComment comment.val = true := by
  obtain ⟨token, unquoted, hash⟩ := comment
  simp [isComment, unquoted, hash]

theorem WordToken.inDirArgs_val (word : WordToken) : inDirArgs word.val = true := by
  obtain ⟨token, quoted | ⟨plain, -⟩⟩ := word
  · simp [inDirArgs, quoted]
  · simp [inDirArgs, plain]

theorem WordToken.starts (word : WordToken) : Starts word.val := by
  refine ⟨?_, word.not_comment⟩
  by_contra closing
  obtain ⟨text, unquoted⟩ : word.val.text = ['}'] ∧ word.val.quote = false := by
    simpa [Token.is] using closing
  have arg := word.inDirArgs_val
  simp [inDirArgs, text, unquoted, checkTerminal] at arg

theorem isComment_inDirArgs {token : Token} (found : isComment token = true) :
    inDirArgs token = true := by
  have hash : token.text.head? = some '#' := by simp_all [isComment]
  have noTerminal : checkTerminal token.text = false := by
    simp only [checkTerminal, Bool.or_eq_false_iff, decide_eq_false_iff_not]
    refine ⟨⟨?_, ?_⟩, ?_⟩ <;> intro text <;> simp [text] at hash
  simp [inDirArgs, noTerminal]

theorem Arg.inDirArgs_token (arg : Arg) : inDirArgs arg.token = true := by
  cases arg with
  | word token => exact token.inDirArgs_val
  | comment token => exact isComment_inDirArgs token.is_comment

theorem words_tokens : words (args.map Arg.token) = args.filterMap Arg.text? := by
  induction args with
  | nil => rfl
  | cons arg args ih =>
    simp only [words] at ih
    cases arg with
    | word token => simp [words, Arg.token, Arg.text?, token.not_comment, ih]
    | comment token => simp [words, Arg.token, Arg.text?, token.is_comment, ih, List.filterMap_cons]

theorem remarks_tokens : remarks (args.map Arg.token) = args.filterMap Arg.comment? := by
  induction args with
  | nil => rfl
  | cons arg args ih =>
    simp only [remarks] at ih
    cases arg with
    | word token =>
      simp [remarks, Arg.token, Arg.comment?, token.not_comment, ih, List.filterMap_cons]
    | comment token => simp [remarks, Arg.token, Arg.comment?, token.is_comment, ih]

theorem dirArgs_args {term : Token} (stop : inDirArgs term = false) :
    dirArgs (args.map Arg.token ++ term :: rest) =
      .ok (args.filterMap Arg.text?, args.filterMap Arg.comment?, term, rest) := by
  rw [← words_tokens, ← remarks_tokens]
  refine dirArgs_append ?_ stop
  intro token mem
  obtain ⟨arg, -, rfl⟩ := List.mem_map.mp mem
  exact arg.inDirArgs_token

/-- Reading a written forest, whatever ends it: the end of the tokens, or a closing brace. -/
theorem reads_flatten (ended : Reads env ending [] rest) (forest : List Node)
    (patterned : Patterned env (written env.filename env.opts.comments forest)) :
    Reads env (flatten forest ++ ending) (written env.filename env.opts.comments forest) rest := by
  induction forest using Node.forest_induction generalizing ending rest with
  | nil => exact ended
  | comment token forest ih =>
    rw [written, patterned_append] at patterned
    have reads := Reads.comment token.is_comment (ih ended patterned.2)
    by_cases kept : env.opts.comments = true <;>
      simpa [flatten, written, Node.tokens, Node.stmts, commentStmt, kept] using reads
  | simple directive args line forest ih =>
    simp only [flatten, written, Node.tokens, Node.stmts, List.cons_append, List.append_assoc] at *
    obtain ⟨first, others⟩ := patterned
    exact .simple directive.starts (dirArgs_args rfl) ((stmtPatterned_iff _).mp first).1 rfl
      (ih ended ((patterned_append _ _).mp others).2)
  | block directive args openLine body closeLine forest ihBody ihForest =>
    simp only [flatten, written, Node.tokens, Node.stmts, List.cons_append, List.append_assoc] at *
    obtain ⟨first, others⟩ := patterned
    obtain ⟨pattern, inner⟩ := (stmtPatterned_iff _).mp first
    exact .block directive.starts (dirArgs_args rfl) pattern rfl
      (ihBody (.close rfl) (inner _ rfl)) (ihForest ended ((patterned_append _ _).mp others).2)

theorem reads_forest (single : env.opts.single = true) (forest : List Node) :
    Reads env (flatten forest) (written env.filename env.opts.comments forest) [] := by
  simpa using reads_flatten .done forest (patterned_single single _)

/-- Reading on from a token that starts a statement, whose terminator is known. -/
theorem reads_head {directive : WordToken} {term : Token} {parsed : List Stmt}
    (stop : inDirArgs term = false)
    (reads : Reads env (directive.val :: (args.map Arg.token ++ term :: rest)) parsed ending) :
    (term.is ['{'] = false ∧ ∃ others, Reads env rest others ending ∧
      parsed = stmtOf env.filename directive args none ::
        (commentsOf directive.val.line args ++ others)) ∨
    (term.is ['{'] = true ∧ ∃ inner middle others, Reads env rest inner middle ∧
      Reads env middle others ending ∧ parsed = stmtOf env.filename directive args (some inner) ::
        (commentsOf directive.val.line args ++ others)) := by
  have found : dirArgs (args.map Arg.token ++ term :: rest) = _ := dirArgs_args stop
  cases reads with
  | close closing => simp [directive.starts.1] at closing
  | comment noted => simp [directive.starts.2] at noted
  | simple _ arguments _ ended tail =>
    rw [found] at arguments
    cases arguments
    exact .inl ⟨ended, _, tail, rfl⟩
  | block _ arguments _ opened body tail =>
    rw [found] at arguments
    cases arguments
    exact .inr ⟨opened, _, _, _, body, tail, rfl⟩

/-- Whatever is read from a written forest on, the forest comes first. -/
theorem reads_flatten_inv {parsed : List Stmt} (forest : List Node)
    (reads : Reads env (flatten forest ++ ending) parsed rest) :
    ∃ others, parsed = written env.filename env.opts.comments forest ++ others ∧
      Reads env ending others rest := by
  induction forest using Node.forest_induction generalizing ending rest parsed with
  | nil => exact ⟨parsed, rfl, reads⟩
  | comment token forest ih =>
    simp only [flatten, Node.tokens, List.cons_append, List.nil_append] at reads
    have noted := token.is_comment
    cases reads with
    | close closing => simp [isComment_not_is noted] at closing
    | comment _ tail =>
      obtain ⟨others, rfl, later⟩ := ih tail
      refine ⟨others, ?_, later⟩
      by_cases kept : env.opts.comments = true <;>
        simp [written, Node.stmts, commentStmt, kept]
    | simple starts => simp [starts.2] at noted
    | block starts => simp [starts.2] at noted
  | simple directive args line forest ih =>
    simp only [flatten, Node.tokens, List.cons_append, List.append_assoc] at reads
    rcases reads_head rfl reads with ⟨-, others, tail, rfl⟩ | ⟨opened, -⟩
    · obtain ⟨others, rfl, later⟩ := ih tail
      exact ⟨others, by simp [written, Node.stmts], later⟩
    · cases opened
  | block directive args openLine body closeLine forest ihBody ihForest =>
    simp only [flatten, Node.tokens, List.cons_append, List.append_assoc] at reads
    rcases reads_head rfl reads with ⟨ended, -⟩ | ⟨-, inner, middle, others, within, tail, rfl⟩
    · cases ended
    · obtain ⟨extra, rfl, closed⟩ := ihBody within
      -- the closing brace ends the block
      cases closed with
      | close _ =>
        obtain ⟨others, rfl, later⟩ := ihForest tail
        exact ⟨others, by simp [written, Node.stmts], later⟩
      | comment noted => cases noted
      | simple starts => cases starts.1
      | block starts => cases starts.1

/-- Parser completeness: for any settings of the checks, in any context and state, the parser
consumes a written forest to its end and returns exactly that forest. With comments off, those
between statements are missing from it. -/
theorem parse_flatten (env : ParseEnv) (quiet : Quiet env) (single : env.opts.single = true)
    (ctx : List Text) (st : Shared) (forest : List Node) :
    ∃ st', parseTokens env ctx (flatten forest) st =
      .ok (written env.filename env.opts.comments forest, [], st') := by
  obtain ⟨parsed, st', parse, agrees⟩ :=
    parse_of_reads quiet (reads_forest single forest) _ ctx st (Nat.lt_succ_self _)
  exact ⟨st', agrees.single_eq single ▸ parse⟩

/-- `if (a #note b) { "}" ; } # end`, read with comments on, files not followed, in strict mode. -/
theorem parse_flatten_sample :
    let env : ParseEnv := ⟨fun format _ => format, ⟨.error, .error⟩,
      ⟨none, true, true, false, ⟨true, true, true⟩, []⟩, "nginx.conf".toList⟩
    let forest : List Node :=
      [.block ⟨⟨"if".toList, 1, false⟩, by decide⟩
        [.word ⟨⟨"(a".toList, 1, false⟩, by decide⟩,
          .comment ⟨⟨"#note".toList, 1, false⟩, by decide⟩,
          .word ⟨⟨"b)".toList, 2, false⟩, by decide⟩] 2
        [.simple ⟨⟨['}'], 3, true⟩, by decide⟩ [] 3] 4,
       .comment ⟨⟨"# end".toList, 4, false⟩, by decide⟩]
    ∃ st', parseTokens env [] (flatten forest)
        ⟨DirectiveTable.directives, ⟨.ok, []⟩, none, [], []⟩ =
      .ok ([⟨"if".toList, [], 1, [['a'], ['b']], [], [], some [⟨['}'], [], 3, [], [], [], none⟩]⟩,
        ⟨['#'], [], 1, [], "note".toList, [], none⟩,
        ⟨['#'], [], 4, [], " end".toList, [], none⟩], [], st') :=
  parse_flatten _ (fun _ => rfl) rfl _ _ _

end ParseForest
