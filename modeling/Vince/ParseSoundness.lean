import Vince.ParseForest

/-!
# Parser soundness

`balanceBraces` counts braces and `parseInternal` nests them. A list both accept need not be
written by the grammar: the parser takes `;` and `{` as directives and lets `}` end a directive
without closing anything. `inPlace` is a scan with two states that sees exactly these cases.
For balanced lists on which the parser returns, it decides whether the parser consumed all
tokens and found the one derivation they have.
-/

namespace ParseSoundness

open GoText ConfigLex ConfigAnalyze ConfigParse ParseReads ParseForest

variable {env : ParseEnv} {filename : Text} {depth : Int} {line : Nat} {token : Token}
  {tokens ending rest : List Token}

/-- Terminals stand only where the grammar has them: between statements (`false`) a closing
brace and no other terminal, after a directive (`true`) the other two. -/
def inPlace : Bool → List Token → Bool
  | inside, [] => !inside
  | false, token :: tokens =>
    if token.is ['}'] || isComment token then inPlace false tokens
    else inDirArgs token && inPlace true tokens
  | true, token :: tokens =>
    if inDirArgs token then inPlace true tokens
    else !token.is ['}'] && inPlace false tokens

/-! ## Tokens by kind -/

theorem word_of (arg : inDirArgs token = true) (noComment : isComment token = false) :
    ∃ word : WordToken, word.val = token := by
  refine ⟨⟨token, ?_⟩, rfl⟩
  by_cases quoted : token.quote = true
  · exact .inl quoted
  · simp_all [inDirArgs, isComment]

theorem comment_of (found : isComment token = true) : ∃ comment : CommentToken,
    comment.val = token :=
  ⟨⟨token, by simp_all [isComment]⟩, rfl⟩

theorem arg_of (arg : inDirArgs token = true) : ∃ arg : Arg, arg.token = token := by
  by_cases found : isComment token = true
  · obtain ⟨comment, rfl⟩ := comment_of found
    exact ⟨.comment comment, rfl⟩
  · obtain ⟨word, rfl⟩ := word_of arg (by simpa using found)
    exact ⟨.word word, rfl⟩

theorem terminal_cases (stop : inDirArgs token = false) :
    (∃ line, token = openBrace line) ∨ (∃ line, token = semicolon line) ∨
      ∃ line, token = closeBrace line := by
  obtain ⟨text, line, quote⟩ := token
  simp only [inDirArgs, checkTerminal, Bool.or_eq_false_iff, Bool.not_eq_false',
    Bool.or_eq_true, decide_eq_true_eq] at stop
  obtain ⟨(rfl | rfl) | rfl, rfl⟩ := stop
  · exact .inl ⟨line, rfl⟩
  · exact .inr (.inl ⟨line, rfl⟩)
  · exact .inr (.inr ⟨line, rfl⟩)

/-! ## Written forests pass both scans -/

theorem inPlace_args (args : List Arg) :
    inPlace true (args.map Arg.token ++ tokens) = inPlace true tokens := by
  induction args with
  | nil => rfl
  | cons arg args ih => simp [inPlace, arg.inDirArgs_token, ih]

theorem inPlace_word (word : WordToken) :
    inPlace false (word.val :: tokens) = inPlace true tokens := by
  obtain ⟨open_, noComment⟩ := word.starts
  simp [inPlace, open_, noComment, word.inDirArgs_val]

theorem inPlace_flatten (forest : List Node) :
    inPlace false (flatten forest ++ ending) = inPlace false ending := by
  induction forest using Node.forest_induction generalizing ending with
  | nil => rfl
  | comment token forest ih => simp [flatten, Node.tokens, inPlace, token.is_comment, ih]
  | simple directive args line forest ih =>
    simp only [flatten, Node.tokens, List.cons_append, List.append_assoc, inPlace_word,
      inPlace_args]
    exact ih
  | block directive args openLine body closeLine forest ihBody ihForest =>
    simp only [flatten, Node.tokens, List.cons_append, List.append_assoc, inPlace_word,
      inPlace_args]
    exact ihBody.trans ihForest

/-- The depth the brace counter has after a token. -/
def countBrace (depth : Int) (token : Token) : Int :=
  if token.is ['}'] then depth - 1 else if token.is ['{'] then depth + 1 else depth

/-- The brace counter, started at a depth, accepts the tokens. -/
def Balanced : Int → List Token → Prop
  | depth, [] => depth ≤ 0
  | depth, token :: tokens => 0 ≤ countBrace depth token ∧ Balanced (countBrace depth token) tokens

theorem balanceLoop_none_iff :
    balanceLoop filename depth line tokens = none ↔ Balanced depth tokens := by
  induction tokens generalizing depth line with
  | nil =>
    rw [balanceLoop, Balanced]
    split
    · exact ⟨nofun, fun le => absurd le (by omega)⟩
    · exact ⟨fun _ => by omega, fun _ => rfl⟩
  | cons token tokens ih =>
    rw [balanceLoop, Balanced, ← countBrace]
    split
    · exact ⟨nofun, fun ⟨above, _⟩ => absurd above (by omega)⟩
    · rw [ih]
      exact ⟨fun balanced => ⟨by omega, balanced⟩, And.right⟩

theorem countBrace_arg (arg : inDirArgs token = true) : countBrace depth token = depth := by
  have noBrace : ∀ text, checkTerminal text = true → ¬ token.is text = true := by
    intro text terminal found
    obtain ⟨rfl, unquoted⟩ : token.text = text ∧ token.quote = false := by
      simpa [Token.is] using found
    simp [inDirArgs, terminal, unquoted] at arg
  rw [countBrace, if_neg (noBrace _ rfl), if_neg (noBrace _ rfl)]

theorem balanced_arg (arg : inDirArgs token = true) (above : 0 ≤ depth) :
    Balanced depth (token :: tokens) ↔ Balanced depth tokens := by
  rw [Balanced, countBrace_arg arg]
  exact and_iff_right above

theorem balanced_args (args : List Arg) (above : 0 ≤ depth) :
    Balanced depth (args.map Arg.token ++ tokens) ↔ Balanced depth tokens := by
  induction args with
  | nil => rfl
  | cons arg args ih => exact (balanced_arg arg.inDirArgs_token above).trans ih

theorem balanced_semicolon (above : 0 ≤ depth) :
    Balanced depth (semicolon line :: tokens) ↔ Balanced depth tokens :=
  and_iff_right above

theorem balanced_open (above : 0 ≤ depth) :
    Balanced depth (openBrace line :: tokens) ↔ Balanced (depth + 1) tokens :=
  and_iff_right (show 0 ≤ depth + 1 by omega)

theorem balanced_close :
    Balanced depth (closeBrace line :: tokens) ↔ 0 < depth ∧ Balanced (depth - 1) tokens :=
  and_congr_left' (show 0 ≤ depth - 1 ↔ 0 < depth by omega)

theorem balanced_flatten (forest : List Node) (above : 0 ≤ depth) :
    Balanced depth (flatten forest ++ ending) ↔ Balanced depth ending := by
  induction forest using Node.forest_induction generalizing depth ending with
  | nil => rfl
  | comment token forest ih =>
    exact (balanced_arg (isComment_inDirArgs token.is_comment) above).trans (ih above)
  | simple directive args line forest ih =>
    simp only [flatten, Node.tokens, List.cons_append, List.append_assoc]
    rw [balanced_arg directive.inDirArgs_val above, balanced_args args above]
    exact (balanced_semicolon above).trans (ih above)
  | block directive args openLine body closeLine forest ihBody ihForest =>
    simp only [flatten, Node.tokens, List.cons_append, List.append_assoc]
    rw [balanced_arg directive.inDirArgs_val above, balanced_args args above,
      balanced_open above, ihBody (by omega)]
    refine balanced_close.trans ?_
    rw [Int.add_sub_cancel]
    exact (and_iff_right (by omega)).trans (ihForest above)

/-! ## A list that passes both scans is written by the grammar -/

/-- The arguments of a statement in place, up to its terminator. -/
theorem split_args (placed : inPlace true tokens = true) :
    ∃ (args : List Arg) (term : Token) (after : List Token),
      tokens = args.map Arg.token ++ term :: after ∧ inPlace false after = true ∧
        ((∃ line, term = semicolon line) ∨ ∃ line, term = openBrace line) := by
  induction tokens with
  | nil => cases placed
  | cons token tokens ih =>
    by_cases isArg : inDirArgs token = true
    · obtain ⟨arg, rfl⟩ := arg_of isArg
      obtain ⟨args, term, after, rfl, placed', kind⟩ := ih (by simpa [inPlace, isArg] using placed)
      exact ⟨arg :: args, term, after, rfl, placed', kind⟩
    · obtain ⟨noClose, placed'⟩ : token.is ['}'] = false ∧ inPlace false tokens = true := by
        simpa [inPlace, isArg] using placed
      refine ⟨[], token, tokens, rfl, placed', ?_⟩
      rcases terminal_cases (by simpa using isArg) with opened | ended | ⟨line, rfl⟩
      · exact .inr opened
      · exact .inl ended
      · cases noClose

/-- What ends a forest at a given depth: the end of the tokens at depth zero, a closing brace
above it. -/
def Ends (depth : Int) (ending : List Token) : Prop :=
  (ending = [] ∧ depth = 0) ∨ ∃ line rest, ending = closeBrace line :: rest ∧ 0 < depth

/-- By induction on the number of tokens: a list in place and balanced from some depth starts
with a written forest and goes on with what ends it there. -/
theorem exists_forest (size : Nat) : ∀ tokens : List Token, tokens.length ≤ size →
    ∀ depth : Int, 0 ≤ depth → inPlace false tokens = true → Balanced depth tokens →
      ∃ forest ending, tokens = flatten forest ++ ending ∧ Ends depth ending := by
  induction size with
  | zero =>
    intro tokens short depth above placed balanced
    obtain rfl := List.eq_nil_of_length_eq_zero (Nat.le_zero.mp short)
    have : depth ≤ 0 := balanced
    exact ⟨[], [], rfl, .inl ⟨rfl, by omega⟩⟩
  | succ size ih =>
    intro tokens short depth above placed balanced
    cases tokens with
    | nil => exact ⟨[], [], rfl, .inl ⟨rfl, by have : depth ≤ 0 := balanced; omega⟩⟩
    | cons token tokens =>
      simp only [List.length_cons] at short
      by_cases found : isComment token = true
      · obtain ⟨comment, rfl⟩ := comment_of found
        obtain ⟨forest, ending, rfl, ends⟩ := ih tokens (by omega) depth above
          (by simpa [inPlace, found] using placed)
          ((balanced_arg (isComment_inDirArgs found) above).mp balanced)
        exact ⟨.comment comment :: forest, ending, rfl, ends⟩
      by_cases isArg : inDirArgs token = true
      · obtain ⟨word, rfl⟩ := word_of isArg (by simpa using found)
        rw [inPlace_word] at placed
        obtain ⟨args, term, after, rfl, placed', kind⟩ := split_args placed
        rw [balanced_arg isArg above, balanced_args args above] at balanced
        simp only [List.length_append, List.length_cons] at short
        rcases kind with ⟨line, rfl⟩ | ⟨line, rfl⟩
        · obtain ⟨forest, ending, rfl, ends⟩ := ih after (by omega) depth above placed'
            ((balanced_semicolon above).mp balanced)
          exact ⟨.simple word args line :: forest, ending,
            by simp [flatten, Node.tokens], ends⟩
        · rw [balanced_open above] at balanced
          obtain ⟨body, ending, rfl, ends⟩ :=
            ih after (by omega) (depth + 1) (by omega) placed' balanced
          rw [balanced_flatten body (by omega)] at balanced
          rw [inPlace_flatten] at placed'
          rcases ends with ⟨rfl, zero⟩ | ⟨closeLine, rest, rfl, -⟩
          · omega
          · obtain ⟨-, balanced'⟩ := balanced_close.mp balanced
            rw [Int.add_sub_cancel] at balanced'
            obtain ⟨forest, ending, rfl, ends⟩ := ih rest
              (by simp only [List.length_append, List.length_cons] at short; omega) depth above
              (by simpa [inPlace, closeBrace, Token.is] using placed') balanced'
            exact ⟨.block word args line body closeLine :: forest, ending,
              by simp [flatten, Node.tokens], ends⟩
      · rcases terminal_cases (by simpa using isArg) with ⟨line, rfl⟩ | ⟨line, rfl⟩ | ⟨line, rfl⟩
        · cases placed
        · cases placed
        · exact ⟨[], _, rfl, .inr ⟨line, tokens, rfl, (balanced_close.mp balanced).1⟩⟩

/-- A list is written by the grammar exactly when its terminals are in place, given that its
braces balance. -/
theorem exists_flatten_iff (balanced : balanceBraces tokens filename = none) :
    (∃ forest, flatten forest = tokens) ↔ inPlace false tokens = true := by
  constructor
  · rintro ⟨forest, rfl⟩
    have scan : inPlace false (flatten forest ++ []) = true := inPlace_flatten forest
    simpa using scan
  · intro placed
    have balanced' : Balanced 0 tokens := balanceLoop_none_iff.mp balanced
    obtain ⟨forest, ending, rfl, ends⟩ :=
      exists_forest tokens.length tokens le_rfl 0 le_rfl placed balanced'
    rcases ends with ⟨rfl, -⟩ | ⟨_, _, -, impossible⟩
    · exact ⟨forest, by simp⟩
    · omega

/-- Where the parser returns on a balanced list, reporting errors or not: it consumed the whole
list and found a derivation of it, up to `Includes`, exactly when the terminals are in place. -/
theorem parse_derives_iff (env : ParseEnv) (quiet : Quiet env) (tokens : List Token)
    (filename : Text) (balanced : balanceBraces tokens filename = none) (ctx : List Text)
    (st st' : Shared) (parsed : List Stmt) (rest : List Token)
    (parse : parseTokens env ctx tokens st = .ok (parsed, rest, st')) :
    (rest = [] ∧ ∃ forest, flatten forest = tokens ∧
        bare parsed = written env.filename env.opts.comments forest) ↔
      inPlace false tokens = true := by
  rw [← exists_flatten_iff balanced]
  constructor
  · rintro ⟨-, forest, derivation, -⟩
    exact ⟨forest, derivation⟩
  · rintro ⟨forest, rfl⟩
    obtain ⟨stmts, reads, agrees⟩ := parseTokens_agrees quiet parse
    rw [← List.append_nil (flatten forest)] at reads
    obtain ⟨others, rfl, ended⟩ := reads_flatten_inv forest reads
    cases ended
    exact ⟨rfl, forest, rfl, by simpa using agrees.bare_eq⟩

private def sampleEnv : ParseEnv :=
  ⟨fun format _ => format, ⟨.error, .error⟩, defaultParseOpts, "nginx.conf".toList⟩

private def sampleState : Shared :=
  ⟨DirectiveTable.directives, ⟨.ok, []⟩, none, [], []⟩

private def sampleStmt (line : Nat) (blocks : Option (List Stmt)) : Stmt :=
  ⟨['a'], [], line, [], [], [], blocks⟩

/-- `a { a ; } a ;` on three lines. -/
theorem parse_derives_iff_sample :
    let tokens : List Token := [⟨['a'], 1, false⟩, openBrace 1, ⟨['a'], 2, false⟩, semicolon 2,
      closeBrace 3, ⟨['a'], 3, false⟩, semicolon 3]
    ∃ forest, flatten forest = tokens ∧
      bare [sampleStmt 1 (some [sampleStmt 2 none]), sampleStmt 3 none] =
        written [] false forest := by
  have run : outcome (parseTokens sampleEnv [] [⟨['a'], 1, false⟩, openBrace 1, ⟨['a'], 2, false⟩,
      semicolon 2, closeBrace 3, ⟨['a'], 3, false⟩, semicolon 3] sampleState) =
        .ok ([sampleStmt 1 (some [sampleStmt 2 none]), sampleStmt 3 none], [], []) := by
    decide +kernel
  obtain ⟨st', parse, -⟩ := ok_of_outcome run
  exact ((parse_derives_iff sampleEnv (fun _ => rfl) _ [] rfl [] _ st' _ _ parse).mpr rfl).2

/-- `a { a } a ;` on three lines balances and parses without an error, but the third directive
ends up in the block of the first: the closing brace ended the second, and the end of the file
closed the block. -/
theorem missing_semicolon_misplaces :
    let tokens : List Token := [⟨['a'], 1, false⟩, openBrace 1, ⟨['a'], 2, false⟩, closeBrace 3,
      ⟨['a'], 3, false⟩, semicolon 3]
    balanceBraces tokens "nginx.conf".toList = none ∧
    outcome (parseTokens sampleEnv [] tokens sampleState) =
      .ok ([sampleStmt 1 (some [sampleStmt 2 none, sampleStmt 3 none])], [], []) ∧
    ¬ ∃ forest, flatten forest = tokens := by
  refine ⟨by decide, by decide +kernel, fun derivation => ?_⟩
  cases (exists_flatten_iff (by decide : balanceBraces _ [] = none)).mp derivation

end ParseSoundness
