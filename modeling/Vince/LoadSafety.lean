import Vince.ParseReads
import Vince.ServerRules

/-!
# Where loading a configuration panics

The parser dereferences a nil token when the tokens end inside a directive's arguments, and
reads a first argument that a followed `include` may not have. `survives` is one scan over the
tokens that meets exactly these cases. Building the name tables of the servers indexes the
first byte of each server name. Options that ignore directives are not considered.
-/

namespace LoadSafety

open GoText ConfigLex ConfigAnalyze ConfigParse ParseReads ServerRules

/-- Where the scan stands: between statements, or among the arguments of a directive that
still needs an argument (`true`) or does not. -/
inductive Stand where
  | between
  | arguments (needy : Bool)
  deriving DecidableEq, Repr

/-- The scan. At depth zero a closing brace ends the parse and what follows is not read; as
the terminator of a directive it closes nothing. -/
def survives (env : ParseEnv) : Nat → Stand → List Token → Bool
  | _, .between, [] => true
  | _, .arguments _, [] => false
  | depth, .between, token :: tokens =>
    if token.is ['}'] then depth == 0 || survives env (depth - 1) .between tokens
    else if isComment token then survives env depth .between tokens
    else survives env depth (.arguments (isInclude env token.text)) tokens
  | depth, .arguments needy, token :: tokens =>
    if inDirArgs token then
      survives env depth (.arguments (needy && isComment token)) tokens
    else if needy then false
    else survives env (if token.is ['{'] then depth + 1 else depth) .between tokens

variable {env : ParseEnv} {tokens after rest : List Token} {token term : Token} {depth : Nat}
  {args comments : List Text} {stmts : List Stmt}

theorem hasPattern_newStmt :
    HasPattern env (newStmt env token args) ↔
      (isInclude env token.text && args.isEmpty) = false := by
  by_cases active : isInclude env token.text = true
  · have text : token.text = "include".toList := by
      simp only [isInclude, Bool.and_eq_true, decide_eq_true_eq] at active
      exact active.2
    have noIf : ¬ token.text = "if".toList := by rw [text]; decide
    simp only [HasPattern, newStmt, active, if_neg noIf]
    simp
  · simp [HasPattern, newStmt, active]

theorem survives_dirArgs (found : dirArgs tokens = .ok (args, comments, term, after))
    (needy : Bool) : survives env depth (.arguments needy) tokens =
      (!(needy && args.isEmpty) &&
        survives env (if term.is ['{'] then depth + 1 else depth) .between after) := by
  obtain ⟨front, rfl, arguments, stop, rfl, -⟩ := dirArgs_ok found
  clear found
  induction front generalizing needy with
  | nil => cases needy <;> simp [survives, stop, words]
  | cons token front ih =>
    have first : inDirArgs token = true := arguments token (by simp)
    rw [List.cons_append, survives, if_pos first,
      ih _ fun other mem => arguments other (by simp [mem])]
    by_cases comment : isComment token = true <;> simp [words, comment]

theorem dirArgs_of_survives {needy : Bool}
    (alive : survives env depth (.arguments needy) tokens = true) :
    ∃ result, dirArgs tokens = .ok result := by
  induction tokens generalizing needy with
  | nil => cases alive
  | cons token tokens ih =>
    by_cases arg : inDirArgs token = true
    · rw [survives, if_pos arg] at alive
      obtain ⟨result, found⟩ := ih alive
      rw [dirArgs, if_pos arg, found]
      dsimp only
      split <;> exact ⟨_, rfl⟩
    · exact ⟨_, by rw [dirArgs, if_neg arg]⟩

/-- At the start of a statement whose arguments end, the scan asks for the pattern of an
include and goes on after the terminator. -/
theorem survives_starts (starts : Starts token)
    (found : dirArgs tokens = .ok (args, comments, term, after)) :
    survives env depth .between (token :: tokens) = true ↔
      HasPattern env (newStmt env token args) ∧
        survives env (if term.is ['{'] then depth + 1 else depth) .between after = true := by
  obtain ⟨open_, noComment⟩ := starts
  rw [survives, if_neg (by simp [open_]), if_neg (by simp [noComment]), survives_dirArgs found,
    hasPattern_newStmt, Bool.and_eq_true, Bool.not_eq_true']

/-- What the parser reads, the scan survives, and a block leaves it as it was before. -/
theorem survives_of_reads (reads : Reads env tokens stmts rest) :
    survives env 0 .between tokens = true ∧ ∀ depth, survives env depth .between rest = true →
      survives env (depth + 1) .between tokens = true := by
  induction reads with
  | done => exact ⟨rfl, fun _ _ => rfl⟩
  | close closing => simp [survives, closing]
  | comment found tail ih =>
    simpa [survives, isComment_not_is found, found] using ih
  | simple starts arguments pattern ended tail ih =>
    simpa [survives_starts starts arguments, pattern, ended] using ih
  | block starts arguments pattern opened body tail ihBody ihTail =>
    simp only [survives_starts starts arguments, pattern, opened, if_true, true_and]
    exact ⟨ihBody.2 0 ihTail.1, fun depth alive => ihBody.2 (depth + 1) (ihTail.2 depth alive)⟩

/-- Conversely, by induction on the number of tokens, a surviving scan gives a reading, and
survives what the reading leaves over, one level up. -/
theorem reads_of_survives (size : Nat) : ∀ tokens : List Token, tokens.length ≤ size →
    ∀ depth, survives env depth .between tokens = true →
      ∃ stmts rest, Reads env tokens stmts rest ∧
        ∀ outer, depth = outer + 1 → survives env outer .between rest = true := by
  induction size with
  | zero =>
    intro tokens short depth alive
    obtain rfl := List.eq_nil_of_length_eq_zero (Nat.le_zero.mp short)
    exact ⟨[], [], .done, fun _ _ => by simp [survives]⟩
  | succ size ih =>
    intro tokens short depth alive
    cases tokens with
    | nil => exact ⟨[], [], .done, fun _ _ => by simp [survives]⟩
    | cons token tokens =>
      simp only [List.length_cons] at short
      by_cases closing : token.is ['}'] = true
      · refine ⟨[], tokens, .close closing, ?_⟩
        rintro outer rfl
        simpa [survives, closing] using alive
      by_cases found : isComment token = true
      · obtain ⟨stmts, rest, reads, outside⟩ := ih tokens (by omega) depth
          (by simpa [survives, closing, found] using alive)
        exact ⟨_, rest, .comment found reads, outside⟩
      have starts : Starts token := ⟨by simpa using closing, by simpa using found⟩
      obtain ⟨⟨args, comments, term, after⟩, arguments⟩ :
          ∃ result, dirArgs tokens = .ok result := by
        rw [survives, if_neg closing, if_neg found] at alive
        exact dirArgs_of_survives alive
      have shorter := dirArgs_shorter arguments
      obtain ⟨pattern, alive⟩ := (survives_starts starts arguments).mp alive
      by_cases opened : term.is ['{'] = true
      · rw [if_pos opened] at alive
        obtain ⟨inner, middle, body, outside⟩ := ih after (by omega) (depth + 1) alive
        have shorter' := body.shorter
        obtain ⟨stmts, rest, tail, outside'⟩ := ih middle (by omega) depth (outside depth rfl)
        exact ⟨_, rest, .block starts arguments pattern opened body tail, outside'⟩
      · rw [if_neg opened] at alive
        obtain ⟨stmts, rest, tail, outside⟩ := ih after (by omega) depth alive
        exact ⟨_, rest, .simple starts arguments pattern (by simpa using opened) tail, outside⟩

/-- The parser returns exactly on the tokens the scan survives, and building the name tables
succeeds exactly when no server name it reads is empty. -/
theorem load_returns_iff (env : ParseEnv) (quiet : Quiet env) (ctx : List Text)
    (tokens : List Token) (st : Shared) (servers : List Rule) (defaultServer : Option Rule) :
    ((∃ result, parseTokens env ctx tokens st = .ok result) ↔
      survives env 0 .between tokens = true) ∧
    ((∃ h, HandlerMatch.init servers defaultServer = .ok h) ↔
      ∀ srv ∈ servers, ∀ a ∈ serverNames srv, a ≠ []) := by
  refine ⟨⟨?_, ?_⟩, init_ok_iff servers defaultServer⟩
  · rintro ⟨⟨parsed, rest, st'⟩, parse⟩
    obtain ⟨stmts, reads⟩ := reads_of_parse quiet parse
    exact (survives_of_reads reads).1
  · intro alive
    obtain ⟨stmts, rest, reads, -⟩ := reads_of_survives tokens.length tokens le_rfl 0 alive
    obtain ⟨parsed, st', parse⟩ := (parseTokens_ok_iff quiet ctx st).mpr ⟨stmts, reads⟩
    exact ⟨_, parse⟩

private def loadEnv : ParseEnv :=
  ⟨fun format _ => format, ⟨.error, .error⟩, defaultParseOpts, "nginx.conf".toList⟩

private def loadState : Shared := ⟨DirectiveTable.directives, ⟨.ok, []⟩, none, [], []⟩

theorem load_returns_sample :
    (∃ result, parseTokens loadEnv [] [⟨['a'], 1, false⟩, ⟨[';'], 1, false⟩] loadState =
      .ok result) ∧
    ∃ h, HandlerMatch.init
      [Rule.mk "server".toList [] [⟨"server_name".toList, [['a']], []⟩]] none = .ok h := by
  have both := load_returns_iff loadEnv (fun _ => rfl) [] [⟨['a'], 1, false⟩, ⟨[';'], 1, false⟩]
    loadState [⟨"server".toList, [], [⟨"server_name".toList, [['a']], []⟩]⟩] none
  exact ⟨both.1.mpr (by decide), both.2.mpr (by decide)⟩

/-- A file that ends after its first word makes the parser dereference a nil token, and an
empty server name, which parses without an error, makes `init` index out of range. -/
theorem unfinished_directive_panics :
    (lex 10 "a ".toList "nginx.conf".toList = some (.ok [⟨['a'], 1, false⟩]) ∧
      outcome (parseTokens loadEnv [] [⟨['a'], 1, false⟩] loadState) = .error .nilDereference) ∧
    ∃ tokens parsed, lex 100 "http\x7bserver\x7bserver_name \"\";\x7d\x7d\n".toList
        "nginx.conf".toList = some (.ok tokens) ∧
      outcome (parseTokens loadEnv [] tokens loadState) = .ok (parsed, [], []) ∧
      HandlerMatch.init (ServerRules.servers (core parsed)) none = .error .indexOutOfRange := by
  let word (text : Text) : Token := ⟨text, 1, false⟩
  let stmt (directive : Text) (args : List Text) (blocks : Option (List Stmt)) : Stmt :=
    ⟨directive, [], 1, args, [], [], blocks⟩
  refine ⟨⟨by decide, by decide⟩,
    [word "http".toList, word ['{'], word "server".toList, word ['{'], word "server_name".toList,
      ⟨[], 1, true⟩, word [';'], word ['}'], word ['}']],
    [stmt "http".toList [] (some [stmt "server".toList []
      (some [stmt "server_name".toList [[]] none])])], ?_, ?_, ?_⟩
  · decide +kernel
  · decide +kernel
  · rfl

end LoadSafety
