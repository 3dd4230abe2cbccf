import Vince.Transitions
import Vince.GoText

/-!
# The configuration lexer (`config_lex.go`)

`lexer.lex` is one loop with gotos whose inner loops all read on through
`lineCounter.Next`. The model is a machine that makes one call of `Next` per step:
a `Point` is a call site together with the local variables live there, and `proceed`
runs the code from that call to the next one. At the end of the input `Next` keeps
returning the zero rune, line 0 and `io.EOF`; no point is assumed to stop there.
-/

namespace ConfigLex

open GoText StateTransition

structure Token where
  text : Text
  line : Nat
  quote : Bool
  deriving DecidableEq, Repr

/-- An unquoted token with the given text. -/
def Token.is (t : Token) (text : Text) : Bool := t.text = text && !t.quote

structure NgxError where
  reason : Text
  linenum : Nat
  filename : Text
  deriving DecidableEq, Repr

inductive LexError where
  | eof
  | ngx (err : NgxError)
  deriving DecidableEq, Repr

/-- `lineCounter`: the runes still to come and the current line. -/
structure LineCounter where
  input : Text
  line : Nat

/-- What one call of `Next` returns. -/
structure Read where
  ch : Char
  line : Nat
  eof : Bool

def countLine (line : Nat) (ch : Char) : Nat := if ch = '\n' then line + 1 else line

def LineCounter.next (ls : LineCounter) : Read × LineCounter :=
  match ls.input with
  | [] => (⟨nul, 0, true⟩, ls)
  | ch :: rest =>
    (⟨ch, countLine ls.line ch, false⟩, ⟨rest, countLine ls.line ch⟩)

def setByLuaBlock : Text := "set_by_lua_block".toList

/-- `luaLexer.directives`, the keys of `defaultCustomLexers`. -/
def luaDirectives : List Text :=
  ["access_by_lua_block".toList,
    "balancer_by_lua_block".toList,
    "body_filter_by_lua_block".toList,
    "content_by_lua_block".toList,
    "header_filter_by_lua_block".toList,
    "init_by_lua_block".toList,
    "init_worker_by_lua_block".toList,
    "log_by_lua_block".toList,
    "rewrite_by_lua_block".toList,
    setByLuaBlock,
    "ssl_certificate_by_lua_block".toList,
    "ssl_session_fetch_by_lua_block".toList,
    "ssl_session_store_by_lua_block".toList]

structure Lexer where
  token : Text
  tokens : List Token
  line : Nat
  nextTokenIsDirective : Bool

def Lexer.push (lx : Lexer) (c : Char) : Lexer := { lx with token := lx.token ++ [c] }

def Lexer.emit (lx : Lexer) (text : Text) (line : Nat) (quote : Bool) : Lexer :=
  { lx with tokens := lx.tokens ++ [⟨text, line, quote⟩] }

def Lexer.custom (lx : Lexer) : Bool :=
  lx.nextTokenIsDirective && luaDirectives.contains lx.token

/-- The two places that call the Lua lexer. -/
inductive Caller where
  | word
  | quoted

inductive Point where
  | again
  | spaces
  | comment (line : Nat)
  | escape
  | expansion
  | quoted (quote : Char)
  | quotedEscape (quote : Char)
  | luaArg (caller : Caller) (arg : Text) (tok : List Token)
  | luaArgSpaces (caller : Caller) (arg : Text) (tok : List Token)
  | luaOpen (caller : Caller) (tok : List Token)
  | luaBody (caller : Caller) (tok : List Token) (tk : Text) (depth : Int)
  | luaString (caller : Caller) (tok : List Token) (tk : Text) (depth : Int) (quote : Char)
  | returned (err : Option LexError)

/-- Entry of `luaLexer.lex`; the directive is the pending token. -/
def luaEnter (lx : Lexer) (caller : Caller) : Lexer × Point :=
  if lx.token = setByLuaBlock then (lx, .luaArg caller [] []) else (lx, .luaOpen caller [])

/-- A successful return of the Lua lexer to its caller. -/
def luaReturn (lx : Lexer) (lexTokens : List Token) : Caller → Lexer × Point
  | .word => ({ lx with tokens := lx.tokens ++ lexTokens, token := [] }, .spaces)
  | .quoted =>
    ({ lx with tokens := lx.tokens ++ lexTokens, nextTokenIsDirective := true, token := [] },
      .again)

/-- The end of one round of the Lua block loop. The tokens collected so far are
dropped: both ways out of the loop end in `return nil, nil`. -/
def luaRound (lx : Lexer) (caller : Caller) (tok : List Token) (tk : Text) (depth : Int)
    (ch : Char) (line : Nat) : Lexer × Point :=
  if depth < 0 then (lx, .returned (some (.ngx ⟨"unexpected \x7d".toList, line, []⟩)))
  else if depth = 0 then luaReturn lx [] caller
  else (lx, .luaBody caller tok (tk ++ [ch]) depth)

/-- The code after the expansion loop: quotes, terminals and plain characters. -/
def plain (lx : Lexer) (r : Read) : Lexer × Point :=
  if r.ch = '"' ∨ r.ch = '\'' then
    if lx.token ≠ [] then (lx.push r.ch, .again) else (lx, .quoted r.ch)
  else if r.ch = '{' ∨ r.ch = '}' ∨ r.ch = ';' then
    let lx := if lx.token ≠ [] then { lx.emit lx.token lx.line false with token := [] } else lx
    ({ lx.emit [r.ch] r.line false with nextTokenIsDirective := true }, .again)
  else (lx.push r.ch, .again)

/-- The code after the whitespace branch. -/
def dispatch (lx : Lexer) (r : Read) : Lexer × Point :=
  if lx.token = [] ∧ r.ch = '#' then (lx.push r.ch, .comment r.line)
  else if r.ch = '\\' then (lx.push r.ch, .escape)
  else
    let lx := if lx.token = [] then { lx with line := r.line } else lx
    if lx.token.getLast? = some '$' ∧ r.ch = '{' then
      ({ lx with nextTokenIsDirective := false }.push r.ch, .expansion)
    else plain lx r

/-- Whitespace read at the top of the loop. -/
def afterWord (lx : Lexer) : Lexer × Point :=
  if lx.token ≠ [] then
    let lx := lx.emit lx.token lx.line false
    if lx.custom then luaEnter lx .word
    else ({ lx with nextTokenIsDirective := false, token := [] }, .spaces)
  else (lx, .spaces)

/-- The closing quote of a quoted word. -/
def afterQuote (lx : Lexer) : Lexer × Point :=
  let lx := lx.emit lx.token lx.line true
  if lx.custom then luaEnter lx .quoted
  else ({ lx with nextTokenIsDirective := false, token := [] }, .again)

def proceed (lx : Lexer) (r : Read) : Point → Lexer × Point
  | .again =>
    if r.eof then (lx, .returned none)
    else if isSpace r.ch then afterWord lx else dispatch lx r
  | .spaces => if isSpace r.ch then (lx, .spaces) else dispatch lx r
  | .comment line =>
    if r.ch ≠ '\n' then (lx.push r.ch, .comment line)
    else ({ lx.emit lx.token line false with token := [] }, .again)
  | .escape => (lx.push r.ch, .again)
  | .expansion =>
    if lx.token.getLast? ≠ some '}' ∧ isSpace r.ch = false then (lx.push r.ch, .expansion)
    else plain lx r
  | .quoted quote =>
    if r.ch ≠ quote then
      if r.ch = '\\' then (lx, .quotedEscape quote) else (lx.push r.ch, .quoted quote)
    else afterQuote lx
  | .quotedEscape quote =>
    if r.ch = quote then (lx.push quote, .quoted quote)
    else ((lx.push '\\').push r.ch, .quoted quote)
  | .luaArg caller arg tok =>
    if r.eof then (lx, .luaOpen caller tok)
    else if isSpace r.ch then
      if arg ≠ [] then (lx, .luaArg caller (arg ++ [r.ch]) (tok ++ [⟨arg, r.line, false⟩]))
      else (lx, .luaArgSpaces caller arg tok)
    else (lx, .luaArg caller (arg ++ [r.ch]) tok)
  | .luaArgSpaces caller arg tok =>
    if isSpace r.ch then (lx, .luaArgSpaces caller arg tok)
    else (lx, .luaArg caller (arg ++ [r.ch]) tok)
  | .luaOpen caller tok =>
    if isSpace r.ch then (lx, .luaOpen caller tok)
    else if r.eof then (lx, .returned (some .eof))
    else if r.ch ≠ '{' then
      (lx, .returned (some (.ngx ⟨"expected \x7b to start Lua block".toList, r.line, []⟩)))
    else (lx, .luaBody caller tok [] 1)
  | .luaBody caller tok tk depth =>
    if r.eof then luaReturn lx [] caller
    else if r.ch = '{' then luaRound lx caller tok tk (depth + 1) r.ch r.line
    else if r.ch = '}' then luaRound lx caller tok tk (depth - 1) r.ch r.line
    else if r.ch = '"' ∨ r.ch = '\'' then
      (lx, .luaString caller tok (tk ++ [r.ch]) depth r.ch)
    else luaRound lx caller tok tk depth r.ch r.line
  | .luaString caller tok tk depth quote =>
    if r.ch ≠ quote then (lx, .luaString caller tok (tk ++ [r.ch]) depth quote)
    else luaRound lx caller tok tk depth r.ch r.line
  | .returned err => (lx, .returned err)

structure LexState where
  lexer : Lexer
  iter : LineCounter
  point : Point

def step (s : LexState) : Option LexState :=
  match s.point with
  | .returned _ => none
  | point =>
    let (r, iter) := s.iter.next
    let (lexer, point) := proceed s.lexer r point
    some ⟨lexer, iter, point⟩

theorem step_read {lx : Lexer} {ch : Char} {rest : Text} {line : Nat} {p : Point}
    (live : ∀ err, p ≠ .returned err) :
    step ⟨lx, ⟨ch :: rest, line⟩, p⟩ =
      some ⟨(proceed lx ⟨ch, countLine line ch, false⟩ p).1, ⟨rest, countLine line ch⟩,
        (proceed lx ⟨ch, countLine line ch, false⟩ p).2⟩ := by
  cases p with
  | returned err => exact absurd rfl (live err)
  | _ => rfl

theorem step_eof {lx : Lexer} {line : Nat} {p : Point} (live : ∀ err, p ≠ .returned err) :
    step ⟨lx, ⟨[], line⟩, p⟩ =
      some ⟨(proceed lx ⟨nul, 0, true⟩ p).1, ⟨[], line⟩,
        (proceed lx ⟨nul, 0, true⟩ p).2⟩ := by
  cases p with
  | returned err => exact absurd rfl (live err)
  | _ => rfl

/-- `newLexer` on the given runes. -/
def start (input : Text) : LexState := ⟨⟨[], [], 0, false⟩, ⟨input, 1⟩, .again⟩

/-- `lexer.lex` returns the given error, with these tokens in `lx.tokens`. -/
def Returns (input : Text) (err : Option LexError) (tokens : List Token) : Prop :=
  ∃ s, Reaches step (start input) s ∧ s.point = .returned err ∧ s.lexer.tokens = tokens

def balanceLoop (filename : Text) : Int → Nat → List Token → Option NgxError
  | depth, line, [] =>
    if depth > 0 then some ⟨"unexpected end of file, expecting \x7d".toList, line, filename⟩
    else none
  | depth, _, t :: ts =>
    let depth := if t.is ['}'] then depth - 1 else if t.is ['{'] then depth + 1 else depth
    if depth < 0 then some ⟨"unexpected \x7d".toList, t.line, filename⟩
    else balanceLoop filename depth t.line ts

def balanceBraces (tokens : List Token) (filename : Text) : Option NgxError :=
  balanceLoop filename 0 0 tokens

/-- `lex`, given at most `fuel` calls of `Next`; `none` when these were not enough. -/
def lex (fuel : Nat) (input filename : Text) : Option (Except LexError (List Token)) :=
  let s := Transitions.run step fuel (start input)
  match s.point with
  | .returned (some err) => some (.error err)
  | .returned none =>
    match balanceBraces s.lexer.tokens filename with
    | some err => some (.error (.ngx err))
    | none => some (.ok s.lexer.tokens)
  | _ => none

/-- Enough calls of `Next` give what the loop returns, once the braces are balanced. -/
theorem lex_of_returns {input filename : Text} {tokens : List Token}
    (returns : Returns input none tokens) (balanced : balanceBraces tokens filename = none) :
    ∃ enough, ∀ fuel, enough ≤ fuel → lex fuel input filename = some (.ok tokens) := by
  obtain ⟨s, path, point, rfl⟩ := returns
  obtain ⟨n, reached⟩ := Transitions.run_of_reaches path
  have final : step (Transitions.run step n (start input)) = none := by rw [reached, step, point]
  refine ⟨n, fun fuel enough => ?_⟩
  obtain ⟨m, rfl⟩ := Nat.exists_eq_add_of_le enough
  rw [lex, Transitions.run_stable final m, reached]
  simp only [point, balanced]

theorem returns_of_lex {fuel : Nat} {input filename : Text} {tokens : List Token}
    (lexed : lex fuel input filename = some (.ok tokens)) : Returns input none tokens := by
  refine ⟨_, Transitions.reaches_run fuel (start input), ?_⟩
  rw [lex] at lexed
  split at lexed
  · cases lexed
  · rename_i point
    split at lexed
    · cases lexed
    · cases lexed
      exact ⟨point, rfl⟩
  · cases lexed

end ConfigLex
