import Vince.ConfigLex

/-!
# When the lexer returns

Only the top of the loop and two loops of the Lua lexer look at the error of `Next`.
A comment, a quoted word, an unclosed `${` and a Lua string read on at the end of the
file for ever. `Mode` is the little a reader of the text has to remember to know where
its end falls; `returns_iff_closed` shows that this decides termination exactly.
-/

namespace LexTermination

open GoText ConfigLex Transitions

/-- Where a position of the text lies. `d` says whether a directive is expected. -/
inductive Mode where
  | between (d : Bool)
  | word (d : Bool) (token : Text)
  | escape (d : Bool) (token : Text)
  | comment (d : Bool)
  | expansion (token : Text)
  | quoted (d : Bool) (quote : Char) (token : Text)
  | quotedEscape (d : Bool) (quote : Char) (token : Text)
  | luaArgs
  | luaOpen
  | luaBody (depth : Nat)
  | luaString (depth : Nat) (quote : Char)
  | failed

def Mode.plain (d : Bool) (token : Text) (c : Char) : Mode :=
  if c = '"' ∨ c = '\'' then
    if token ≠ [] then .word d (token ++ [c]) else .quoted d c []
  else if c = '{' ∨ c = '}' ∨ c = ';' then .between true
  else .word d (token ++ [c])

def Mode.dispatch (d : Bool) (token : Text) (c : Char) : Mode :=
  if token = [] ∧ c = '#' then .comment d
  else if c = '\\' then .escape d (token ++ [c])
  else if token.getLast? = some '$' ∧ c = '{' then .expansion (token ++ [c])
  else .plain d token c

/-- After a complete word: a Lua block follows a Lua directive. -/
def Mode.wordEnd (d : Bool) (token : Text) : Mode :=
  if d && luaDirectives.contains token then
    if token = setByLuaBlock then .luaArgs else .luaOpen
  else .between false

def Mode.read : Mode → Char → Mode
  | .between d, c => if isSpace c then .between d else .dispatch d [] c
  | .word d token, c => if isSpace c then .wordEnd d token else .dispatch d token c
  | .escape d token, c => .word d (token ++ [c])
  | .comment d, c => if c = '\n' then .between d else .comment d
  | .expansion token, c =>
    if token.getLast? ≠ some '}' ∧ isSpace c = false then .expansion (token ++ [c])
    else .plain false token c
  | .quoted d quote token, c =>
    if c = quote then .wordEnd d token
    else if c = '\\' then .quotedEscape d quote token
    else .quoted d quote (token ++ [c])
  | .quotedEscape d quote token, c =>
    .quoted d quote (token ++ if c = quote then [quote] else ['\\', c])
  | .luaArgs, _ => .luaArgs
  | .luaOpen, c => if isSpace c then .luaOpen else if c = '{' then .luaBody 1 else .failed
  | .luaBody depth, c =>
    if c = '{' then .luaBody (depth + 1)
    else if c = '}' then if depth = 1 then .between true else .luaBody (depth - 1)
    else if c = '"' ∨ c = '\'' then .luaString depth c
    else .luaBody depth
  | .luaString depth quote, c => if c = quote then .luaBody depth else .luaString depth quote
  | .failed, _ => .failed

/-- The mode of the end of the text. -/
def endMode (input : Text) : Mode := input.foldl Mode.read (.between false)

/-- Something was opened that only a further character could close. -/
def Mode.Open : Mode → Prop
  | .comment _ => True
  | .quoted _ _ _ => True
  | .quotedEscape _ _ _ => True
  | .luaString _ _ => True
  | .expansion token => token.getLast? ≠ some '}'
  | _ => False

/-- The lexer's state seen as a mode. -/
inductive Sim (lx : Lexer) : Point → Mode → Prop where
  | again (h : lx.token = []) : Sim lx .again (.between lx.nextTokenIsDirective)
  | spaces (h : lx.token = []) : Sim lx .spaces (.between lx.nextTokenIsDirective)
  | word (h : lx.token ≠ []) : Sim lx .again (.word lx.nextTokenIsDirective lx.token)
  | escape : Sim lx .escape (.escape lx.nextTokenIsDirective lx.token)
  | comment (line : Nat) : Sim lx (.comment line) (.comment lx.nextTokenIsDirective)
  | expansion (h : lx.nextTokenIsDirective = false) (hne : lx.token ≠ []) :
      Sim lx .expansion (.expansion lx.token)
  | quoted (q : Char) (h : q = '"' ∨ q = '\'') :
      Sim lx (.quoted q) (.quoted lx.nextTokenIsDirective q lx.token)
  | quotedEscape (q : Char) (h : q = '"' ∨ q = '\'') :
      Sim lx (.quotedEscape q) (.quotedEscape lx.nextTokenIsDirective q lx.token)
  | luaArg (caller : Caller) (arg : Text) (tok : List Token) :
      Sim lx (.luaArg caller arg tok) .luaArgs
  | luaArgSpaces (caller : Caller) (arg : Text) (tok : List Token) :
      Sim lx (.luaArgSpaces caller arg tok) .luaArgs
  | luaOpen (caller : Caller) (tok : List Token) (h : lx.nextTokenIsDirective = true) :
      Sim lx (.luaOpen caller tok) .luaOpen
  | luaBody (caller : Caller) (tok : List Token) (tk : Text) (depth : Nat)
      (h : lx.nextTokenIsDirective = true) (hpos : 0 < depth) :
      Sim lx (.luaBody caller tok tk depth) (.luaBody depth)
  | luaString (caller : Caller) (tok : List Token) (tk : Text) (depth : Nat) (q : Char)
      (h : lx.nextTokenIsDirective = true) (hpos : 0 < depth) (hq : q = '"' ∨ q = '\'') :
      Sim lx (.luaString caller tok tk depth q) (.luaString depth q)
  | failed (err : LexError) : Sim lx (.returned (some err)) .failed

theorem sim_plain {lx : Lexer} {r : Read} {d : Bool} (hd : lx.nextTokenIsDirective = d) :
    Sim (ConfigLex.plain lx r).1 (ConfigLex.plain lx r).2 (Mode.plain d lx.token r.ch) := by
  subst hd
  by_cases hquote : r.ch = '"' ∨ r.ch = '\''
  · by_cases htoken : lx.token = []
    · simp only [ConfigLex.plain, Mode.plain, hquote, htoken, ne_eq, not_true_eq_false, if_true,
        if_false]
      rw [← htoken]
      exact Sim.quoted r.ch hquote
    · simp only [ConfigLex.plain, Mode.plain, hquote, htoken, ne_eq, not_false_eq_true, if_true]
      exact Sim.word (by simp [Lexer.push])
  · by_cases hterm : r.ch = '{' ∨ r.ch = '}' ∨ r.ch = ';'
    · simp only [ConfigLex.plain, Mode.plain, hquote, hterm, if_true, if_false]
      by_cases htoken : lx.token = []
      · exact Sim.again (by simp [htoken, Lexer.emit])
      · exact Sim.again (by simp [htoken, Lexer.emit])
    · simp only [ConfigLex.plain, Mode.plain, hquote, hterm, if_false]
      exact Sim.word (by simp [Lexer.push])

theorem sim_dispatch {lx : Lexer} {r : Read} {d : Bool} (hd : lx.nextTokenIsDirective = d) :
    Sim (ConfigLex.dispatch lx r).1 (ConfigLex.dispatch lx r).2
      (Mode.dispatch d lx.token r.ch) := by
  subst hd
  by_cases hcomment : lx.token = [] ∧ r.ch = '#'
  · simp only [ConfigLex.dispatch, Mode.dispatch, hcomment, if_true]
    exact Sim.comment r.line
  by_cases hslash : r.ch = '\\'
  · simp only [ConfigLex.dispatch, Mode.dispatch, hcomment, if_false, if_pos hslash]
    exact Sim.escape
  simp only [ConfigLex.dispatch, Mode.dispatch, hcomment, hslash, if_false]
  -- the line of a fresh token is no part of the mode
  have same : (if lx.token = [] then { lx with line := r.line } else lx).token = lx.token := by
    split <;> rfl
  have flag : (if lx.token = [] then { lx with line := r.line } else lx).nextTokenIsDirective =
      lx.nextTokenIsDirective := by
    split <;> rfl
  generalize (if lx.token = [] then { lx with line := r.line } else lx) = lx' at same flag ⊢
  rw [← same]
  by_cases hexp : lx'.token.getLast? = some '$' ∧ r.ch = '{'
  · simp only [hexp, and_self, if_true]
    exact Sim.expansion rfl (by simp [Lexer.push])
  · simp only [hexp, if_false]
    exact sim_plain flag

theorem sim_luaEnter {lx : Lexer} (caller : Caller) (hd : lx.nextTokenIsDirective = true) :
    Sim (luaEnter lx caller).1 (luaEnter lx caller).2
      (if lx.token = setByLuaBlock then .luaArgs else .luaOpen) := by
  by_cases h : lx.token = setByLuaBlock
  · simp only [luaEnter, h, if_true]
    exact Sim.luaArg caller [] []
  · simp only [luaEnter, h, if_false]
    exact Sim.luaOpen caller [] hd

theorem sim_afterWord {lx : Lexer} (h : lx.token ≠ []) :
    Sim (afterWord lx).1 (afterWord lx).2
      (Mode.wordEnd lx.nextTokenIsDirective lx.token) := by
  have hcustom : (lx.emit lx.token lx.line false).custom =
      (lx.nextTokenIsDirective && luaDirectives.contains lx.token) := rfl
  rw [afterWord, if_pos h, Mode.wordEnd, ← hcustom]
  by_cases hc : (lx.emit lx.token lx.line false).custom = true
  · simp only [hc, if_true]
    exact sim_luaEnter .word (by rw [hcustom, Bool.and_eq_true] at hc; exact hc.1)
  · simp only [hc]
    exact Sim.spaces rfl

theorem sim_afterQuote (lx : Lexer) :
    Sim (afterQuote lx).1 (afterQuote lx).2
      (Mode.wordEnd lx.nextTokenIsDirective lx.token) := by
  have hcustom : (lx.emit lx.token lx.line true).custom =
      (lx.nextTokenIsDirective && luaDirectives.contains lx.token) := rfl
  rw [afterQuote, Mode.wordEnd, ← hcustom]
  by_cases hc : (lx.emit lx.token lx.line true).custom = true
  · simp only [hc, if_true]
    exact sim_luaEnter .quoted (by rw [hcustom, Bool.and_eq_true] at hc; exact hc.1)
  · simp only [hc]
    exact Sim.again rfl

theorem sim_luaReturn {lx : Lexer} (caller : Caller) (tok : List Token)
    (hd : lx.nextTokenIsDirective = true) :
    Sim (luaReturn lx tok caller).1 (luaReturn lx tok caller).2 (.between true) := by
  cases caller with
  | word =>
    rw [← hd]
    exact Sim.spaces rfl
  | quoted => exact Sim.again rfl

theorem sim_luaRound {lx : Lexer} (caller : Caller) (tok : List Token) (tk : Text) (depth : Nat)
    (ch : Char) (line : Nat) (hd : lx.nextTokenIsDirective = true) :
    Sim (luaRound lx caller tok tk depth ch line).1 (luaRound lx caller tok tk depth ch line).2
      (if depth = 0 then .between true else .luaBody depth) := by
  have hneg : ¬ (depth : Int) < 0 := by omega
  by_cases hzero : depth = 0
  · subst hzero
    simpa [luaRound] using sim_luaReturn caller [] hd
  · have hz : ¬ (depth : Int) = 0 := by omega
    simp only [luaRound, hneg, hz, hzero, if_false]
    exact Sim.luaBody caller tok (tk ++ [ch]) depth hd (by omega)

theorem sim_luaBody {lx : Lexer} (caller : Caller) (tok : List Token) (tk : Text) {depth : Nat}
    (c : Char) (n : Nat) (h : lx.nextTokenIsDirective = true) (hpos : 0 < depth) :
    Sim (proceed lx ⟨c, n, false⟩ (.luaBody caller tok tk depth)).1
      (proceed lx ⟨c, n, false⟩ (.luaBody caller tok tk depth)).2
      ((Mode.luaBody depth).read c) := by
  by_cases hopen : c = '{'
  · simp only [proceed, Mode.read, if_pos hopen, Bool.false_eq_true, if_false]
    simpa using sim_luaRound caller tok tk (depth + 1) c n h
  by_cases hclose : c = '}'
  · simp only [proceed, Mode.read, if_neg hopen, if_pos hclose, Bool.false_eq_true, if_false]
    have hdepth : (depth : Int) - 1 = ((depth - 1 : Nat) : Int) := by omega
    have hone : depth - 1 = 0 ↔ depth = 1 := by omega
    simpa only [hdepth, hone] using sim_luaRound caller tok tk (depth - 1) c n h
  by_cases hquote : c = '"' ∨ c = '\''
  · simp only [proceed, Mode.read, if_neg hopen, if_neg hclose, if_pos hquote,
      Bool.false_eq_true, if_false]
    exact Sim.luaString caller tok (tk ++ [c]) depth c h hpos hquote
  · simp only [proceed, Mode.read, if_neg hopen, if_neg hclose, if_neg hquote,
      Bool.false_eq_true, if_false]
    simpa [Nat.pos_iff_ne_zero.mp hpos] using sim_luaRound caller tok tk depth c n h

/-- One character keeps the lexer and the mode together. -/
theorem sim_read {lx : Lexer} {p : Point} {m : Mode} {c : Char} {n : Nat} (h : Sim lx p m) :
    Sim (proceed lx ⟨c, n, false⟩ p).1 (proceed lx ⟨c, n, false⟩ p).2 (m.read c) := by
  cases h with
  | again h =>
    by_cases hc : isSpace c = true
    · simp only [proceed, Mode.read, hc, if_true, afterWord, h, ne_eq, not_true_eq_false, if_false]
      exact Sim.spaces h
    · simp only [proceed, Mode.read, hc]
      simpa [h] using sim_dispatch (r := ⟨c, n, false⟩) (rfl : lx.nextTokenIsDirective = _)
  | spaces h =>
    by_cases hc : isSpace c = true
    · simp only [proceed, Mode.read, hc, if_true]
      exact Sim.spaces h
    · simp only [proceed, Mode.read, hc]
      simpa [h] using sim_dispatch (r := ⟨c, n, false⟩) (rfl : lx.nextTokenIsDirective = _)
  | word h =>
    by_cases hc : isSpace c = true
    · simpa only [proceed, Mode.read, hc, Bool.false_eq_true, if_true, if_false] using
        sim_afterWord h
    · simpa only [proceed, Mode.read, hc, Bool.false_eq_true, if_false] using
        sim_dispatch (r := ⟨c, n, false⟩) (rfl : lx.nextTokenIsDirective = _)
  | escape => exact Sim.word (by simp [proceed, Lexer.push])
  | comment line =>
    by_cases hc : c = '\n'
    · simp only [proceed, Mode.read, hc, ne_eq, not_true_eq_false, if_true, if_false]
      exact Sim.again rfl
    · simp only [proceed, Mode.read, hc, ne_eq, not_false_eq_true, if_true, if_false]
      exact Sim.comment line
  | expansion h hne =>
    by_cases hc : lx.token.getLast? ≠ some '}' ∧ isSpace c = false
    · simp only [proceed, Mode.read, hc, if_true, ne_eq, not_false_eq_true, and_self]
      exact Sim.expansion h (by simp [Lexer.push])
    · simpa only [proceed, Mode.read, hc, if_false] using
        sim_plain (r := ⟨c, n, false⟩) h
  | quoted q hq =>
    by_cases hc : c = q
    · simpa only [proceed, Mode.read, hc, ne_eq, not_true_eq_false, if_true, if_false] using
        sim_afterQuote lx
    · by_cases hs : c = '\\'
      · simp only [proceed, Mode.read, if_pos hc, if_neg hc, if_pos hs, ne_eq]
        exact Sim.quotedEscape q hq
      · simp only [proceed, Mode.read, hc, hs, ne_eq, not_false_eq_true, if_true, if_false]
        exact Sim.quoted q hq
  | quotedEscape q hq =>
    by_cases hc : c = q
    · simp only [proceed, Mode.read, hc, if_true]
      exact Sim.quoted q hq
    · simp only [proceed, Mode.read, hc, if_false]
      simpa [Lexer.push] using Sim.quoted q hq
  | luaArg caller arg tok =>
    by_cases hc : isSpace c = true
    · by_cases ha : arg = []
      · simp only [proceed, Mode.read, hc, ha, ne_eq, not_true_eq_false, if_true, if_false]
        exact Sim.luaArgSpaces caller [] tok
      · simp only [proceed, Mode.read, hc, ha, ne_eq, not_false_eq_true, if_true]
        exact Sim.luaArg caller _ _
    · simp only [proceed, Mode.read, hc]
      exact Sim.luaArg caller _ _
  | luaArgSpaces caller arg tok =>
    by_cases hc : isSpace c = true
    · simp only [proceed, Mode.read, hc, if_true]
      exact Sim.luaArgSpaces caller arg tok
    · simp only [proceed, Mode.read, hc]
      exact Sim.luaArg caller _ _
  | luaOpen caller tok h =>
    by_cases hc : isSpace c = true
    · simp only [proceed, Mode.read, hc, if_true]
      exact Sim.luaOpen caller tok h
    · by_cases hb : c = '{'
      · simp only [proceed, Mode.read, hb, if_true, ne_eq, not_true_eq_false,
          Bool.false_eq_true, if_false]
        exact Sim.luaBody caller tok [] 1 h (by omega)
      · simp only [proceed, Mode.read, hc, hb, if_true, ne_eq, not_false_eq_true, if_false]
        exact Sim.failed _
  | luaBody caller tok tk depth h hpos => exact sim_luaBody caller tok tk c n h hpos
  | luaString caller tok tk depth q h hpos hq =>
    by_cases hc : c = q
    · simp only [proceed, Mode.read, ne_eq, hc, not_true_eq_false, if_false]
      simpa [Nat.pos_iff_ne_zero.mp hpos] using sim_luaRound caller tok tk depth q n h
    · simp only [proceed, Mode.read, ne_eq, hc, not_false_eq_true, if_true]
      exact Sim.luaString caller tok (tk ++ [c]) depth q h hpos hq
  | failed err => exact Sim.failed err

theorem foldl_read_failed (input : Text) : input.foldl Mode.read .failed = .failed := by
  induction input with
  | nil => rfl
  | cons c input ih => exact ih

theorem not_returned_of_sim {lx : Lexer} {p : Point} {m : Mode} (h : Sim lx p m)
    (hm : m ≠ .failed) (err : Option LexError) : p ≠ .returned err := by
  rintro rfl
  cases h
  exact hm rfl

/-- Reading the whole text, the lexer either follows the modes to its end or has already
returned an error. -/
theorem sim_run {s : LexState} {m : Mode} {input : Text} (hinput : s.iter.input = input)
    (h : Sim s.lexer s.point m) :
    Leads step s (fun t => Sim t.lexer t.point (input.foldl Mode.read m) ∧
      (t.iter.input = [] ∨ input.foldl Mode.read m = .failed)) := by
  induction input generalizing s m with
  | nil => exact .here ⟨h, Or.inl hinput⟩
  | cons c rest ih =>
    by_cases hm : m = .failed
    · subst hm
      exact .here ⟨by rwa [foldl_read_failed], Or.inr (foldl_read_failed _)⟩
    · obtain ⟨lx, ⟨inp, line⟩, p⟩ := s
      simp only at hinput h
      subst hinput
      exact .next (step_read (not_returned_of_sim h hm)) (ih rfl (sim_read h))

theorem plain_nul (lx : Lexer) : (ConfigLex.plain lx ⟨nul, 0, true⟩).2 = .again := rfl

theorem dispatch_nul (lx : Lexer) : (ConfigLex.dispatch lx ⟨nul, 0, true⟩).2 = .again := by
  have hhash : ¬ (lx.token = [] ∧ nul = '#') := fun h => absurd h.2 (by decide)
  have hslash : nul ≠ '\\' := by decide
  have hbrace : nul ≠ '{' := by decide
  simp only [ConfigLex.dispatch, if_neg hhash, if_neg hslash, hbrace, and_false, if_false]
  exact plain_nul _

theorem halts_again (lx : Lexer) (line : Nat) : Halts step ⟨lx, ⟨[], line⟩, .again⟩ :=
  (halts_of_step (step_eof (by simp))).mpr (halts_of_final rfl)

theorem halts_spaces (lx : Lexer) (line : Nat) : Halts step ⟨lx, ⟨[], line⟩, .spaces⟩ := by
  apply (halts_of_step (step_eof (by simp))).mpr
  have hnul : proceed lx ⟨nul, 0, true⟩ .spaces = ConfigLex.dispatch lx ⟨nul, 0, true⟩ := rfl
  rw [hnul, dispatch_nul]
  exact halts_again _ _

theorem halts_luaOpen (lx : Lexer) (line : Nat) (caller : Caller) (tok : List Token) :
    Halts step ⟨lx, ⟨[], line⟩, .luaOpen caller tok⟩ :=
  (halts_of_step (step_eof (by simp))).mpr (halts_of_final rfl)

theorem halts_luaArg (lx : Lexer) (line : Nat) (caller : Caller) (arg : Text)
    (tok : List Token) : Halts step ⟨lx, ⟨[], line⟩, .luaArg caller arg tok⟩ :=
  (halts_of_step (step_eof (by simp))).mpr (halts_luaOpen lx line caller tok)

/-- The loops that ignore the error of `Next`: at the end of the file they only ever see
the zero rune, which is none of the characters they wait for. -/
def Trapped (s : LexState) : Prop :=
  s.iter.input = [] ∧ match s.point with
    | .comment _ => True
    | .quoted q => q = '"' ∨ q = '\''
    | .quotedEscape q => q = '"' ∨ q = '\''
    | .luaString _ _ _ _ q => q = '"' ∨ q = '\''
    | .expansion => s.lexer.token.getLast? ≠ some '}'
    | _ => False

theorem nul_ne_quote {q : Char} (h : q = '"' ∨ q = '\'') : nul ≠ q := by
  rcases h with rfl | rfl <;> decide

theorem trapped_step (s : LexState) (h : Trapped s) : ∃ t, step s = some t ∧ Trapped t := by
  obtain ⟨lx, ⟨input, line⟩, p⟩ := s
  obtain ⟨hinput, hpoint⟩ := h
  simp only at hinput
  subst hinput
  cases p with
  | comment n => exact ⟨_, step_eof (by simp), rfl, trivial⟩
  | quoted q =>
    refine ⟨_, step_eof (by simp), rfl, ?_⟩
    simpa [proceed, nul_ne_quote hpoint, show nul ≠ '\\' by decide] using hpoint
  | quotedEscape q =>
    refine ⟨_, step_eof (by simp), rfl, ?_⟩
    simpa [proceed, nul_ne_quote hpoint] using hpoint
  | luaString caller tok tk depth q =>
    refine ⟨_, step_eof (by simp), rfl, ?_⟩
    simpa [proceed, nul_ne_quote hpoint] using hpoint
  | expansion =>
    have hlast : lx.token.getLast? ≠ some '}' := hpoint
    refine ⟨_, step_eof (by simp), rfl, ?_⟩
    have hpush : proceed lx ⟨nul, 0, true⟩ .expansion = (lx.push nul, .expansion) := by
      simp [proceed, hlast, show isSpace nul = false by decide]
    rw [hpush]
    simp [Lexer.push, show nul ≠ '}' by decide]
  | _ => exact False.elim hpoint

theorem not_halts_of_trapped {s : LexState} (h : Trapped s) : ¬ Halts step s :=
  not_halts_of_invariant Trapped trapped_step h

/-- At the end of the text the mode decides. -/
theorem halts_at_end {lx : Lexer} {line : Nat} {p : Point} {m : Mode} (h : Sim lx p m) :
    Halts step ⟨lx, ⟨[], line⟩, p⟩ ↔ ¬ m.Open := by
  cases h with
  | again _ => simpa [Mode.Open] using halts_again lx line
  | spaces _ => simpa [Mode.Open] using halts_spaces lx line
  | word _ => simpa [Mode.Open] using halts_again lx line
  | escape =>
    have next : Halts step ⟨lx, ⟨[], line⟩, .escape⟩ :=
      (halts_of_step (step_eof (by simp))).mpr (halts_again _ _)
    simpa [Mode.Open] using next
  | comment n =>
    simpa [Mode.Open] using not_halts_of_trapped (s := ⟨lx, ⟨[], line⟩, .comment n⟩) ⟨rfl, trivial⟩
  | expansion _ hne =>
    by_cases hlast : lx.token.getLast? = some '}'
    · have next : Halts step ⟨lx, ⟨[], line⟩, .expansion⟩ := by
        apply (halts_of_step (step_eof (by simp))).mpr
        have hend : proceed lx ⟨nul, 0, true⟩ .expansion = ConfigLex.plain lx ⟨nul, 0, true⟩ := by
          simp [proceed, hlast]
        rw [hend, plain_nul]
        exact halts_again _ _
      simpa [Mode.Open, hlast] using next
    · simpa [Mode.Open, hlast] using
        not_halts_of_trapped (s := ⟨lx, ⟨[], line⟩, .expansion⟩) ⟨rfl, hlast⟩
  | quoted q hq =>
    simpa [Mode.Open] using not_halts_of_trapped (s := ⟨lx, ⟨[], line⟩, .quoted q⟩) ⟨rfl, hq⟩
  | quotedEscape q hq =>
    simpa [Mode.Open] using not_halts_of_trapped (s := ⟨lx, ⟨[], line⟩, .quotedEscape q⟩) ⟨rfl, hq⟩
  | luaArg caller arg tok => simpa [Mode.Open] using halts_luaArg lx line caller arg tok
  | luaArgSpaces caller arg tok =>
    have next : Halts step ⟨lx, ⟨[], line⟩, .luaArgSpaces caller arg tok⟩ :=
      (halts_of_step (step_eof (by simp))).mpr (halts_luaArg _ _ caller _ tok)
    simpa [Mode.Open] using next
  | luaOpen caller tok _ => simpa [Mode.Open] using halts_luaOpen lx line caller tok
  | luaBody caller tok tk depth _ _ =>
    have next : Halts step ⟨lx, ⟨[], line⟩, .luaBody caller tok tk depth⟩ := by
      apply (halts_of_step (step_eof (by simp))).mpr
      cases caller with
      | word => exact halts_spaces _ _
      | quoted => exact halts_again _ _
    simpa [Mode.Open] using next
  | luaString caller tok tk depth q _ _ hq =>
    simpa [Mode.Open] using
      not_halts_of_trapped (s := ⟨lx, ⟨[], line⟩, .luaString caller tok tk depth q⟩) ⟨rfl, hq⟩
  | failed err =>
    have final : Halts step ⟨lx, ⟨[], line⟩, .returned (some err)⟩ := halts_of_final rfl
    simpa [Mode.Open] using final

/-- `lexer.lex` returns after finitely many calls of `Next` exactly when the text does not
end inside a comment, a quoted word, an open `${` or a Lua string. -/
theorem returns_iff_closed (input : Text) :
    Halts step (start input) ↔ ¬ (endMode input).Open := by
  obtain ⟨t, path, hsim, hend⟩ := sim_run (s := start input) (m := .between false)
    (show (start input).iter.input = input from rfl) (Sim.again rfl)
  rw [halts_of_reaches path, endMode]
  rcases hend with hinput | hfailed
  · obtain ⟨lx, ⟨inp, line⟩, p⟩ := t
    simp only at hinput hsim
    subst hinput
    exact halts_at_end hsim
  · rw [hfailed] at hsim ⊢
    cases hp : t.point with
    | returned err =>
      have final : Halts step t := halts_of_final (by simp [step, hp])
      simpa [Mode.Open] using final
    | _ => rw [hp] at hsim; cases hsim

/-- A comment on the last line without its newline: the lexer never returns. -/
theorem unterminated_comment_diverges : ¬ Halts step (start "#".toList) := by
  have edge : step (start "#".toList) = some ⟨⟨['#'], [], 0, false⟩, ⟨[], 1⟩, .comment 1⟩ := rfl
  rw [halts_of_step edge]
  exact not_halts_of_trapped ⟨rfl, trivial⟩

end LexTermination
