import Vince.LexLayout
import Vince.LexTermination

/-!
# What a run of the lexer keeps

Every step reads one rune, as long as there is one, and tokens once emitted stay. At the end of
the file no step emits anything, so the tokens of a state are determined by where the run began
and by the input still to come.
-/

namespace LexProgress

open GoText ConfigLex LexLayout LexTermination Transitions StateTransition Relation

variable {s t u : LexState} {lx : Lexer} {input : Text} {tokens : List Token}

/-! ## One rune at the top of the loop -/

/-- The runes that are tokens of their own. -/
def terminals : Text := ['{', '}', ';']

theorem mem_terminals {ch : Char} : ch ∈ terminals ↔ ch = '{' ∨ ch = '}' ∨ ch = ';' := by
  simp [terminals]

/-- Between two tokens. Only the last three cases record the line. -/
theorem dispatch_nil (empty : lx.token = []) (r : Read) : dispatch lx r =
    if r.ch = '#' then (lx.push r.ch, .comment r.line)
    else if r.ch = '\\' then (lx.push r.ch, .escape)
    else if r.ch = '"' ∨ r.ch = '\'' then ({ lx with line := r.line }, .quoted r.ch)
    else if r.ch ∈ terminals then
      ({ lx with
        line := r.line
        tokens := lx.tokens ++ [⟨[r.ch], r.line, false⟩]
        nextTokenIsDirective := true }, .again)
    else ({ lx with line := r.line, token := [r.ch] }, .again) := by
  have noDollar : ¬ (([] : Text).getLast? = some '$' ∧ r.ch = '{') := by simp
  simp only [dispatch, plain, mem_terminals, empty, true_and, if_true, if_neg noDollar, ne_eq,
    not_true_eq_false, if_false]
  rfl

/-- Inside a word a quote is a rune like others. -/
theorem plain_pending (pending : lx.token ≠ []) (r : Read) : plain lx r =
    if r.ch ∈ terminals then
      ({ lx with
        token := []
        tokens := lx.tokens ++ [⟨lx.token, lx.line, false⟩, ⟨[r.ch], r.line, false⟩]
        nextTokenIsDirective := true }, .again)
    else (lx.push r.ch, .again) := by
  by_cases quote : r.ch = '"' ∨ r.ch = '\''
  · have word : r.ch ∉ terminals := by
      rcases quote with same | same <;> rw [same] <;> decide
    simp [plain, quote, word, pending]
  · by_cases stop : r.ch ∈ terminals
    · have stop' := mem_terminals.mp stop
      simp [plain, quote, stop, stop', pending, Lexer.emit]
    · have word := mt mem_terminals.mpr stop
      simp [plain, quote, stop, word]

theorem dispatch_pending (pending : lx.token ≠ []) (r : Read) : dispatch lx r =
    if r.ch = '\\' then (lx.push r.ch, .escape)
    else if lx.token.getLast? = some '$' ∧ r.ch = '{' then
      ({ lx with nextTokenIsDirective := false }.push r.ch, .expansion)
    else plain lx r := by
  simp only [dispatch, pending, false_and, if_false]

/-! ## Emitted tokens stay -/

theorem plain_tokens (lx : Lexer) (r : Read) : lx.tokens <+: (plain lx r).1.tokens := by
  unfold plain
  split
  · split <;> exact List.prefix_rfl
  split
  · split <;> simp [Lexer.emit]
  · exact List.prefix_rfl

theorem dispatch_tokens (lx : Lexer) (r : Read) : lx.tokens <+: (dispatch lx r).1.tokens := by
  by_cases pending : lx.token = []
  · rw [dispatch_nil pending]
    split
    · exact List.prefix_rfl
    split
    · exact List.prefix_rfl
    split
    · exact List.prefix_rfl
    split
    · exact List.prefix_append _ _
    · exact List.prefix_rfl
  · rw [dispatch_pending pending]
    split
    · exact List.prefix_rfl
    split
    · exact List.prefix_rfl
    · exact plain_tokens lx r

theorem luaEnter_tokens (lx : Lexer) (caller : Caller) :
    (luaEnter lx caller).1.tokens = lx.tokens := by
  unfold luaEnter
  split <;> rfl

theorem luaReturn_tokens (lx : Lexer) (caller : Caller) :
    (luaReturn lx [] caller).1.tokens = lx.tokens := by
  cases caller <;> simp [luaReturn]

theorem luaRound_tokens (lx : Lexer) (caller : Caller) (tok : List Token) (tk : Text)
    (depth : Int) (ch : Char) (line : Nat) :
    (luaRound lx caller tok tk depth ch line).1.tokens = lx.tokens := by
  unfold luaRound
  split
  · rfl
  split
  · exact luaReturn_tokens lx caller
  · rfl

theorem afterWord_tokens (lx : Lexer) : lx.tokens <+: (afterWord lx).1.tokens := by
  unfold afterWord
  split
  · dsimp only
    split
    · rw [luaEnter_tokens]
      exact List.prefix_append _ _
    · exact List.prefix_append _ _
  · exact List.prefix_rfl

theorem afterQuote_tokens (lx : Lexer) : lx.tokens <+: (afterQuote lx).1.tokens := by
  unfold afterQuote
  dsimp only
  split
  · rw [luaEnter_tokens]
    exact List.prefix_append _ _
  · exact List.prefix_append _ _

theorem proceed_tokens (lx : Lexer) (r : Read) (p : Point) :
    lx.tokens <+: (proceed lx r p).1.tokens := by
  have kept {lx' : Lexer} (same : lx'.tokens = lx.tokens) : lx.tokens <+: lx'.tokens :=
    same ▸ List.prefix_rfl
  cases p with
  | again =>
    rw [proceed]
    split
    · exact List.prefix_rfl
    split
    · exact afterWord_tokens lx
    · exact dispatch_tokens lx r
  | spaces =>
    rw [proceed]
    split
    · exact List.prefix_rfl
    · exact dispatch_tokens lx r
  | comment line =>
    rw [proceed]
    split
    · exact List.prefix_rfl
    · exact List.prefix_append _ _
  | expansion =>
    rw [proceed]
    split
    · exact List.prefix_rfl
    · exact plain_tokens lx r
  | quoted quote =>
    rw [proceed]
    split
    · split <;> exact List.prefix_rfl
    · exact afterQuote_tokens lx
  | luaBody caller tok tk depth =>
    apply kept
    simp only [proceed, apply_ite Prod.fst, apply_ite Lexer.tokens, luaReturn_tokens,
      luaRound_tokens, ite_self]
  | luaString caller tok tk depth quote =>
    apply kept
    simp only [proceed, apply_ite Prod.fst, apply_ite Lexer.tokens, luaRound_tokens, ite_self]
  | _ =>
    apply kept
    simp only [proceed, apply_ite Prod.fst, apply_ite Lexer.tokens, Lexer.push, ite_self]

theorem step_proceed (edge : step s = some t) :
    t.lexer = (proceed s.lexer s.iter.next.1 s.point).1 ∧ t.iter = s.iter.next.2 ∧
      t.point = (proceed s.lexer s.iter.next.1 s.point).2 := by
  obtain ⟨lx, iter, p⟩ := s
  cases p with
  | returned err => cases edge
  | _ => cases edge; exact ⟨rfl, rfl, rfl⟩

theorem step_input (edge : step s = some t) : t.iter.input = s.iter.input.tail := by
  obtain ⟨-, iter, -⟩ := step_proceed edge
  obtain ⟨lx, ⟨input, line⟩, p⟩ := s
  cases input <;> simp [iter, LineCounter.next]

theorem tokens_kept (path : Reaches step s t) : s.lexer.tokens <+: t.lexer.tokens := by
  refine kept_by_run (I := fun t => s.lexer.tokens <+: t.lexer.tokens) ?_ List.prefix_rfl path
  intro t u before edge
  obtain ⟨lexer, -, -⟩ := step_proceed edge
  rw [lexer]
  exact before.trans (proceed_tokens _ _ _)

theorem length_input_le (path : Reaches step s t) : t.iter.input.length ≤ s.iter.input.length := by
  refine kept_by_run (I := fun t => t.iter.input.length ≤ s.iter.input.length) ?_ le_rfl path
  intro t u shorter edge
  rw [step_input edge, List.length_tail]
  omega

/-! ## Nothing is emitted at the end of the file -/

/-- Quoted words are in one of the two quotes. -/
def Quoting (p : Point) : Prop :=
  ∀ q, p = .quoted q ∨ p = .quotedEscape q → q = '"' ∨ q = '\''

theorem quoting_of_sim {p : Point} {m : Mode} (sim : Sim lx p m) : Quoting p := by
  cases sim with
  | quoted q mark => simpa [Quoting] using mark
  | quotedEscape q mark => simpa [Quoting] using mark
  | _ => simp [Quoting]

theorem plain_eof (lx : Lexer) : (plain lx ⟨nul, 0, true⟩).1.tokens = lx.tokens := rfl

theorem dispatch_eof (lx : Lexer) : (dispatch lx ⟨nul, 0, true⟩).1.tokens = lx.tokens := by
  by_cases pending : lx.token = []
  · rw [dispatch_nil pending]
    rfl
  · rw [dispatch_pending pending, if_neg (by decide : nul ≠ '\\'),
      if_neg (fun both => absurd both.2 (by decide))]
    exact plain_eof lx

theorem proceed_eof {p : Point} (quoting : Quoting p) (lx : Lexer) :
    (proceed lx ⟨nul, 0, true⟩ p).1.tokens = lx.tokens ∧
      Quoting (proceed lx ⟨nul, 0, true⟩ p).2 := by
  have blank : isSpace nul = false := by decide
  cases p with
  | comment line =>
    rw [proceed, if_pos (by decide : nul ≠ '\n')]
    exact ⟨rfl, by simp [Quoting]⟩
  | spaces =>
    rw [proceed, blank]
    refine ⟨dispatch_eof lx, ?_⟩
    have next : (dispatch lx ⟨nul, 0, true⟩).2 = .again := dispatch_nul lx
    simp [next, Quoting]
  | expansion =>
    rw [proceed]
    split
    · exact ⟨rfl, by simp [Quoting]⟩
    · exact ⟨plain_eof lx, by simp [Quoting, plain_nul]⟩
  | quoted quote =>
    have mark := quoting quote (.inl rfl)
    rw [proceed, if_pos (nul_ne_quote mark), if_neg (by decide : nul ≠ '\\')]
    exact ⟨rfl, by simpa [Quoting] using mark⟩
  | quotedEscape quote =>
    have mark := quoting quote (.inr rfl)
    rw [proceed, if_neg (nul_ne_quote mark)]
    exact ⟨rfl, by simpa [Quoting] using mark⟩
  | luaBody caller tok tk depth =>
    refine ⟨luaReturn_tokens lx caller, ?_⟩
    cases caller <;> simp [Quoting, proceed, luaReturn]
  | luaString caller tok tk depth quote =>
    rw [proceed]
    split
    · exact ⟨rfl, by simp [Quoting]⟩
    · refine ⟨luaRound_tokens _ _ _ _ _ _ _, ?_⟩
      unfold luaRound
      cases caller <;> repeat' split
      all_goals simp [Quoting, luaReturn]
  | _ => exact ⟨rfl, by simp [Quoting, proceed, blank]⟩

/-- A state of the loop, or one behind the end of the file. -/
def Lexing (s : LexState) : Prop :=
  (∃ m, Sim s.lexer s.point m) ∨ s.iter.input = [] ∧ Quoting s.point

theorem Lexing.quoting (lexing : Lexing s) : Quoting s.point := by
  rcases lexing with ⟨m, sim⟩ | ⟨-, quoting⟩
  · exact quoting_of_sim sim
  · exact quoting

theorem lexing_step (lexing : Lexing s) (edge : step s = some t) : Lexing t := by
  have quoting := lexing.quoting
  obtain ⟨lexer, iter, point⟩ := step_proceed edge
  obtain ⟨lx, ⟨input, line⟩, p⟩ := s
  cases input with
  | nil =>
    refine .inr ⟨by rw [iter]; rfl, ?_⟩
    rw [point]
    exact (proceed_eof quoting lx).2
  | cons c rest =>
    rcases lexing with ⟨m, sim⟩ | ⟨ended, -⟩
    · refine .inl ⟨m.read c, ?_⟩
      rw [lexer, point]
      exact sim_read sim
    · cases ended

theorem lexing_reaches (lexing : Lexing s) (path : Reaches step s t) : Lexing t :=
  kept_by_run (fun _ _ lexing edge => lexing_step lexing edge) lexing path

/-- Without reading anything the lexer emits nothing. -/
theorem tokens_unread (lexing : Lexing s) (path : Reaches step s t)
    (unread : t.iter.input = s.iter.input) : t.lexer.tokens = s.lexer.tokens := by
  by_cases ended : s.iter.input = []
  · have kept := kept_by_run
      (I := fun t => Lexing t ∧ t.iter.input = [] ∧ t.lexer.tokens = s.lexer.tokens) ?_
      ⟨lexing, ended, rfl⟩ path
    · exact kept.2.2
    · rintro t u ⟨lexing, ended, same⟩ edge
      obtain ⟨lexer, -, -⟩ := step_proceed edge
      have eof : t.iter.next.1 = ⟨nul, 0, true⟩ := by rw [LineCounter.next, ended]
      refine ⟨lexing_step lexing edge, by rw [step_input edge, ended]; rfl, ?_⟩
      rw [lexer, eof, (proceed_eof lexing.quoting _).1, same]
  · rcases ReflTransGen.cases_head path with rfl | ⟨next, edge, path'⟩
    · rfl
    · have shorter := length_input_le path'
      have consumed := List.length_pos_iff.mpr ended
      rw [unread, step_input edge, List.length_tail] at shorter
      omega

/-- The input still to come determines the tokens. -/
theorem tokens_determined (lexing : Lexing s) (first : Reaches step s t)
    (second : Reaches step s u) (same : t.iter.input = u.iter.input) :
    t.lexer.tokens = u.lexer.tokens := by
  rcases reaches_total first second with path | path
  · exact (tokens_unread (lexing_reaches lexing first) path same.symm).symm
  · exact tokens_unread (lexing_reaches lexing second) path same

/-! ## The end of a run -/

theorem lexing_start (input : Text) : Lexing (start input) := .inl ⟨_, .again rfl⟩

theorem at_lexing {d : Bool} {keys : List (Text × Bool)} {word : Text}
    (at_ : At d keys word input s) : Lexing s := by
  obtain ⟨tokens, line, n, -, rfl | ⟨rfl, rfl⟩⟩ := at_inv at_
  · by_cases empty : word = []
    · exact .inl ⟨_, .again empty⟩
    · exact .inl ⟨_, .word empty⟩
  · exact .inl ⟨_, .spaces rfl⟩

/-- The loop is only left without an error at the end of the file. -/
theorem returned_input (lexing : Lexing s) (returned : s.point = .returned none) :
    s.iter.input = [] := by
  rcases lexing with ⟨m, sim⟩ | ⟨ended, -⟩
  · rw [returned] at sim
    cases sim
  · exact ended

/-- What a run that returns has emitted, seen from a state on its way. -/
theorem returns_tokens (returns : Returns input none tokens)
    (path : Reaches step (start input) u) :
    u.lexer.tokens <+: tokens ∧ (u.iter.input = [] → u.lexer.tokens = tokens) := by
  obtain ⟨t, ends, returned, rfl⟩ := returns
  have final : step t = none := by rw [step, returned]
  have ended := returned_input (lexing_reaches (lexing_start input) ends) returned
  refine ⟨?_, fun read => tokens_determined (lexing_start input) path ends (read.trans ended.symm)⟩
  rcases reaches_total path ends with further | further
  · exact tokens_kept further
  · rcases ReflTransGen.cases_head further with rfl | ⟨next, edge, -⟩
    · exact List.prefix_rfl
    · rw [Option.mem_def, final] at edge
      cases edge

def HasLua (tokens : List Token) : Prop := ∃ token ∈ tokens, token.text ∈ luaDirectives

/-- The Lua lexer is entered behind a directive of its own. -/
theorem hasLua_luaEnter {lx : Lexer} {line : Nat} {quote : Bool} {caller : Caller}
    (custom : (lx.emit lx.token line quote).custom = true) :
    HasLua (luaEnter (lx.emit lx.token line quote) caller).1.tokens := by
  have lua : lx.token ∈ luaDirectives := by
    simpa [Lexer.emit] using (Bool.and_eq_true_iff.mp custom).2
  rw [luaEnter_tokens]
  exact ⟨_, List.mem_append_right _ List.mem_cons_self, lua⟩

end LexProgress
