import Vince.ConfigLex

/-!
# What the lexer makes of a written layout

A layout is a sequence of lexemes, each followed by a run of whitespace. Every
lexeme carries the conditions on its characters, so that only writable lexemes can
be built. `lex_layout` says that the lexer recovers the sequence, whatever the
whitespace. Lines are not compared here.
-/

namespace LexLayout

open GoText ConfigLex Transitions StateTransition Relation

/-- One character of a word, or a backslash with the character it escapes. -/
inductive Piece where
  | plain (c : Char)
  | escaped (c : Char)

def Piece.source : Piece → Text
  | .plain c => [c]
  | .escaped c => ['\\', c]

/-- Inside quotes an escaped quote loses its backslash, every other pair keeps it. -/
def Piece.unquoted (quote : Char) : Piece → Text
  | .plain c => [c]
  | .escaped c => if c = quote then [quote] else ['\\', c]

def wordChar (c : Char) : Bool :=
  !isSpace c && c != '{' && c != '}' && c != ';' && c != '\\'

structure Word where
  pieces : List Piece
  nonempty : pieces ≠ []
  chars : ∀ c, Piece.plain c ∈ pieces → wordChar c = true
  first : ∀ c, pieces.head? = some (.plain c) → c ≠ '#' ∧ c ≠ '"' ∧ c ≠ '\''

def Word.text (w : Word) : Text := w.pieces.flatMap Piece.source

structure Quoted where
  quote : Char
  isQuote : quote = '"' ∨ quote = '\''
  body : List Piece
  chars : ∀ c, Piece.plain c ∈ body → c ≠ quote ∧ c ≠ '\\'

def Quoted.text (q : Quoted) : Text := q.body.flatMap (Piece.unquoted q.quote)

inductive Lexeme where
  | terminal (ch : Char) (isTerminal : ch = '{' ∨ ch = '}' ∨ ch = ';')
  | comment (body : Text) (oneLine : '\n' ∉ body)
  | quoted (q : Quoted)
  | word (w : Word)

def Lexeme.source : Lexeme → Text
  | .terminal ch _ => [ch]
  | .comment body _ => '#' :: body ++ ['\n']
  | .quoted q => q.quote :: q.body.flatMap Piece.source ++ [q.quote]
  | .word w => w.text

/-- The text and the quote flag of the one token a lexeme stands for. -/
def Lexeme.key : Lexeme → Text × Bool
  | .terminal ch _ => ([ch], false)
  | .comment body _ => ('#' :: body, false)
  | .quoted q => (q.text, true)
  | .word w => (w.text, false)

def tokenKey (t : Token) : Text × Bool := (t.text, t.quote)

abbrev Layout := List (Lexeme × Text)

def render : Layout → Text
  | [] => []
  | (l, gap) :: rest => l.source ++ gap ++ render rest

def Spaces (gap : Text) : Prop := ∀ c ∈ gap, isSpace c = true

/-- After a bare word whitespace may only be left out before a terminal, and not
between a dollar sign and an opening brace. -/
def Separated : Layout → Prop
  | [] => True
  | (.word w, gap) :: rest =>
    (gap = [] → ∃ ch h gap' rest', rest = (.terminal ch h, gap') :: rest' ∧
      ¬ (w.text.getLast? = some '$' ∧ ch = '{')) ∧ Separated rest
  | _ :: rest => Separated rest

/-- No word at which the lexer looks for a custom lexer is a Lua directive; the flag
is the lexer's `nextTokenIsDirective`. -/
def LuaFree : Bool → Layout → Prop
  | _, [] => True
  | _, (.terminal _ _, _) :: rest => LuaFree true rest
  | d, (.comment _ _, _) :: rest => LuaFree d rest
  | d, (.quoted q, _) :: rest => (d = true → q.text ∉ luaDirectives) ∧ LuaFree false rest
  | d, (.word w, gap) :: rest =>
    if gap = [] then LuaFree d rest
    else (d = true → w.text ∉ luaDirectives) ∧ LuaFree false rest

/-- Between two lexemes: the flag, the tokens so far, the pending token and the input
to come. -/
structure At (d : Bool) (keys : List (Text × Bool)) (word input : Text)
    (s : LexState) : Prop where
  flag : s.lexer.nextTokenIsDirective = d
  written : s.lexer.tokens.map tokenKey = keys
  pending : s.lexer.token = word
  remaining : s.iter.input = input
  point : s.point = .again ∨ (s.point = .spaces ∧ word = [])

/-- A lexeme begins with something visible. -/
theorem Lexeme.source_head (lexeme : Lexeme) :
    ∃ c tail, lexeme.source = c :: tail ∧ isSpace c = false := by
  cases lexeme with
  | terminal ch isTerminal =>
    refine ⟨ch, [], rfl, ?_⟩
    rcases isTerminal with rfl | rfl | rfl <;> decide
  | comment body oneLine => exact ⟨'#', _, rfl, by decide⟩
  | quoted q =>
    refine ⟨q.quote, _, rfl, ?_⟩
    rcases q.isQuote with same | same <;> rw [same] <;> decide
  | word w =>
    obtain ⟨piece, pieces, split⟩ := List.exists_cons_of_ne_nil w.nonempty
    cases piece with
    | plain c =>
      have visible := w.chars c (by simp [split])
      simp only [wordChar, Bool.and_eq_true, Bool.not_eq_true'] at visible
      exact ⟨c, _, by rw [Lexeme.source, Word.text, split]; rfl, visible.1.1.1.1⟩
    | escaped c => exact ⟨'\\', _, by rw [Lexeme.source, Word.text, split]; rfl, by decide⟩

theorem wordChar_iff (c : Char) : wordChar c = true ↔
    isSpace c = false ∧ c ≠ '{' ∧ c ≠ '}' ∧ c ≠ ';' ∧ c ≠ '\\' := by
  simp [wordChar, and_assoc]

variable {d : Bool} {keys : List (Text × Bool)} {input rest : Text} {s : LexState}

theorem at_inv {word : Text} (h : At d keys word input s) :
    ∃ tokens line n, tokens.map tokenKey = keys ∧
      (s = ⟨⟨word, tokens, line, d⟩, ⟨input, n⟩, .again⟩ ∨
        s = ⟨⟨[], tokens, line, d⟩, ⟨input, n⟩, .spaces⟩ ∧ word = []) := by
  obtain ⟨⟨token, tokens, line, flag⟩, ⟨inp, n⟩, p⟩ := s
  obtain ⟨hflag, hkeys, hpending, hinput, hpoint⟩ := h
  simp only at hflag hkeys hpending hinput hpoint
  subst hflag hpending hinput
  refine ⟨tokens, line, n, hkeys, ?_⟩
  rcases hpoint with rfl | ⟨rfl, hnil⟩
  · exact Or.inl rfl
  · exact Or.inr ⟨by rw [hnil], hnil⟩

theorem at_gap {gap : Text} (spaces : Spaces gap) (h : At d keys [] (gap ++ rest) s) :
    Leads step s (At d keys [] rest) := by
  induction gap generalizing s with
  | nil => exact .here h
  | cons c gap ih =>
    have hc : isSpace c = true := spaces c List.mem_cons_self
    obtain ⟨tokens, line, n, hkeys, rfl | ⟨rfl, -⟩⟩ := at_inv h
    · apply Leads.next (step_read (by simp))
      apply ih (fun x hx => spaces x (List.mem_cons_of_mem c hx))
      constructor <;> simp [proceed, hc, afterWord, hkeys]
    · apply Leads.next (step_read (by simp))
      apply ih (fun x hx => spaces x (List.mem_cons_of_mem c hx))
      constructor <;> simp [proceed, hc, hkeys]

/-- The first whitespace after a bare word ends it. -/
theorem at_word_gap {word gap : Text} (nonempty : word ≠ []) (hgap : gap ≠ [])
    (spaces : Spaces gap) (noLua : d = true → word ∉ luaDirectives)
    (h : At d keys word (gap ++ rest) s) :
    Leads step s (At false (keys ++ [(word, false)]) [] rest) := by
  obtain ⟨c, gap, rfl⟩ := List.exists_cons_of_ne_nil hgap
  have hc : isSpace c = true := spaces c List.mem_cons_self
  obtain ⟨tokens, line, n, hkeys, rfl | ⟨-, hnil⟩⟩ := at_inv h
  · have hcustom : (d && luaDirectives.contains word) = false := by
      cases d with
      | false => rfl
      | true => simpa using noLua rfl
    apply Leads.next (step_read (by simp))
    apply at_gap (fun x hx => spaces x (List.mem_cons_of_mem c hx))
    have hcustom' : Lexer.custom ⟨word, tokens ++ [⟨word, line, false⟩], line, d⟩ = false := hcustom
    constructor <;>
      simp [proceed, hc, afterWord, nonempty, Lexer.emit, hcustom', hkeys, tokenKey]
  · exact absurd hnil nonempty

/-- Any lexeme but whitespace is read by `dispatch`, from both resting points. -/
theorem step_dispatch {word : Text} {c : Char} (hc : isSpace c = false)
    (h : At d keys word (c :: rest) s) :
    ∃ tokens line n, tokens.map tokenKey = keys ∧
      step s = some ⟨(dispatch ⟨word, tokens, line, d⟩ ⟨c, n, false⟩).1, ⟨rest, n⟩,
        (dispatch ⟨word, tokens, line, d⟩ ⟨c, n, false⟩).2⟩ := by
  obtain ⟨tokens, line, n, hkeys, rfl | ⟨rfl, rfl⟩⟩ := at_inv h
  · refine ⟨tokens, line, countLine n c, hkeys, ?_⟩
    rw [step_read (by simp)]
    simp [proceed, hc]
  · refine ⟨tokens, line, countLine n c, hkeys, ?_⟩
    rw [step_read (by simp)]
    simp [proceed, hc]

theorem not_space_of_terminal {ch : Char} (h : ch = '{' ∨ ch = '}' ∨ ch = ';') :
    isSpace ch = false := by
  rcases h with rfl | rfl | rfl <;> decide

/-- A terminal also ends the bare word it touches. -/
theorem at_terminal {word : Text} {ch : Char} (isTerminal : ch = '{' ∨ ch = '}' ∨ ch = ';')
    (noExpansion : ¬ (word.getLast? = some '$' ∧ ch = '{'))
    (h : At d keys word (ch :: rest) s) :
    Leads step s (At true
      (keys ++ (if word = [] then [] else [(word, false)]) ++ [([ch], false)]) [] rest) := by
  obtain ⟨tokens, line, n, hkeys, hstep⟩ := step_dispatch (not_space_of_terminal isTerminal) h
  have hhash : ch ≠ '#' := by rcases isTerminal with rfl | rfl | rfl <;> decide
  have hslash : ch ≠ '\\' := by rcases isTerminal with rfl | rfl | rfl <;> decide
  have hquote : ¬ (ch = '"' ∨ ch = '\'') := by rcases isTerminal with rfl | rfl | rfl <;> decide
  apply Leads.next hstep
  apply Leads.here
  by_cases hword : word = []
  · subst hword
    constructor <;>
      simp [dispatch, plain, hhash, hslash, hquote, isTerminal, Lexer.emit, hkeys, tokenKey]
  · constructor <;>
      simp [dispatch, plain, hword, hslash, hquote, isTerminal, noExpansion, Lexer.emit, hkeys,
        tokenKey]

theorem comment_body (token : Text) {body : Text} {tokens : List Token} {line n start : Nat}
    (oneLine : '\n' ∉ body) :
    Leads step ⟨⟨token, tokens, line, d⟩, ⟨body ++ '\n' :: rest, n⟩, .comment start⟩
      (At d (tokens.map tokenKey ++ [(token ++ body, false)]) [] rest) := by
  induction body generalizing token n with
  | nil =>
    apply Leads.next (step_read (by simp))
    apply Leads.here
    constructor <;> simp [proceed, Lexer.emit, tokenKey]
  | cons c body ih =>
    rw [List.mem_cons, not_or] at oneLine
    apply Leads.next (step_read (by simp))
    have hc : c ≠ '\n' := fun h => oneLine.1 h.symm
    simpa [proceed, hc, Lexer.push] using ih (token ++ [c]) oneLine.2

theorem at_comment {body : Text} (oneLine : '\n' ∉ body)
    (h : At d keys [] ('#' :: body ++ '\n' :: rest) s) :
    Leads step s (At d (keys ++ [('#' :: body, false)]) [] rest) := by
  obtain ⟨tokens, line, n, rfl, hstep⟩ := step_dispatch (by decide) h
  apply Leads.next hstep
  simpa [dispatch, Lexer.push] using comment_body ['#'] oneLine

/-- The quoted mode, one piece at a time. -/
theorem quoted_body (token : Text) {quote : Char} {body : List Piece} {tokens : List Token}
    {line n : Nat} (chars : ∀ c, Piece.plain c ∈ body → c ≠ quote ∧ c ≠ '\\')
    (notSlash : quote ≠ '\\')
    (noLua : d = true → token ++ body.flatMap (Piece.unquoted quote) ∉ luaDirectives) :
    Leads step ⟨⟨token, tokens, line, d⟩,
        ⟨body.flatMap Piece.source ++ quote :: rest, n⟩, .quoted quote⟩
      (At false (tokens.map tokenKey ++
        [(token ++ body.flatMap (Piece.unquoted quote), true)]) [] rest) := by
  induction body generalizing token n with
  | nil =>
    have hcustom : Lexer.custom ⟨token, tokens ++ [⟨token, line, true⟩], line, d⟩ = false := by
      cases d with
      | false => rfl
      | true => simpa [Lexer.custom] using noLua rfl
    apply Leads.next (step_read (by simp))
    apply Leads.here
    constructor <;> simp [proceed, afterQuote, Lexer.emit, hcustom, tokenKey]
  | cons piece body ih =>
    have htail : ∀ c, Piece.plain c ∈ body → c ≠ quote ∧ c ≠ '\\' :=
      fun c hc => chars c (List.mem_cons_of_mem _ hc)
    cases piece with
    | plain c =>
      obtain ⟨hquote, hslash⟩ := chars c List.mem_cons_self
      change Leads step ⟨_, ⟨c :: (body.flatMap Piece.source ++ quote :: rest), n⟩, _⟩ _
      apply Leads.next (step_read (by simp))
      simpa [proceed, hquote, hslash, Lexer.push, Piece.unquoted] using
        ih (token ++ [c]) htail (by simpa [Piece.unquoted] using noLua)
    | escaped c =>
      change Leads step ⟨_, ⟨'\\' :: c :: (body.flatMap Piece.source ++ quote :: rest), n⟩, _⟩ _
      apply Leads.next (step_read (by simp))
      by_cases hc : c = quote
      · subst hc
        apply Leads.next (step_read (by simp [proceed, notSlash.symm]))
        simpa [proceed, notSlash.symm, Lexer.push, Piece.unquoted] using
          ih (token ++ [c]) htail (by simpa [Piece.unquoted] using noLua)
      · apply Leads.next (step_read (by simp [proceed, notSlash.symm]))
        simpa [proceed, notSlash.symm, hc, Lexer.push, Piece.unquoted] using
          ih (token ++ ['\\', c]) htail (by simpa [Piece.unquoted, hc] using noLua)

theorem at_quoted (q : Quoted) (noLua : d = true → q.text ∉ luaDirectives)
    (h : At d keys [] ((Lexeme.quoted q).source ++ rest) s) :
    Leads step s (At false (keys ++ [(q.text, true)]) [] rest) := by
  obtain ⟨quote, isQuote, body, chars⟩ := q
  have hspace : isSpace quote = false := by rcases isQuote with rfl | rfl <;> decide
  have hhash : quote ≠ '#' := by rcases isQuote with rfl | rfl <;> decide
  have hslash : quote ≠ '\\' := by rcases isQuote with rfl | rfl <;> decide
  have input : At d keys [] (quote :: (body.flatMap Piece.source ++ quote :: rest)) s := by
    simpa [Lexeme.source] using h
  obtain ⟨tokens, line, n, rfl, hstep⟩ := step_dispatch hspace input
  apply Leads.next hstep
  simpa [dispatch, plain, hhash, hslash, isQuote, Quoted.text] using
    quoted_body [] chars hslash noLua

theorem at_piece {word : Text} {piece : Piece}
    (chars : ∀ c, piece = .plain c → wordChar c = true)
    (first : word = [] → ∀ c, piece = .plain c → c ≠ '#' ∧ c ≠ '"' ∧ c ≠ '\'')
    (h : At d keys word (piece.source ++ rest) s) :
    Leads step s (At d keys (word ++ piece.source) rest) := by
  cases piece with
  | plain c =>
    obtain ⟨hspace, hopen, hclose, hsemi, hslash⟩ := (wordChar_iff c).mp (chars c rfl)
    obtain ⟨tokens, line, n, rfl, hstep⟩ := step_dispatch hspace h
    apply Leads.next hstep
    apply Leads.here
    by_cases hword : word = []
    · obtain ⟨hhash, hdouble, hsingle⟩ := first hword c rfl
      subst hword
      constructor <;> simp [dispatch, plain, hhash, hslash, hdouble, hsingle, hopen, hclose,
        hsemi, Lexer.push, Piece.source]
    · by_cases hquote : c = '"' ∨ c = '\''
      · constructor <;>
          simp [dispatch, plain, hword, hslash, hopen, hquote, Lexer.push, Piece.source]
      · constructor <;> simp [dispatch, plain, hword, hslash, hopen, hquote, hclose, hsemi,
          Lexer.push, Piece.source]
  | escaped c =>
    obtain ⟨tokens, line, n, rfl, hstep⟩ := step_dispatch (by decide) h
    apply Leads.next hstep
    have hescape : dispatch ⟨word, tokens, line, d⟩ ⟨'\\', n, false⟩ =
        (⟨word ++ ['\\'], tokens, line, d⟩, .escape) := by
      simp [dispatch, Lexer.push]
    rw [hescape]
    apply Leads.next (step_read (by simp))
    apply Leads.here
    constructor <;> simp [proceed, Lexer.push, Piece.source]

theorem at_pieces {word : Text} {pieces : List Piece}
    (chars : ∀ c, Piece.plain c ∈ pieces → wordChar c = true)
    (first : word = [] → ∀ c, pieces.head? = some (.plain c) → c ≠ '#' ∧ c ≠ '"' ∧ c ≠ '\'')
    (h : At d keys word (pieces.flatMap Piece.source ++ rest) s) :
    Leads step s (At d keys (word ++ pieces.flatMap Piece.source) rest) := by
  induction pieces generalizing word s with
  | nil => simpa using (Leads.here h : Leads step s _)
  | cons piece pieces ih =>
    rw [List.flatMap_cons, List.append_assoc] at h
    have hpiece := at_piece (fun c hc => chars c (hc ▸ List.mem_cons_self))
      (fun hword c hc => first hword c (by rw [hc]; rfl)) h
    refine hpiece.trans (fun t ht => ?_)
    have grown : word ++ piece.source ≠ [] := by cases piece <;> simp [Piece.source]
    have htail := ih (fun c hc => chars c (List.mem_cons_of_mem _ hc))
      (fun hnil => absurd hnil grown) ht
    simpa [List.flatMap_cons] using htail

/-- The end of the file, right after a lexeme or after trailing whitespace. In the
second case the lexer still pushes a zero rune, which it never emits. -/
theorem at_end (h : At d keys [] [] s) :
    Leads step s (fun t => t.point = .returned none ∧ t.lexer.tokens.map tokenKey = keys) := by
  obtain ⟨tokens, line, n, hkeys, rfl | ⟨rfl, -⟩⟩ := at_inv h
  · apply Leads.next (step_eof (by simp))
    exact .here ⟨by simp [proceed], by simpa [proceed] using hkeys⟩
  · have hpush : proceed ⟨[], tokens, line, d⟩ ⟨nul, 0, true⟩ .spaces =
        (⟨[nul], tokens, 0, d⟩, .again) := rfl
    apply Leads.next (step_eof (by simp))
    rw [hpush]
    apply Leads.next (step_eof (by simp))
    exact .here ⟨by simp [proceed], by simpa [proceed] using hkeys⟩

/-- A bare word that the next lexeme touches without whitespace. -/
def Touches (word : Text) (entries : Layout) : Prop :=
  word = [] ∨ ∃ ch h gap rest, entries = (.terminal ch h, gap) :: rest ∧
    ¬ (word.getLast? = some '$' ∧ ch = '{')

theorem Touches.pending_nil {word : Text} {entries : Layout} (touches : Touches word entries)
    (other : ∀ ch h gap rest, entries ≠ (.terminal ch h, gap) :: rest) : word = [] := by
  rcases touches with hword | ⟨ch, h, gap, rest, heq, _⟩
  · exact hword
  · exact absurd heq (other ch h gap rest)

def pendingKey (word : Text) : List (Text × Bool) := if word = [] then [] else [(word, false)]

theorem at_layout {entries : Layout} {word : Text} (touches : Touches word entries)
    (separated : Separated entries) (luaFree : LuaFree d entries)
    (gaps : ∀ e ∈ entries, Spaces e.2) (h : At d keys word (render entries ++ rest) s) :
    Leads step s (fun t => ∃ d',
      At d' (keys ++ pendingKey word ++ entries.map (·.1.key)) [] rest t) := by
  -- induction on the layout; a word without whitespace stays pending for the terminal
  induction entries generalizing d keys word s with
  | nil =>
    obtain rfl : word = [] := touches.pending_nil (by simp)
    exact .here ⟨d, by simpa [pendingKey, render] using h⟩
  | cons e entries ih =>
    obtain ⟨lexeme, gap⟩ := e
    have hgap : Spaces gap := gaps _ List.mem_cons_self
    have htail : ∀ e ∈ entries, Spaces e.2 := fun e he => gaps e (List.mem_cons_of_mem _ he)
    rw [render, List.append_assoc, List.append_assoc] at h
    cases lexeme with
    | terminal ch isTerminal =>
      have noExpansion : ¬ (word.getLast? = some '$' ∧ ch = '{') := by
        rcases touches with rfl | ⟨_, _, _, _, heq, hno⟩
        · simp
        · cases heq; exact hno
      refine (at_terminal isTerminal noExpansion h).trans (fun t ht => ?_)
      refine (at_gap hgap ht).trans (fun t ht => ?_)
      have hrest := ih (Or.inl rfl) separated luaFree htail ht
      simpa [pendingKey, Lexeme.key] using hrest
    | comment body oneLine =>
      obtain rfl : word = [] := touches.pending_nil (by simp)
      refine (at_comment oneLine (by simpa [Lexeme.source] using h)).trans (fun t ht => ?_)
      refine (at_gap hgap ht).trans (fun t ht => ?_)
      have hrest := ih (Or.inl rfl) separated luaFree htail ht
      simpa [pendingKey, Lexeme.key] using hrest
    | quoted q =>
      obtain rfl : word = [] := touches.pending_nil (by simp)
      refine (at_quoted q luaFree.1 h).trans (fun t ht => ?_)
      refine (at_gap hgap ht).trans (fun t ht => ?_)
      have hrest := ih (Or.inl rfl) separated luaFree.2 htail ht
      simpa [pendingKey, Lexeme.key] using hrest
    | word w =>
      obtain rfl : word = [] := touches.pending_nil (by simp)
      have nonempty : w.text ≠ [] := by
        obtain ⟨piece, pieces, hp⟩ := List.exists_cons_of_ne_nil w.nonempty
        cases piece <;> simp [Word.text, hp, Piece.source]
      refine (at_pieces w.chars (fun _ => w.first) h).trans (fun t ht => ?_)
      rw [List.nil_append] at ht
      change At d keys w.text (gap ++ (render entries ++ rest)) t at ht
      by_cases hnil : gap = []
      · subst hnil
        have hrest := ih (Or.inr (separated.1 rfl)) separated.2 (by simpa [LuaFree] using luaFree)
          htail ht
        simpa [pendingKey, Lexeme.key, nonempty] using hrest
      · rw [LuaFree, if_neg hnil] at luaFree
        refine (at_word_gap nonempty hnil hgap luaFree.1 ht).trans (fun t ht => ?_)
        have hrest := ih (Or.inl rfl) separated.2 luaFree.2 htail ht
        simpa [pendingKey, Lexeme.key] using hrest

theorem start_at (input : Text) : At false [] [] input (start input) :=
  ⟨rfl, rfl, rfl, rfl, Or.inl rfl⟩

/-- A layout whose words in directive position are not Lua directives. -/
theorem lex_luaFree {lead : Text} {entries : Layout} (hlead : Spaces lead)
    (gaps : ∀ e ∈ entries, Spaces e.2) (separated : Separated entries)
    (luaFree : LuaFree false entries) :
    ∃ tokens, Returns (lead ++ render entries) none tokens ∧
      tokens.map tokenKey = entries.map (·.1.key) := by
  have final := ((at_gap hlead (start_at (lead ++ render entries))).trans
    (fun t ht => at_layout (Or.inl rfl) separated luaFree gaps
      (by rwa [List.append_nil]))).trans (fun t ht => at_end ht.choose_spec)
  obtain ⟨t, path, hpoint, hkeys⟩ := final
  exact ⟨t.lexer.tokens, ⟨t, path, hpoint, rfl⟩, by simpa [pendingKey] using hkeys⟩

theorem luaFree_of_noLua {entries : Layout} (d : Bool)
    (words : ∀ w gap, (.word w, gap) ∈ entries → w.text ∉ luaDirectives)
    (quotes : ∀ q gap, (.quoted q, gap) ∈ entries → q.text ∉ luaDirectives) :
    LuaFree d entries := by
  induction entries generalizing d with
  | nil => trivial
  | cons e entries ih =>
    have tail := fun d => ih d (fun w gap hw => words w gap (List.mem_cons_of_mem _ hw))
      (fun q gap hq => quotes q gap (List.mem_cons_of_mem _ hq))
    obtain ⟨lexeme, gap⟩ := e
    cases lexeme with
    | terminal ch isTerminal => exact tail true
    | comment body oneLine => exact tail d
    | quoted q => exact ⟨fun _ => quotes q gap List.mem_cons_self, tail false⟩
    | word w =>
      rw [LuaFree]
      split
      · exact tail d
      · exact ⟨fun _ => words w gap List.mem_cons_self, tail false⟩

/-- The lexer inverts every layout: one token per lexeme, in order, with its quote flag
and text, and no error. -/
theorem lex_layout (lead : Text) (entries : Layout) (hlead : Spaces lead)
    (gaps : ∀ e ∈ entries, Spaces e.2) (separated : Separated entries)
    (words : ∀ w gap, (.word w, gap) ∈ entries → w.text ∉ luaDirectives)
    (quotes : ∀ q gap, (.quoted q, gap) ∈ entries → q.text ∉ luaDirectives) :
    ∃ tokens, Returns (lead ++ render entries) none tokens ∧
      tokens.map tokenKey = entries.map (·.1.key) :=
  lex_luaFree hlead gaps separated (luaFree_of_noLua false words quotes)

private def sampleWord : Word where
  pieces := [.plain 'a', .escaped ' ', .plain '$']
  nonempty := by simp
  chars := by
    intro c hc
    have : c = 'a' ∨ c = '$' := by simpa using hc
    rcases this with rfl | rfl <;> decide
  first := by
    intro c hc
    obtain rfl : 'a' = c := by simpa using hc
    decide

private def sampleQuoted : Quoted where
  quote := '"'
  isQuote := Or.inl rfl
  body := [.escaped '"', .plain ' ', .escaped 'n']
  chars := by
    intro c hc
    obtain rfl : c = ' ' := by simpa using hc
    decide

/-- A word ending in a dollar sign before a brace, an escaped quote and a comment. -/
theorem lex_layout_sample :
    ∃ tokens, Returns " a\\ $ \x7b\"\\\" \\n\"#c\n\x7d".toList none tokens ∧
      tokens.map tokenKey = [("a\\ $".toList, false), (['{'], false), ("\" \\n".toList, true),
        ("#c".toList, false), (['}'], false)] :=
  lex_layout [' '] [(.word sampleWord, [' ']), (.terminal '{' (by decide), []),
      (.quoted sampleQuoted, []), (.comment ['c'] (by decide), []),
      (.terminal '}' (by decide), [])]
    (by simp [Spaces, isSpace]) (by simp [Spaces, isSpace]) (by simp [Separated])
    (by
      intro w gap hw
      obtain ⟨rfl, -⟩ : w = sampleWord ∧ gap = [' '] := by simpa using hw
      decide)
    (by
      intro q gap hq
      obtain ⟨rfl, -⟩ : q = sampleQuoted ∧ gap = [] := by simpa using hq
      decide)

end LexLayout
