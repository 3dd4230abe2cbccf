import Vince.LexProgress

/-!
# Lua blocks

A Lua directive hands the input over to the Lua lexer, which reads to the brace that closes the
block. It then drops what it collected: its tokens are returned as nil. The first word of a file
is not taken for a directive at all, and a Lua block there is read as an ordinary one.
-/

namespace LuaBlocks

open GoText ConfigLex LexLayout LexTermination LexProgress Transitions StateTransition Relation

variable {d : Bool} {keys : List (Text × Bool)} {input rest word : Text} {s t u : LexState}

/-! ## The body of a block -/

/-- The braces outside string literals balance, from a depth on, and the literals are closed; the
second argument is the quote of the literal the text starts in. -/
def balancedLua : Nat → Option Char → Text → Bool
  | depth, none, [] => depth = 0
  | _, some _, [] => false
  | depth, none, c :: rest =>
    if c = '{' then balancedLua (depth + 1) none rest
    else if c = '}' then 0 < depth && balancedLua (depth - 1) none rest
    else if c = '"' ∨ c = '\'' then balancedLua depth (some c) rest
    else balancedLua depth none rest
  | depth, some quote, c :: rest =>
    balancedLua depth (if c = quote then none else some quote) rest

/-- Inside a block, at a depth below its own, in a literal or not. -/
def bodyPoint (caller : Caller) (tk : Text) (depth : Nat) : Option Char → Point
  | none => .luaBody caller [] tk (depth + 1)
  | some quote => .luaString caller [] tk (depth + 1) quote

theorem luaRound_inside (lx : Lexer) (caller : Caller) (tk : Text) (depth : Nat) (ch : Char)
    (line : Nat) : luaRound lx caller [] tk ((depth : Int) + 1) ch line =
      (lx, bodyPoint caller (tk ++ [ch]) depth none) := by
  rw [luaRound, if_neg (by omega), if_neg (by omega)]
  rfl

/-- One rune of a balanced body. -/
theorem body_read {body : Text} {quote : Option Char} {depth : Nat} {c : Char} (lx : Lexer)
    (caller : Caller) (tk : Text) (line : Nat)
    (balanced : balancedLua depth quote (c :: body) = true) :
    ∃ tk' depth' quote', proceed lx ⟨c, line, false⟩ (bodyPoint caller tk depth quote) =
        (lx, bodyPoint caller tk' depth' quote') ∧ balancedLua depth' quote' body = true := by
  cases quote with
  | some q =>
    by_cases closing : c = q
    · refine ⟨tk ++ [c], depth, none, ?_, by simpa [balancedLua, closing] using balanced⟩
      simpa [bodyPoint, proceed, closing] using luaRound_inside lx caller tk depth q line
    · refine ⟨tk ++ [c], depth, some q, ?_, by simpa [balancedLua, closing] using balanced⟩
      simp [bodyPoint, proceed, closing]
  | none =>
    rw [balancedLua] at balanced
    split at balanced
    · rename_i opening
      refine ⟨tk ++ [c], depth + 1, none, ?_, balanced⟩
      simpa [bodyPoint, proceed, opening] using luaRound_inside lx caller tk (depth + 1) '{' line
    rename_i notOpening
    split at balanced
    · rename_i closing
      obtain ⟨above, balanced⟩ := Bool.and_eq_true_iff.mp balanced
      obtain ⟨below, rfl⟩ : ∃ below, depth = below + 1 :=
        Nat.exists_eq_add_one.mpr (by simpa using above)
      refine ⟨tk ++ [c], below, none, ?_, balanced⟩
      simpa [bodyPoint, proceed, closing] using luaRound_inside lx caller tk below '}' line
    rename_i notClosing
    split at balanced
    · rename_i mark
      refine ⟨tk ++ [c], depth, some c, ?_, balanced⟩
      simp [bodyPoint, proceed, notOpening, notClosing, mark]
    · rename_i other
      refine ⟨tk ++ [c], depth, none, ?_, balanced⟩
      simpa [bodyPoint, proceed, notOpening, notClosing, other] using
        luaRound_inside lx caller tk depth c line

/-- The Lua lexer reads a balanced body and its closing brace, and nothing comes of it. -/
theorem lua_body {body : Text} {quote : Option Char} {depth : Nat} (lx : Lexer) (caller : Caller)
    (tk : Text) (n : Nat) (balanced : balancedLua depth quote body = true) :
    Leads step ⟨lx, ⟨body ++ '}' :: rest, n⟩, bodyPoint caller tk depth quote⟩
      (fun t => t.iter.input = rest ∧ t.lexer.tokens = lx.tokens) := by
  have live (quote : Option Char) (tk : Text) (depth : Nat) (err : Option LexError) :
      bodyPoint caller tk depth quote ≠ .returned err := by cases quote <;> simp [bodyPoint]
  induction body generalizing quote depth tk n with
  | nil =>
    cases quote with
    | some q => cases balanced
    | none =>
      obtain rfl : depth = 0 := by simpa [balancedLua] using balanced
      exact .next (step_read (live _ _ _)) (.here ⟨rfl, luaReturn_tokens lx caller⟩)
  | cons c body ih =>
    obtain ⟨tk', depth', quote', reads, balanced'⟩ :=
      body_read lx caller tk (countLine n c) balanced
    apply Leads.next (step_read (live _ _ _))
    rw [reads]
    exact ih tk' _ balanced'

/-! ## The block behind its directive -/

/-- A directive is expected: behind a terminal, or as the first word of the file. -/
def DirectivePosition (keys : List (Text × Bool)) (input : Text) (s : LexState) : Prop :=
  At true keys [] input s ∨
    At false keys [] input s ∧ ∀ key ∈ keys, key.1.head? = some '#' ∧ key.2 = false

/-- The directive, the body and a semicolon come out, and the lexer goes on behind the block as
behind a semicolon. -/
def LexedAsArgument (s : LexState) (keys : List (Text × Bool)) (directive body rest : Text) :
    Prop :=
  ∃ quoted, Leads step s
    (At true (keys ++ [(directive, false), (body, quoted), ([';'], false)]) [] rest)

theorem lua_chars : ∀ name ∈ luaDirectives, name ≠ [] ∧
    ∀ c ∈ name, wordChar c = true ∧ c ≠ '#' ∧ c ≠ '"' ∧ c ≠ '\'' := by
  have all : luaDirectives.all (fun name => !name.isEmpty && name.all fun c =>
      wordChar c && c != '#' && c != '"' && c != '\'') = true := by decide +kernel
  simpa [List.all_eq_true, and_assoc] using all

/-- The directive is read like any word. -/
theorem at_directive {directive : Text} (lua : directive ∈ luaDirectives)
    (at_ : At d keys [] (directive ++ rest) s) : Leads step s (At d keys directive rest) := by
  obtain ⟨-, chars⟩ := lua_chars directive lua
  have text : (directive.map Piece.plain).flatMap Piece.source = directive := by
    simp [List.flatMap_map, Piece.source]
  have input : At d keys [] ((directive.map Piece.plain).flatMap Piece.source ++ rest) s := by
    rwa [text]
  have read := at_pieces ?_ ?_ input
  · rwa [text, List.nil_append] at read
  · exact fun c mem => (chars c (by simpa using mem)).1
  · intro _ c first
    rw [List.head?_map] at first
    have head : directive.head? = some c := by simpa using first
    exact (chars c (List.mem_of_head? head)).2

/-- The Lua lexer skips to the opening brace. -/
theorem luaOpen_gap {gap : Text} (lx : Lexer) (caller : Caller) (n : Nat) (spaces : Spaces gap) :
    Leads step ⟨lx, ⟨gap ++ '{' :: rest, n⟩, .luaOpen caller []⟩
      (fun t => ∃ n, t = ⟨lx, ⟨rest, n⟩, bodyPoint caller [] 0 none⟩) := by
  induction gap generalizing n with
  | nil => exact .next (step_read (by simp)) (.here ⟨_, rfl⟩)
  | cons c gap ih =>
    obtain ⟨space, others⟩ := List.forall_mem_cons.mp spaces
    apply Leads.next (step_read (by simp))
    have stays : proceed lx ⟨c, countLine n c, false⟩ (.luaOpen caller []) =
        (lx, .luaOpen caller []) := by simp [proceed, space]
    rw [stays]
    exact ih _ others

/-- Behind a terminal the block leaves nothing but its directive. -/
theorem block_lost {directive gap body : Text} (lua : directive ∈ luaDirectives)
    (other : directive ≠ setByLuaBlock) (spaces : Spaces gap) (apart : gap ≠ [])
    (balanced : balancedLua 0 none body = true)
    (at_ : At true keys [] (directive ++ (gap ++ '{' :: (body ++ '}' :: rest))) s) :
    Leads step s (fun t => t.iter.input = rest ∧
      t.lexer.tokens.map tokenKey = keys ++ [(directive, false)]) := by
  refine (at_directive lua at_).trans fun t at_ => ?_
  obtain ⟨c, gap, rfl⟩ := List.exists_cons_of_ne_nil apart
  obtain ⟨space, others⟩ := List.forall_mem_cons.mp spaces
  have nonempty := (lua_chars directive lua).1
  obtain ⟨tokens, line, n, same, rfl | ⟨-, empty⟩⟩ := at_inv at_
  · apply Leads.next (step_read (by simp))
    have enters : proceed ⟨directive, tokens, line, true⟩ ⟨c, countLine n c, false⟩ .again =
        (⟨directive, tokens ++ [⟨directive, line, false⟩], line, true⟩, .luaOpen .word []) := by
      simp [proceed, space, afterWord, nonempty, Lexer.emit, Lexer.custom, lua, luaEnter, other]
    rw [enters]
    refine (luaOpen_gap _ .word _ others).trans fun t opened => ?_
    obtain ⟨n, rfl⟩ := opened
    obtain ⟨t, path, ended, kept⟩ := lua_body _ .word [] n balanced
    exact ⟨t, path, ended, by rw [kept, List.map_append, same]; rfl⟩
  · exact absurd empty nonempty

/-- At the beginning of the file the opening brace is a token. -/
theorem block_opened {directive gap : Text} (lua : directive ∈ luaDirectives)
    (spaces : Spaces gap) (apart : gap ≠ [])
    (at_ : At false keys [] (directive ++ (gap ++ '{' :: rest)) s) :
    Leads step s (At true (keys ++ [(directive, false), (['{'], false)]) [] rest) := by
  refine (at_directive lua at_).trans fun t at_ => ?_
  refine (at_word_gap (lua_chars directive lua).1 apart spaces (by simp) at_).trans fun t at_ => ?_
  simpa using at_terminal (.inl rfl) (by simp) at_

/-- What leaves only the directive behind is not lexed as an argument. -/
theorem not_argument_of_lost {directive body : Text} (lexing : Lexing s)
    (lost : Leads step s (fun t => t.iter.input = rest ∧
      t.lexer.tokens.map tokenKey = keys ++ [(directive, false)])) :
    ¬ LexedAsArgument s keys directive body rest := by
  rintro ⟨quoted, u, path, at_⟩
  obtain ⟨t, reads, ended, left⟩ := lost
  have same := tokens_determined lexing reads path (ended.trans at_.remaining.symm)
  have lengths := congrArg List.length (left.symm.trans (same ▸ at_.written))
  simp at lengths

/-- A Lua block is never lexed as one argument, whatever its directive and its body. -/
theorem lua_block_not_argument (keys : List (Text × Bool)) (directive gap body rest : Text)
    (s : LexState) (lua : directive ∈ luaDirectives) (other : directive ≠ setByLuaBlock)
    (spaces : Spaces gap) (apart : gap ≠ []) (balanced : balancedLua 0 none body = true)
    (position : DirectivePosition keys (directive ++ (gap ++ '{' :: (body ++ '}' :: rest))) s) :
    ¬ LexedAsArgument s keys directive body rest := by
  rcases position with behind | ⟨first, -⟩
  · exact not_argument_of_lost (at_lexing behind)
      (block_lost lua other spaces apart balanced behind)
  · rintro ⟨quoted, u, path, at_⟩
    obtain ⟨t, reads, opened⟩ := block_opened lua spaces apart first
    rcases reaches_total reads path with further | further
    · have kept := (tokens_kept further).map tokenKey
      rw [opened.written, at_.written, List.prefix_append_right_inj] at kept
      obtain ⟨rfl, -⟩ : ['{'] = body ∧ quoted = false := by simpa [List.cons_prefix_cons] using kept
      exact absurd balanced (by decide)
    · have shorter := length_input_le further
      rw [opened.remaining, at_.remaining] at shorter
      simp only [List.length_append, List.length_cons] at shorter
      omega

/-- `content_by_lua_block {return}` at the beginning of a file. -/
theorem lua_block_not_argument_sample :
    DirectivePosition [] "content_by_lua_block \x7breturn\x7d\n".toList
        (start "content_by_lua_block \x7breturn\x7d\n".toList) ∧
      ¬ LexedAsArgument (start "content_by_lua_block \x7breturn\x7d\n".toList) []
        "content_by_lua_block".toList "return".toList ['\n'] :=
  have position : DirectivePosition [] "content_by_lua_block \x7breturn\x7d\n".toList
      (start "content_by_lua_block \x7breturn\x7d\n".toList) := .inr ⟨start_at _, nofun⟩
  ⟨position, lua_block_not_argument [] "content_by_lua_block".toList [' '] "return".toList ['\n'] _
    (by decide) (by decide) (by simp [Spaces, isSpace]) (by simp) (by decide) position⟩

/-- The same block behind a semicolon. -/
theorem lua_block_dropped :
    ¬ ∀ (keys : List (Text × Bool)) (directive gap body rest : Text) (s : LexState),
      directive ∈ luaDirectives → directive ≠ setByLuaBlock → Spaces gap → gap ≠ [] →
      balancedLua 0 none body = true →
      DirectivePosition keys (directive ++ (gap ++ '{' :: (body ++ '}' :: rest))) s →
      LexedAsArgument s keys directive body rest := by
  intro lexed
  have behind : At true [([';'], false)] [] "content_by_lua_block \x7breturn\x7d\n".toList
      (run step 1 (start ";content_by_lua_block \x7breturn\x7d\n".toList)) :=
    ⟨rfl, rfl, rfl, rfl, .inl rfl⟩
  have spaces : Spaces [' '] := by simp [Spaces, isSpace]
  have balanced : balancedLua 0 none "return".toList = true := by decide
  refine not_argument_of_lost (at_lexing behind) ?_ (lexed _ "content_by_lua_block".toList [' ']
    "return".toList ['\n'] _ (by decide) (by decide) spaces (by simp) balanced (.inl behind))
  exact block_lost (by decide) (by decide) spaces (by simp) balanced behind

end LuaBlocks
