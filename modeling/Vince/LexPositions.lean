import Vince.LexProgress

/-!
# Where the lexer found its tokens

The input of a run without Lua is cut into whitespace and the sources of the tokens, up to a word
that the end of the file left over. The cut gives each token its place, and there is only one.
A token carries the line of its place, unless it is a word that begins with a backslash: such a
word keeps the line of the last token that recorded its own.
-/

namespace LexPositions

open GoText ConfigLex LexLayout LexTermination LexProgress Transitions StateTransition Relation

variable {input read rest before : Text} {tokens : List Token} {s t : LexState} {c : Char}
  {lx : Lexer}

/-! ## Cuts -/

/-- The line of what follows the given text. -/
def lineAt (before : Text) : Nat := 1 + before.count '\n'

/-- The source of a token: the word itself, or a quoted word with its quotes. -/
def Spells (token : Token) (source : Text) : Prop :=
  if token.quote then ∃ q : Quoted, source = (Lexeme.quoted q).source ∧ token.text = q.text
  else source = token.text ∧ ∃ first ∈ source.head?, isSpace first = false

inductive Segment where
  | space (c : Char)
  | found (token : Token) (source : Text)

def Segment.text : Segment → Text
  | .space c => [c]
  | .found _ source => source

def Segment.token? : Segment → Option Token
  | .space _ => none
  | .found token _ => some token

def Segment.Sound : Segment → Prop
  | .space c => isSpace c = true
  | .found token source => Spells token source

abbrev textOf (segments : List Segment) : Text := segments.flatMap Segment.text

abbrev tokensOf (segments : List Segment) : List Token := segments.filterMap Segment.token?

/-- The tokens of a cut with the text before each of them. -/
def placed : Text → List Segment → List (Text × Token)
  | _, [] => []
  | before, .space c :: segments => placed (before ++ [c]) segments
  | before, .found token source :: segments =>
    (before, token) :: placed (before ++ source) segments

/-- The segments cut the input, up to what the lexer left over, and have the tokens. -/
structure Cut (input : Text) (tokens : List Token) (segments : List Segment) : Prop where
  sound : ∀ segment ∈ segments, segment.Sound
  text_eq : ∃ rest, textOf segments ++ rest = input
  tokens_eq : tokensOf segments = tokens

theorem placed_append (before : Text) (first second : List Segment) :
    placed before (first ++ second) =
      placed before first ++ placed (before ++ textOf first) second := by
  induction first generalizing before with
  | nil => simp [placed]
  | cons segment first ih =>
    cases segment with
    | space c => simp [placed, ih, Segment.text]
    | found token source => simp [placed, ih, Segment.text]

theorem placed_tokens (before : Text) (segments : List Segment) :
    (placed before segments).map Prod.snd = tokensOf segments := by
  induction segments generalizing before with
  | nil => rfl
  | cons segment segments ih =>
    cases segment with
    | space c => simp [placed, ih, Segment.token?, List.filterMap_cons]
    | found token source => simp [placed, ih, Segment.token?]

/-! ### There is only one cut -/

theorem Spells.head {token : Token} {source : Text} (spells : Spells token source) :
    ∃ first tail, source = first :: tail ∧ isSpace first = false := by
  unfold Spells at spells
  split at spells
  · obtain ⟨q, rfl, -⟩ := spells
    refine ⟨q.quote, _, rfl, ?_⟩
    rcases q.isQuote with same | same <;> rw [same] <;> decide
  · obtain ⟨-, first, head, word⟩ := spells
    obtain ⟨tail, rfl⟩ := List.head?_eq_some_iff.mp head
    exact ⟨first, tail, rfl, word⟩

/-- The closing quote is the first one that no backslash escapes. -/
theorem quoted_unique {quote : Char} {body body' : List Piece} {rest rest' : Text}
    (notSlash : quote ≠ '\\') (chars : ∀ c, Piece.plain c ∈ body → c ≠ quote ∧ c ≠ '\\')
    (chars' : ∀ c, Piece.plain c ∈ body' → c ≠ quote ∧ c ≠ '\\')
    (same : body.flatMap Piece.source ++ quote :: rest =
      body'.flatMap Piece.source ++ quote :: rest') :
    body.flatMap Piece.source = body'.flatMap Piece.source := by
  induction body generalizing body' with
  | nil =>
    cases body' with
    | nil => rfl
    | cons piece body' =>
      cases piece with
      | plain c =>
        have clear := chars' c List.mem_cons_self
        simp [Piece.source] at same
        exact absurd same.1.symm clear.1
      | escaped c =>
        simp [Piece.source] at same
        exact absurd same.1 notSlash
  | cons piece body ih =>
    have tail : ∀ c, Piece.plain c ∈ body → c ≠ quote ∧ c ≠ '\\' :=
      fun c mem => chars c (List.mem_cons_of_mem _ mem)
    cases body' with
    | nil =>
      cases piece with
      | plain c =>
        have clear := chars c List.mem_cons_self
        simp [Piece.source] at same
        exact absurd same.1 clear.1
      | escaped c =>
        simp [Piece.source] at same
        exact absurd same.1.symm notSlash
    | cons piece' body' =>
      have tail' : ∀ c, Piece.plain c ∈ body' → c ≠ quote ∧ c ≠ '\\' :=
        fun c mem => chars' c (List.mem_cons_of_mem _ mem)
      cases piece with
      | plain c =>
        cases piece' with
        | plain c' =>
          simp only [List.flatMap_cons, Piece.source, List.cons_append, List.cons.injEq] at same ⊢
          exact ⟨same.1, ih tail tail' same.2⟩
        | escaped c' =>
          have clear := chars c List.mem_cons_self
          simp [Piece.source] at same
          exact absurd same.1 clear.2
      | escaped c =>
        cases piece' with
        | plain c' =>
          have clear := chars' c' List.mem_cons_self
          simp [Piece.source] at same
          exact absurd same.1.symm clear.2
        | escaped c' =>
          simp only [List.flatMap_cons, Piece.source, List.cons_append, List.nil_append,
            List.cons.injEq, true_and] at same ⊢
          exact ⟨same.1, ih tail tail' same.2⟩

theorem Spells.unique {token : Token} {source source' rest rest' : Text}
    (spells : Spells token source) (spells' : Spells token source')
    (same : source ++ rest = source' ++ rest') : source = source' := by
  unfold Spells at spells spells'
  cases quoted : token.quote with
  | false =>
    rw [quoted] at spells spells'
    exact spells.1.trans spells'.1.symm
  | true =>
    rw [quoted] at spells spells'
    obtain ⟨⟨quote, isQuote, body, chars⟩, rfl, -⟩ := spells
    obtain ⟨⟨quote', isQuote', body', chars'⟩, rfl, -⟩ := spells'
    have notSlash : quote ≠ '\\' := by rcases isQuote with rfl | rfl <;> decide
    simp only [Lexeme.source, List.cons_append, List.append_assoc, List.cons.injEq,
      List.nil_append] at same ⊢
    obtain ⟨rfl, same⟩ := same
    exact ⟨rfl, by rw [quoted_unique notSlash chars chars' same]⟩

theorem placed_nil {before : Text} {segments : List Segment} (none : tokensOf segments = []) :
    placed before segments = [] := by
  rw [← List.map_eq_nil_iff, placed_tokens, none]

/-- Two cuts of the same text with the same tokens place them alike. -/
theorem placed_unique {segments segments' : List Segment} {rest rest' : Text}
    (sound : ∀ segment ∈ segments, segment.Sound)
    (sound' : ∀ segment ∈ segments', segment.Sound)
    (text : textOf segments ++ rest = textOf segments' ++ rest')
    (same : tokensOf segments = tokensOf segments') (before : Text) :
    placed before segments = placed before segments' := by
  -- induction along the text: whitespace meets whitespace, a source the same source
  induction segments generalizing segments' before with
  | nil => rw [placed, placed_nil same.symm]
  | cons segment segments ih =>
    obtain ⟨first, others⟩ := List.forall_mem_cons.mp sound
    cases segments' with
    | nil => exact placed_nil same
    | cons segment' segments' =>
      obtain ⟨first', others'⟩ := List.forall_mem_cons.mp sound'
      cases segment with
      | space c =>
        cases segment' with
        | space c' =>
          simp only [textOf, List.flatMap_cons, Segment.text, List.cons_append,
            List.cons.injEq] at text
          obtain ⟨rfl, text⟩ := text
          exact ih others others' text same _
        | found token source =>
          obtain ⟨c', tail, rfl, word⟩ := first'.head
          simp only [textOf, List.flatMap_cons, Segment.text, List.cons_append,
            List.cons.injEq] at text
          obtain ⟨rfl, -⟩ := text
          exact absurd first (by simp [Segment.Sound, word])
      | found token source =>
        cases segment' with
        | space c' =>
          obtain ⟨c, tail, rfl, word⟩ := first.head
          simp only [textOf, List.flatMap_cons, Segment.text, List.cons_append,
            List.cons.injEq] at text
          obtain ⟨rfl, -⟩ := text
          exact absurd first' (by simp [Segment.Sound, word])
        | found token' source' =>
          simp only [tokensOf, List.filterMap_cons, Segment.token?, List.cons.injEq] at same
          obtain ⟨rfl, same⟩ := same
          simp only [textOf, List.flatMap_cons, Segment.text, List.append_assoc] at text
          obtain rfl := Spells.unique first first' text
          rw [placed, placed, ih others others' (List.append_cancel_left text) same]

/-! ## The recorded line -/

/-- No token is pending at the end of the text. -/
def between (text : Text) : Bool :=
  match endMode text with
  | .between _ => true
  | _ => false

/-- The next rune begins a token that records its line. -/
def records (before : Text) (c : Char) : Bool :=
  between before && !isSpace c && c != '#' && c != '\\'

def recordedFrom : Text → Nat → Text → Nat
  | _, line, [] => line
  | before, line, c :: text =>
    recordedFrom (before ++ [c]) (if records before c then lineAt before else line) text

/-- The line of the last token in the text that recorded it, 0 without one. -/
def recorded (text : Text) : Nat := recordedFrom [] 0 text

theorem recordedFrom_concat (before : Text) (line : Nat) (text : Text) (c : Char) :
    recordedFrom before line (text ++ [c]) =
      if records (before ++ text) c then lineAt (before ++ text)
      else recordedFrom before line text := by
  induction text generalizing before line with
  | nil => simp [recordedFrom]
  | cons c' text ih => simp [recordedFrom, ih]

theorem recorded_concat (text : Text) (c : Char) :
    recorded (text ++ [c]) = if records text c then lineAt text else recorded text :=
  recordedFrom_concat [] 0 text c

theorem lineAt_concat (text : Text) (c : Char) :
    lineAt (text ++ [c]) = countLine (lineAt text) c := by
  by_cases newline : c = '\n'
  · subst newline
    simp [lineAt, countLine, Nat.add_assoc]
  · simp [lineAt, countLine, newline]

theorem recorded_le (text : Text) : recorded text ≤ lineAt text := by
  induction text using List.reverseRecOn with
  | nil => decide
  | append_singleton text c ih =>
    have grows : lineAt text ≤ lineAt (text ++ [c]) := by
      rw [lineAt_concat, countLine]
      split <;> omega
    rw [recorded_concat]
    split <;> omega

/-- A token that records its line begins earlier on the line that the text ends with. -/
def Preceded (before : Text) : Prop :=
  ∃ earlier c rest, before = earlier ++ c :: rest ∧ records earlier c = true ∧ '\n' ∉ rest

theorem preceded_concat (text : Text) (c : Char) :
    Preceded (text ++ [c]) ↔ records text c = true ∨ c ≠ '\n' ∧ Preceded text := by
  constructor
  · rintro ⟨earlier, c', rest, same, begins, line⟩
    rcases List.eq_nil_or_concat rest with rfl | ⟨rest, last, rfl⟩
    · obtain ⟨rfl, rfl⟩ := List.append_singleton_inj.mp same
      exact .inl begins
    · rw [List.concat_eq_append] at same line
      rw [← List.cons_append, ← List.append_assoc] at same
      obtain ⟨rfl, rfl⟩ := List.append_singleton_inj.mp same
      rw [List.mem_append, not_or, List.mem_singleton] at line
      exact .inr ⟨fun newline => line.2 newline.symm, earlier, c', rest, rfl, begins, line.1⟩
  · rintro (begins | ⟨newline, earlier, c', rest, rfl, begins, line⟩)
    · exact ⟨text, c, [], rfl, begins, by simp⟩
    · exact ⟨earlier, c', rest ++ [c], by simp, begins, by simp [line, Ne.symm newline]⟩

theorem recorded_eq_iff (text : Text) : recorded text = lineAt text ↔ Preceded text := by
  induction text using List.reverseRecOn with
  | nil => exact iff_of_false (by decide) (by simp [Preceded])
  | append_singleton text c ih =>
    have bound := recorded_le text
    rw [recorded_concat, lineAt_concat, preceded_concat]
    by_cases newline : c = '\n'
    · have space : records text c = false := by
        rw [newline]
        simp [records, show isSpace '\n' = true by decide]
      rw [space, countLine, if_pos newline]
      refine iff_of_false ?_ (by simp [newline])
      simp only [Bool.false_eq_true, if_false]
      omega
    · rw [countLine, if_neg newline]
      cases begins : records text c with
      | true => simp
      | false => simpa [newline] using ih

/-! ## What a state says about the text read -/

/-- A word that begins with a backslash. -/
def Slashed (token : Token) : Prop := token.quote = false ∧ token.text.head? = some '\\'

instance (token : Token) : Decidable (Slashed token) := inferInstanceAs (Decidable (_ ∧ _))

/-- The line the lexer gives to a token behind the text. -/
def lineGiven (before : Text) (token : Token) : Nat :=
  if Slashed token then recorded before else lineAt before

/-- The text read ends with the source of the pending token, behind the given text. -/
inductive Pending (before : Text) (lx : Lexer) : Point → Text → Prop
  | none {p : Point} (rests : p = .again ∨ p = .spaces) (empty : lx.token = []) :
      Pending before lx p before
  | word {p : Point} (inside : p = .again ∨ p = .escape ∨ p = .expansion)
      (visible : ∃ first ∈ lx.token.head?, isSpace first = false)
      (line : lx.line = lineGiven before ⟨lx.token, lx.line, false⟩) :
      Pending before lx p (before ++ lx.token)
  | comment (hash : lx.token.head? = some '#') :
      Pending before lx (.comment (lineAt before)) (before ++ lx.token)
  | quoted {q : Char} (isQuote : q = '"' ∨ q = '\'') {body : List Piece}
      (chars : ∀ c, Piece.plain c ∈ body → c ≠ q ∧ c ≠ '\\')
      (token_eq : lx.token = body.flatMap (Piece.unquoted q)) (line : lx.line = lineAt before) :
      Pending before lx (.quoted q) (before ++ q :: body.flatMap Piece.source)
  | quotedEscape {q : Char} (isQuote : q = '"' ∨ q = '\'') {body : List Piece}
      (chars : ∀ c, Piece.plain c ∈ body → c ≠ q ∧ c ≠ '\\')
      (token_eq : lx.token = body.flatMap (Piece.unquoted q)) (line : lx.line = lineAt before) :
      Pending before lx (.quotedEscape q) (before ++ q :: body.flatMap Piece.source ++ ['\\'])

/-- What one step adds to a cut of the text before the pending token. -/
structure Adds (before : Text) (lx : Lexer) (next : Lexer × Point) (read : Text)
    (segments : List Segment) : Prop where
  sound : ∀ segment ∈ segments, segment.Sound
  tokens_eq : next.1.tokens = lx.tokens ++ tokensOf segments
  lines : ∀ place ∈ placed before segments, place.2.line = lineGiven place.1 place.2
  pending : Pending (before ++ textOf segments) next.1 next.2 read
  line : next.1.line = recorded read

theorem between_iff {p : Point} {read : Text} (sim : Sim lx p (endMode read)) :
    between read = true ↔ lx.token = [] ∧ (p = .again ∨ p = .spaces) := by
  unfold between
  generalize endMode read = m at sim
  cases sim <;> simp_all

theorem recorded_inside (inside : between read = false) (c : Char) :
    recorded (read ++ [c]) = recorded read := by
  simp [recorded_concat, records, inside]

theorem recorded_quiet (read : Text) (quiet : isSpace c = true ∨ c = '#' ∨ c = '\\') :
    recorded (read ++ [c]) = recorded read := by
  rw [recorded_concat, if_neg]
  rcases quiet with quiet | rfl | rfl <;> simp [records, *]

theorem lineAt_visible (read : Text) (visible : isSpace c = false) :
    lineAt (read ++ [c]) = lineAt read := by
  rw [lineAt_concat, countLine, if_neg]
  rintro rfl
  cases visible

theorem Adds.nothing {next : Lexer × Point} (tokens_eq : next.1.tokens = lx.tokens)
    (pending : Pending before next.1 next.2 read) (line : next.1.line = recorded read) :
    Adds before lx next read [] where
  sound := nofun
  tokens_eq := by simpa using tokens_eq
  lines := nofun
  pending := by simpa using pending
  line := line

theorem lineGiven_head {first : Char} {token : Token} (bare : token.quote = false)
    (head : token.text.head? = some first) (before : Text) :
    lineGiven before token = if first = '\\' then recorded before else lineAt before := by
  simp [lineGiven, Slashed, bare, head]

theorem Pending.begin {first : Char} {p : Point} (token_eq : lx.token = [first])
    (inside : p = .again ∨ p = .escape ∨ p = .expansion) (visible : isSpace first = false)
    (line : lx.line = if first = '\\' then recorded before else lineAt before) :
    Pending before lx p (before ++ [first]) := by
  have word : Pending before lx p (before ++ lx.token) :=
    .word inside ⟨first, by simp [token_eq], visible⟩
      (line.trans (lineGiven_head rfl (by simp [token_eq]) before).symm)
  rwa [token_eq] at word

/-- A rune between two tokens that is not whitespace. -/
theorem adds_dispatch (empty : lx.token = []) (resting : between read = true)
    (line : lx.line = recorded read) (visible : isSpace c = false) :
    ∃ segments, Adds read lx (dispatch lx ⟨c, lineAt (read ++ [c]), false⟩) (read ++ [c])
      segments := by
  rw [dispatch_nil empty, lineAt_visible read visible]
  dsimp only
  split
  · rename_i hash
    subst hash
    have comment : Pending read (lx.push '#') (.comment (lineAt read))
        (read ++ (lx.push '#').token) := .comment (by simp [Lexer.push, empty])
    refine ⟨[], .nothing rfl ?_ (line.trans (recorded_quiet read (by simp)).symm)⟩
    simpa [Lexer.push, empty] using comment
  rename_i hash
  split
  · rename_i slash
    subst slash
    refine ⟨[], .nothing rfl ?_ (line.trans (recorded_quiet read (by simp)).symm)⟩
    exact .begin (by simp [Lexer.push, empty]) (by simp) visible (by simpa [Lexer.push] using line)
  rename_i slash
  have new : recorded (read ++ [c]) = lineAt read := by
    simp [recorded_concat, records, resting, visible, hash, slash]
  split
  · rename_i quote
    have quoted : Pending read { lx with line := lineAt read } (.quoted c)
        (read ++ c :: [].flatMap Piece.source) := .quoted quote (by simp) empty rfl
    exact ⟨[], .nothing rfl quoted new.symm⟩
  split
  · refine ⟨[.found ⟨[c], lineAt read, false⟩ [c]], ?_, by simp [Segment.token?], ?_, ?_, new.symm⟩
    · simpa [Segment.Sound, Spells] using visible
    · simp [placed, lineGiven, Slashed, slash]
    · exact .none (.inl rfl) empty
  · exact ⟨[], .nothing rfl (.begin rfl (by simp) visible (by simp [slash])) new.symm⟩

/-- A word that goes on. -/
theorem adds_push {p : Point} {lx' : Lexer}
    (visible : ∃ first ∈ lx.token.head?, isSpace first = false)
    (line : lx.line = lineGiven before ⟨lx.token, lx.line, false⟩)
    (unbroken : lx.line = recorded (before ++ lx.token ++ [c]))
    (inside : p = .again ∨ p = .escape ∨ p = .expansion) (token_eq : lx'.token = lx.token ++ [c])
    (line_eq : lx'.line = lx.line) (tokens_eq : lx'.tokens = lx.tokens) :
    Adds before lx (lx', p) (before ++ lx.token ++ [c]) [] := by
  obtain ⟨first, head, word⟩ := visible
  have head' : lx'.token.head? = some first := by
    rw [token_eq, List.head?_append, Option.mem_def.mp head]
    rfl
  have grown : Pending before lx' p (before ++ lx'.token) := .word inside ⟨first, head', word⟩ (by
    rw [lineGiven_head rfl head', line_eq, line, lineGiven_head rfl head])
  rw [token_eq, ← List.append_assoc] at grown
  exact .nothing tokens_eq grown (line_eq.trans unbroken)

theorem spells_word {token : Text} {line : Nat}
    (visible : ∃ first ∈ token.head?, isSpace first = false) :
    Spells ⟨token, line, false⟩ token := by
  simpa [Spells] using visible

/-- The code after the expansion loop, inside a word. -/
theorem adds_plain (visible : ∃ first ∈ lx.token.head?, isSpace first = false)
    (line : lx.line = lineGiven before ⟨lx.token, lx.line, false⟩)
    (unbroken : lx.line = recorded (before ++ lx.token ++ [c])) :
    ∃ segments, Adds before lx (plain lx ⟨c, lineAt (before ++ lx.token ++ [c]), false⟩)
      (before ++ lx.token ++ [c]) segments := by
  have pending : lx.token ≠ [] := by
    rintro empty
    simp [empty] at visible
  rw [plain_pending pending]
  split
  · rename_i stop
    have clear : isSpace c = false := not_space_of_terminal (mem_terminals.mp stop)
    have slash : c ≠ '\\' := by rcases mem_terminals.mp stop with rfl | rfl | rfl <;> decide
    rw [lineAt_visible (before ++ lx.token) clear]
    refine ⟨[.found ⟨lx.token, lx.line, false⟩ lx.token,
      .found ⟨[c], lineAt (before ++ lx.token), false⟩ [c]], ?_, ?_, ?_, ?_, unbroken⟩
    · have second : Spells ⟨[c], lineAt (before ++ lx.token), false⟩ [c] :=
        spells_word ⟨c, rfl, clear⟩
      simpa [Segment.Sound] using ⟨spells_word visible, second⟩
    · simp [Segment.token?]
    · simp only [placed, List.forall_mem_cons]
      refine ⟨line, ?_, by simp⟩
      simp [lineGiven, Slashed, slash]
    · have ended : textOf [.found ⟨lx.token, lx.line, false⟩ lx.token,
          .found ⟨[c], lineAt (before ++ lx.token), false⟩ [c]] = lx.token ++ [c] := by
        simp [Segment.text]
      rw [ended, ← List.append_assoc]
      exact .none (.inl rfl) rfl
  · exact ⟨[], adds_push visible line unbroken (.inl rfl) rfl rfl rfl⟩

/-- Whitespace behind a word. -/
theorem adds_afterWord (visible : ∃ first ∈ lx.token.head?, isSpace first = false)
    (line : lx.line = lineGiven before ⟨lx.token, lx.line, false⟩)
    (unbroken : lx.line = recorded (before ++ lx.token ++ [c])) (space : isSpace c = true) :
    (∃ segments, Adds before lx (afterWord lx) (before ++ lx.token ++ [c]) segments) ∨
      HasLua (afterWord lx).1.tokens := by
  have pending : lx.token ≠ [] := by
    rintro empty
    simp [empty] at visible
  rw [afterWord, if_pos pending]
  dsimp only
  split
  · rename_i custom
    exact .inr (hasLua_luaEnter custom)
  · left
    refine ⟨[.found ⟨lx.token, lx.line, false⟩ lx.token, .space c], ?_, ?_, ?_, ?_, unbroken⟩
    · simpa [Segment.Sound] using ⟨spells_word visible, space⟩
    · simp [Segment.token?, Lexer.emit]
    · simp only [placed, List.forall_mem_cons]
      exact ⟨line, by simp⟩
    · have ended : textOf [.found ⟨lx.token, lx.line, false⟩ lx.token, .space c] =
          lx.token ++ [c] := by simp [Segment.text]
      rw [ended, ← List.append_assoc]
      exact .none (.inr rfl) rfl

/-- The end of a quoted word. -/
theorem adds_afterQuote {q : Char} (isQuote : q = '"' ∨ q = '\'') {body : List Piece}
    (chars : ∀ c, Piece.plain c ∈ body → c ≠ q ∧ c ≠ '\\')
    (token_eq : lx.token = body.flatMap (Piece.unquoted q)) (line : lx.line = lineAt before)
    (unbroken : lx.line = recorded (before ++ q :: body.flatMap Piece.source ++ [q])) :
    (∃ segments, Adds before lx (afterQuote lx)
        (before ++ q :: body.flatMap Piece.source ++ [q]) segments) ∨
      HasLua (afterQuote lx).1.tokens := by
  rw [afterQuote]
  split
  · rename_i custom
    exact .inr (hasLua_luaEnter custom)
  · left
    refine ⟨[.found ⟨lx.token, lx.line, true⟩ (q :: body.flatMap Piece.source ++ [q])],
      ?_, ?_, ?_, ?_, unbroken⟩
    · have quoted : Spells ⟨lx.token, lx.line, true⟩ (q :: body.flatMap Piece.source ++ [q]) :=
        ⟨⟨q, isQuote, body, chars⟩, rfl, token_eq⟩
      simpa [Segment.Sound] using quoted
    · simp [Segment.token?, Lexer.emit]
    · simpa [placed, lineGiven, Slashed] using line
    · have ended : textOf [.found ⟨lx.token, lx.line, true⟩
          (q :: body.flatMap Piece.source ++ [q])] = q :: body.flatMap Piece.source ++ [q] := by
        simp [Segment.text]
      rw [ended, ← List.append_assoc]
      exact .none (.inl rfl) rfl

/-- One rune, in any state: the cut grows, or a Lua directive was emitted. -/
theorem adds_proceed {p : Point} (sim : Sim lx p (endMode read))
    (pending : Pending before lx p read)
    (line : lx.line = recorded read) (c : Char) :
    (∃ segments, Adds before lx (proceed lx ⟨c, lineAt (read ++ [c]), false⟩ p) (read ++ [c])
        segments) ∨
      HasLua (proceed lx ⟨c, lineAt (read ++ [c]), false⟩ p).1.tokens := by
  have resting := between_iff sim
  cases pending with
  | none rests empty =>
    left
    cases space : isSpace c with
    | true =>
      have stays : proceed lx ⟨c, lineAt (read ++ [c]), false⟩ p = (lx, .spaces) := by
        rcases rests with rfl | rfl <;> simp [proceed, space, afterWord, empty]
      rw [stays]
      refine ⟨[.space c], by simpa [Segment.Sound] using space, by simp [Segment.token?],
        by simp [placed], .none (.inr rfl) empty,
        line.trans (recorded_quiet read (.inl space)).symm⟩
    | false =>
      have dispatched : proceed lx ⟨c, lineAt (read ++ [c]), false⟩ p =
          dispatch lx ⟨c, lineAt (read ++ [c]), false⟩ := by
        rcases rests with rfl | rfl <;> simp [proceed, space]
      rw [dispatched]
      exact adds_dispatch empty (resting.mpr ⟨empty, rests⟩) line space
  | word inside visible given =>
    have pending : lx.token ≠ [] := by
      rintro empty
      simp [empty] at visible
    have unbroken : lx.line = recorded (before ++ lx.token ++ [c]) := by
      rw [recorded_inside _ c, line]
      exact Bool.eq_false_iff.mpr fun rests => pending (resting.mp rests).1
    rcases inside with rfl | rfl | rfl
    · cases space : isSpace c with
      | true =>
        rw [proceed, space]
        exact adds_afterWord visible given unbroken space
      | false =>
        left
        rw [proceed, space]
        simp only [Bool.false_eq_true, if_false]
        rw [dispatch_pending pending]
        split
        · exact ⟨[], adds_push visible given unbroken (by simp) rfl rfl rfl⟩
        split
        · exact ⟨[], adds_push visible given unbroken (by simp) rfl rfl rfl⟩
        · exact adds_plain visible given unbroken
    · exact .inl ⟨[], adds_push visible given unbroken (by simp) rfl rfl rfl⟩
    · left
      rw [proceed]
      split
      · exact ⟨[], adds_push visible given unbroken (by simp) rfl rfl rfl⟩
      · exact adds_plain visible given unbroken
  | comment hash =>
    left
    have unbroken : lx.line = recorded (before ++ lx.token ++ [c]) := by
      rw [recorded_inside _ c, line]
      exact Bool.eq_false_iff.mpr fun rests => by simpa using (resting.mp rests).2
    rw [proceed]
    split
    · have grown : Pending before (lx.push c) (.comment (lineAt before))
          (before ++ (lx.push c).token) := .comment (by simp [Lexer.push, hash])
      refine ⟨[], .nothing rfl ?_ unbroken⟩
      simpa [Lexer.push] using grown
    · rename_i newline
      obtain rfl : c = '\n' := not_not.mp newline
      have visible : ∃ first ∈ lx.token.head?, isSpace first = false := ⟨'#', hash, by decide⟩
      refine ⟨[.found ⟨lx.token, lineAt before, false⟩ lx.token, .space '\n'], ?_, ?_, ?_, ?_,
        unbroken⟩
      · have space : isSpace '\n' = true := by decide
        simpa [Segment.Sound] using ⟨spells_word visible, space⟩
      · simp [Segment.token?, Lexer.emit]
      · simp only [placed, List.forall_mem_cons]
        exact ⟨by simp [lineGiven, Slashed, hash], by simp⟩
      · have ended : textOf [.found ⟨lx.token, lineAt before, false⟩ lx.token, .space '\n'] =
            lx.token ++ ['\n'] := by simp [Segment.text]
        rw [ended, ← List.append_assoc]
        exact .none (.inl rfl) rfl
  | @quoted q isQuote body chars token_eq given =>
    have unbroken : lx.line = recorded (before ++ q :: body.flatMap Piece.source ++ [c]) := by
      rw [recorded_inside _ c, line]
      exact Bool.eq_false_iff.mpr fun rests => by simpa using (resting.mp rests).2
    rw [proceed]
    split
    · rename_i other
      left
      split
      · rename_i slash
        obtain rfl : c = '\\' := slash
        exact ⟨[], .nothing rfl (.quotedEscape isQuote chars token_eq given) unbroken⟩
      · rename_i plain
        have grown : Pending before (lx.push c) (.quoted q)
            (before ++ q :: (body ++ [Piece.plain c]).flatMap Piece.source) := by
          refine .quoted isQuote ?_ ?_ given
          · intro c' mem
            rcases List.mem_append.mp mem with old | new
            · exact chars c' old
            · obtain rfl : c' = c := by simpa using new
              exact ⟨other, plain⟩
          · simp [Lexer.push, token_eq, Piece.unquoted]
        refine ⟨[], .nothing rfl ?_ unbroken⟩
        simpa [Piece.source] using grown
    · rename_i closing
      obtain rfl : c = q := not_not.mp closing
      exact adds_afterQuote isQuote chars token_eq given unbroken
  | @quotedEscape q isQuote body chars token_eq given =>
    left
    have unbroken :
        lx.line = recorded (before ++ q :: body.flatMap Piece.source ++ ['\\'] ++ [c]) := by
      rw [recorded_inside _ c, line]
      exact Bool.eq_false_iff.mpr fun rests => by simpa using (resting.mp rests).2
    have grown {lx' : Lexer} (line_eq : lx'.line = lx.line)
        (token_eq' : lx'.token = lx.token ++ Piece.unquoted q (.escaped c)) :
        Pending before lx' (.quoted q)
          (before ++ q :: body.flatMap Piece.source ++ ['\\'] ++ [c]) := by
      have longer : Pending before lx' (.quoted q)
          (before ++ q :: (body ++ [Piece.escaped c]).flatMap Piece.source) := by
        refine .quoted isQuote ?_ ?_ (line_eq.trans given)
        · intro c' mem
          exact chars c' (by simpa using mem)
        · simp [token_eq', token_eq]
      simpa [Piece.source] using longer
    rw [proceed]
    split
    · rename_i same
      obtain rfl : c = q := same
      exact ⟨[], .nothing rfl (grown rfl (by simp [Lexer.push, Piece.unquoted])) unbroken⟩
    · rename_i other
      have differs : c ≠ q := other
      exact ⟨[], .nothing rfl (grown rfl (by simp [Lexer.push, Piece.unquoted, differs])) unbroken⟩

/-! ## The whole run -/

/-- The text read, cut up to the pending token. -/
structure Tracked (read : Text) (s : LexState) (segments : List Segment) : Prop where
  sim : Sim s.lexer s.point (endMode read)
  counted : s.iter.line = lineAt read
  line : s.lexer.line = recorded read
  sound : ∀ segment ∈ segments, segment.Sound
  tokens_eq : s.lexer.tokens = tokensOf segments
  lines : ∀ place ∈ placed [] segments, place.2.line = lineGiven place.1 place.2
  pending : Pending (textOf segments) s.lexer s.point read

theorem Pending.live {p : Point} (pending : Pending before lx p read) (err : Option LexError) :
    p ≠ .returned err := by
  rintro rfl
  cases pending with
  | none rests empty => rcases rests with same | same <;> cases same
  | word inside visible line => rcases inside with same | same | same <;> cases same

theorem Pending.text {p : Point} (pending : Pending before lx p read) :
    ∃ rest, before ++ rest = read := by
  cases pending with
  | none rests empty => exact ⟨[], List.append_nil _⟩
  | word inside visible line => exact ⟨_, rfl⟩
  | comment hash => exact ⟨_, rfl⟩
  | quoted isQuote chars token_eq line => exact ⟨_, rfl⟩
  | quotedEscape isQuote chars token_eq line => exact ⟨_, (List.append_assoc _ _ _).symm⟩

theorem Tracked.next {segments : List Segment} (tracked : Tracked read s segments)
    (here : s.iter.input = c :: rest) :
    ∃ t, step s = some t ∧ t.iter.input = rest ∧
      ((∃ segments', Tracked (read ++ [c]) t segments') ∨ HasLua t.lexer.tokens) := by
  obtain ⟨lx, ⟨input, line⟩, p⟩ := s
  obtain ⟨sim, counted, recorded, sound, tokens_eq, lines, pending⟩ := tracked
  dsimp only at here sim counted recorded tokens_eq pending
  subst here counted
  have counts : countLine (lineAt read) c = lineAt (read ++ [c]) := (lineAt_concat read c).symm
  have next (n : Nat) : Sim (proceed lx ⟨c, n, false⟩ p).1 (proceed lx ⟨c, n, false⟩ p).2
      (endMode (read ++ [c])) := by
    rw [endMode, List.foldl_concat]
    exact sim_read sim
  refine ⟨_, step_read pending.live, rfl, ?_⟩
  rw [counts]
  rcases adds_proceed sim pending recorded c with ⟨added, adds⟩ | lua
  · left
    refine ⟨segments ++ added, next _, rfl, adds.line, ?_, ?_, ?_, ?_⟩
    · exact List.forall_mem_append.mpr ⟨sound, adds.sound⟩
    · rw [tokensOf, List.filterMap_append, adds.tokens_eq, tokens_eq]
    · rw [placed_append]
      exact List.forall_mem_append.mpr ⟨lines, adds.lines⟩
    · rw [textOf, List.flatMap_append]
      exact adds.pending
  · exact .inr lua

theorem tracked_run {segments : List Segment} (tracked : Tracked read s segments)
    (here : s.iter.input = rest) :
    Leads step s fun t => t.iter.input = [] ∧ (∃ segments', Tracked (read ++ rest) t segments') ∨
      HasLua t.lexer.tokens := by
  induction rest generalizing read s segments with
  | nil => exact .here (.inl ⟨here, segments, by rwa [List.append_nil]⟩)
  | cons c rest ih =>
    obtain ⟨t, edge, after, ⟨segments', tracks⟩ | lua⟩ := tracked.next here
    · have run := ih tracks after
      rw [List.append_assoc, List.singleton_append] at run
      exact .next edge run
    · exact .next edge (.here (.inr lua))

theorem tracked_start (input : Text) : Tracked [] (start input) [] where
  sim := .again rfl
  counted := rfl
  line := rfl
  sound := nofun
  tokens_eq := rfl
  lines := nofun
  pending := .none (.inl rfl) rfl

theorem exists_cut (returns : Returns input none tokens)
    (noLua : ∀ token ∈ tokens, token.text ∉ luaDirectives) :
    ∃ segments, Cut input tokens segments ∧
      ∀ place ∈ placed [] segments, place.2.line = lineGiven place.1 place.2 := by
  obtain ⟨t, path, ⟨ended, segments, tracked⟩ | ⟨token, emitted, lua⟩⟩ :=
    tracked_run (tracked_start input) rfl
  · have same := (returns_tokens returns path).2 ended
    exact ⟨segments, ⟨tracked.sound, tracked.pending.text, tracked.tokens_eq.symm.trans same⟩,
      tracked.lines⟩
  · exact absurd lua (noLua token ((returns_tokens returns path).1.subset emitted))

/-- A run without Lua cuts its input into whitespace and tokens. All tokens carry the line of
their first rune exactly if every word that begins with a backslash has on its own line, before
it, the beginning of a token that is no comment, no such word and no terminal at the end of a
word. -/
theorem positions_right_iff (input : Text) (tokens : List Token)
    (returns : Returns input none tokens)
    (noLua : ∀ token ∈ tokens, token.text ∉ luaDirectives) :
    (∃ segments, Cut input tokens segments) ∧
      ∀ segments, Cut input tokens segments →
        ((∀ place ∈ placed [] segments, place.2.line = lineAt place.1) ↔
          ∀ place ∈ placed [] segments, Slashed place.2 → Preceded place.1) := by
  obtain ⟨segments, cut, lines⟩ := exists_cut returns noLua
  refine ⟨⟨segments, cut⟩, fun segments' cut' => ?_⟩
  obtain ⟨rest, text⟩ := cut.text_eq
  obtain ⟨rest', text'⟩ := cut'.text_eq
  have same : placed [] segments' = placed [] segments :=
    placed_unique cut'.sound cut.sound (text'.trans text.symm)
      (cut'.tokens_eq.trans cut.tokens_eq.symm) []
  rw [same]
  refine forall₂_congr fun place mem => ?_
  rw [lines place mem, lineGiven]
  split
  · rename_i slashed
    simp only [slashed, true_imp_iff, recorded_eq_iff]
  · rename_i other
    simp only [other, false_imp_iff]

private def sampleTokens : List Token :=
  [⟨['a'], 1, false⟩, ⟨"\\b".toList, 1, false⟩, ⟨[';'], 1, false⟩]

private def sampleCut : List Segment :=
  [.found ⟨['a'], 1, false⟩ ['a'], .space ' ', .found ⟨"\\b".toList, 1, false⟩ "\\b".toList,
    .found ⟨[';'], 1, false⟩ [';'], .space '\n']

/-- A word with a leading backslash behind another word. -/
theorem positions_right_sample :
    Cut "a \\b;\n".toList sampleTokens sampleCut ∧
      ∀ place ∈ placed [] sampleCut, place.2.line = lineAt place.1 := by
  have returns : Returns "a \\b;\n".toList none sampleTokens :=
    ⟨run step 8 (start "a \\b;\n".toList), reaches_run _ _, rfl, rfl⟩
  have cut : Cut "a \\b;\n".toList sampleTokens sampleCut :=
    ⟨by simp [sampleCut, Segment.Sound, Spells, isSpace], ⟨[], rfl⟩, rfl⟩
  refine ⟨cut, ((positions_right_iff _ _ returns (by decide)).2 _ cut).mpr ?_⟩
  have preceded : Preceded "a ".toList := ⟨[], 'a', [' '], rfl, by decide, by decide⟩
  simpa [sampleCut, placed, Slashed] using preceded

/-- The word `\a` at the beginning of the file gets line 0. -/
theorem leading_backslash_line :
    ¬ ∀ (input : Text) (tokens : List Token), Returns input none tokens →
      (∀ token ∈ tokens, token.text ∉ luaDirectives) →
      ∃ segments, Cut input tokens segments ∧
        ∀ place ∈ placed [] segments, place.2.line = lineAt place.1 := by
  intro right
  obtain ⟨segments, cut, lines⟩ := right "\\a;".toList
    [⟨"\\a".toList, 0, false⟩, ⟨[';'], 1, false⟩]
    ⟨run step 4 (start "\\a;".toList), reaches_run _ _, rfl, rfl⟩ (by decide)
  have emitted : ⟨"\\a".toList, 0, false⟩ ∈ (placed [] segments).map Prod.snd := by
    rw [placed_tokens, cut.tokens_eq]
    exact List.mem_cons_self
  obtain ⟨place, mem, token⟩ := List.mem_map.mp emitted
  have line := lines place mem
  rw [token, lineAt] at line
  change 0 = 1 + _ at line
  omega

end LexPositions
