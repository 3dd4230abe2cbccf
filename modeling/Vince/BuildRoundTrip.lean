import Vince.EnquoteWords
import Vince.ParseSoundness

/-!
# Building, lexing and parsing a configuration

What `build` writes for a forest of plain words is a layout of lexemes, so the lexer recovers
the words and terminals, and the tokens derive a forest of the same outline, which the parser
returns. Lua directives, `if` and comments are not built in this form and are left out; nothing
is said about words with a backslash.
-/

namespace BuildRoundTrip

open GoText ConfigLex ConfigAnalyze ConfigParse ConfigBuild LexLayout ParseReads ParseForest
  ParseSoundness

/-- A word of printable runes that comes back from a configuration file. -/
structure PlainWord (isPrint : Char → Bool) (word : Text) : Prop where
  printable : ∀ c ∈ word, isPrint c = true
  noSlash : '\\' ∉ word
  hash : word.head? = some '#' → needsQuote word = true

structure PlainDirective (isPrint : Char → Bool) (word : Text) : Prop
    extends PlainWord isPrint word where
  notIf : word ≠ "if".toList
  notLua : word ∉ luaDirectives

instance (isPrint : Char → Bool) (word : Text) : Decidable (PlainWord isPrint word) :=
  decidable_of_iff
    (word.all isPrint = true ∧ '\\' ∉ word ∧ (word.head? = some '#' → needsQuote word = true))
    ⟨fun ⟨printable, noSlash, hash⟩ => ⟨List.all_eq_true.mp printable, noSlash, hash⟩,
      fun ⟨printable, noSlash, hash⟩ => ⟨List.all_eq_true.mpr printable, noSlash, hash⟩⟩

instance (isPrint : Char → Bool) (word : Text) : Decidable (PlainDirective isPrint word) :=
  decidable_of_iff (PlainWord isPrint word ∧ word ≠ "if".toList ∧ word ∉ luaDirectives)
    ⟨fun ⟨plain, notIf, notLua⟩ => ⟨plain, notIf, notLua⟩,
      fun ⟨plain, notIf, notLua⟩ => ⟨plain, notIf, notLua⟩⟩

mutual

def Writable (isPrint : Char → Bool) : Stmt → Prop
  | ⟨directive, _, _, args, _, _, none⟩ =>
    PlainDirective isPrint directive ∧ ∀ arg ∈ args, PlainWord isPrint arg
  | ⟨directive, _, _, args, _, _, some body⟩ =>
    PlainDirective isPrint directive ∧ (∀ arg ∈ args, PlainWord isPrint arg) ∧
      AllWritable isPrint body
termination_by structural stmt => stmt

/-- Every statement of the forest, at any depth, has a plain directive and plain arguments. -/
def AllWritable (isPrint : Char → Bool) : List Stmt → Prop
  | [] => True
  | stmt :: rest => Writable isPrint stmt ∧ AllWritable isPrint rest
termination_by structural stmts => stmts

end

mutual

def outlineStmt : Stmt → Stmt
  | ⟨directive, _, _, args, _, _, none⟩ => ⟨directive, [], 0, args, [], [], none⟩
  | ⟨directive, _, _, args, _, _, some body⟩ =>
    ⟨directive, [], 0, args, [], [], some (outline body)⟩
termination_by structural stmt => stmt

/-- A forest with nothing but its directives, arguments and blocks. -/
def outline : List Stmt → List Stmt
  | [] => []
  | stmt :: rest => outlineStmt stmt :: outline rest
termination_by structural stmts => stmts

end

theorem outline_eq_map (stmts : List Stmt) : outline stmts = stmts.map outlineStmt := by
  induction stmts with
  | nil => rfl
  | cons stmt rest ih => rw [outline, ih, List.map_cons]

theorem outlineStmt_eq (stmt : Stmt) :
    outlineStmt stmt = ⟨stmt.directive, [], 0, stmt.args, [], [], stmt.blocks.map outline⟩ := by
  rcases stmt with ⟨_, _, _, _, _, _, _ | body⟩ <;> rfl

theorem outline_bare (stmts : List Stmt) : outline (bare stmts) = outline stmts := by
  induction stmts using Stmt.forest_induction with
  | nil => rfl
  | cons stmt rest inner ih =>
    rw [bare, outline, outline, ih, outlineStmt_eq, outlineStmt_eq, bareStmt_eq]
    rcases stmt with ⟨_, _, _, _, _, _, _ | body⟩
    · rfl
    · simp [inner body rfl]

def wordKey (word : Text) : Text × Bool := (word, needsQuote word)

mutual

def stmtKeys : Stmt → List (Text × Bool)
  | ⟨directive, _, _, args, _, _, none⟩ => (directive :: args).map wordKey ++ [([';'], false)]
  | ⟨directive, _, _, args, _, _, some body⟩ =>
    ((directive :: args).map wordKey ++ [(['{'], false)]) ++ (keys body ++ [(['}'], false)])
termination_by structural stmt => stmt

/-- Text and quote flag of the tokens a forest is written with. -/
def keys : List Stmt → List (Text × Bool)
  | [] => []
  | stmt :: rest => stmtKeys stmt ++ keys rest
termination_by structural stmts => stmts

end

variable {isPrint : Char → Bool} {word : Text} {padding : Int}

/-! ## Single words -/

theorem PlainWord.unread_eq (plain : PlainWord isPrint word) :
    EnquoteWords.unread isPrint word = word := by
  refine (EnquoteWords.unread_eq_iff isPrint word).mpr
    ⟨?_, EnquoteWords.fourfold_plain plain.noSlash⟩
  exact List.all_eq_true.mpr fun c mem => by simp [plain.printable c mem]

theorem enquote_bare (isPrint : Char → Bool) (bare : needsQuote word = false) :
    enquote isPrint word = word := by
  rw [enquote, if_neg (by simp [bare])]

theorem PlainWord.bare_noHash (plain : PlainWord isPrint word) (bare : needsQuote word = false) :
    word.head? ≠ some '#' := by
  intro hash
  rw [plain.hash hash] at bare
  cases bare

theorem PlainWord.ne_hash (plain : PlainWord isPrint word) : word ≠ ['#'] := by
  rintro rfl
  exact plain.bare_noHash (by decide) rfl

/-- Only the word itself is written as a name that does not start with a quote. -/
theorem eq_of_enquote_eq {name : Text} (noQuote : name.head? ≠ some '"')
    (same : enquote isPrint word = name) :
    word = name ∧ needsQuote word = false := by
  cases quoted : needsQuote word with
  | true =>
    rw [enquote, if_pos quoted] at same
    exact absurd (by rw [← same]; rfl) noQuote
  | false => exact ⟨enquote_bare isPrint quoted ▸ same, rfl⟩

theorem PlainWord.enquote_ne_hash (plain : PlainWord isPrint word) :
    enquote isPrint word ≠ ['#'] :=
  fun same => plain.ne_hash (eq_of_enquote_eq (by decide) same).1

theorem PlainDirective.enquote_ne_if (plain : PlainDirective isPrint word) :
    enquote isPrint word ≠ "if".toList :=
  fun same => plain.notIf (eq_of_enquote_eq (by decide) same).1

theorem lua_noQuote : ∀ name ∈ luaDirectives, name.head? ≠ some '"' := by
  decide +kernel

theorem PlainDirective.enquote_notLua (plain : PlainDirective isPrint word) :
    enquote isPrint word ∉ luaDirectives := by
  intro mem
  obtain ⟨same, -⟩ := eq_of_enquote_eq (lua_noQuote _ mem) rfl
  exact plain.notLua (same ▸ mem)

theorem PlainWord.bare_chars (plain : PlainWord isPrint word) (bare : needsQuote word = false) :
    word ≠ [] ∧ ∀ c ∈ word, wordChar c = true ∧ c ≠ '"' ∧ c ≠ '\'' := by
  obtain ⟨nonempty, stops⟩ := needsQuote_false bare
  refine ⟨nonempty, fun c mem => ?_⟩
  have noSlash : c ≠ '\\' := fun same => plain.noSlash (same ▸ mem)
  have clear := stops c mem
  refine ⟨EnquoteWords.wordChar_of_bare clear noSlash, ?_⟩
  simp only [check01, Bool.or_eq_false_iff, decide_eq_false_iff_not] at clear
  exact ⟨clear.1.2, clear.2⟩

theorem PlainWord.exists_bare (plain : PlainWord isPrint word) (bare : needsQuote word = false) :
    ∃ v : Word, v.text = word := by
  obtain ⟨nonempty, chars⟩ := plain.bare_chars bare
  have text : (word.map Piece.plain).flatMap Piece.source = word := by
    simp [List.flatMap_map, Piece.source]
  refine ⟨⟨word.map .plain, by simpa using nonempty, ?_, ?_⟩, text⟩
  · intro c mem
    exact (chars c (by simpa using mem)).1
  · intro c first
    rw [List.head?_map] at first
    have head : word.head? = some c := by simpa using first
    have noHash : c ≠ '#' := fun same => plain.bare_noHash bare (same ▸ head)
    exact ⟨noHash, (chars c (List.mem_of_head? head)).2⟩

/-- A word is written as a quoted string or as a bare word. -/
theorem PlainWord.exists_lexeme (plain : PlainWord isPrint word) :
    (∃ q : Quoted, (Lexeme.quoted q).source = enquote isPrint word ∧ q.text = word ∧
      needsQuote word = true) ∨
    ∃ v : Word, v.text = enquote isPrint word ∧ v.text = word ∧ needsQuote word = false := by
  cases needs : needsQuote word with
  | true =>
    obtain ⟨q, source, text⟩ := EnquoteWords.exists_quoted isPrint needs
    exact Or.inl ⟨q, source, text.trans plain.unread_eq, rfl⟩
  | false =>
    obtain ⟨v, text⟩ := plain.exists_bare needs
    exact Or.inr ⟨v, by rw [enquote_bare isPrint needs, text], text, rfl⟩

/-! ## Layouts -/

/-- The entries render to the text and stand for the keys, wherever a terminal follows or
nothing does; the flag is the lexer's at their start. -/
structure Lays (d : Bool) (text : Text) (expected : List (Text × Bool)) (entries : Layout) :
    Prop where
  text_eq : render entries = text
  gaps : ∀ e ∈ entries, Spaces e.2
  keys_eq : entries.map (·.1.key) = expected
  separated : Separated entries
  luaFree : ∀ rest, LuaFree true rest → LuaFree d (entries ++ rest)

variable {d : Bool} {text text' : Text} {expected expected' : List (Text × Bool)}
  {entries entries' : Layout}

theorem render_append (first second : Layout) :
    render (first ++ second) = render first ++ render second := by
  induction first with
  | nil => rfl
  | cons e first ih => simp [render, ih]

theorem separated_append (first : Separated entries) (second : Separated entries') :
    Separated (entries ++ entries') := by
  fun_induction Separated entries with
  | case1 => exact second
  | case2 w gap rest ih =>
    obtain ⟨touching, tail⟩ := first
    refine ⟨fun none => ?_, ih tail⟩
    obtain ⟨ch, isTerminal, gap', rest', rfl, noDollar⟩ := touching none
    exact ⟨ch, isTerminal, gap', rest' ++ entries', rfl, noDollar⟩
  | case3 e rest notWord ih =>
    rw [List.cons_append, Separated]
    · exact ih first
    · exact notWord

theorem Lays.nil : Lays true [] [] [] where
  text_eq := rfl
  gaps := nofun
  keys_eq := rfl
  separated := trivial
  luaFree := fun _ free => free

theorem Lays.append (first : Lays d text expected entries)
    (second : Lays true text' expected' entries') :
    Lays d (text ++ text') (expected ++ expected') (entries ++ entries') where
  text_eq := by rw [render_append, first.text_eq, second.text_eq]
  gaps := List.forall_mem_append.mpr ⟨first.gaps, second.gaps⟩
  keys_eq := by rw [List.map_append, first.keys_eq, second.keys_eq]
  separated := separated_append first.separated second.separated
  luaFree := by
    intro rest free
    rw [List.append_assoc]
    exact first.luaFree _ (second.luaFree rest free)

theorem Lays.visible (lays : Lays d text expected entries) :
    ∀ c ∈ text.head?, isSpace c = false := by
  rw [← lays.text_eq]
  cases entries with
  | nil => nofun
  | cons entry entries =>
    obtain ⟨c, tail, source, visible⟩ := entry.1.source_head
    simpa [render, source] using visible

theorem Lays.terminal (d : Bool) {ch : Char} (isTerminal : ch = '{' ∨ ch = '}' ∨ ch = ';')
    {gap : Text} (spaces : Spaces gap) :
    Lays d (ch :: gap) [([ch], false)] [(.terminal ch isTerminal, gap)] where
  text_eq := by simp [render, Lexeme.source]
  gaps := by simpa using spaces
  keys_eq := rfl
  separated := trivial
  luaFree := fun _ free => free

/-- A word before a blank. -/
theorem PlainWord.lays_spaced (plain : PlainWord isPrint word)
    (notLua : d = true → word ∉ luaDirectives) (tail : Lays false text expected entries) :
    ∃ entries, Lays d (enquote isPrint word ++ ' ' :: text) (wordKey word :: expected) entries := by
  have gaps : ∀ lexeme : Lexeme, ∀ e ∈ (lexeme, [' ']) :: entries, Spaces e.2 :=
    fun _ => List.forall_mem_cons.mpr ⟨List.forall_mem_singleton.mpr (by decide), tail.gaps⟩
  rcases plain.exists_lexeme with ⟨q, source, same, quoted⟩ | ⟨v, source, same, bare⟩
  · refine ⟨(.quoted q, [' ']) :: entries, ?_, gaps _, ?_, tail.separated, ?_⟩
    · rw [render, source, tail.text_eq, List.append_assoc, List.singleton_append]
    · rw [List.map_cons, tail.keys_eq, Lexeme.key, wordKey, same, quoted]
    · intro rest free
      exact ⟨same ▸ notLua, tail.luaFree rest free⟩
  · refine ⟨(.word v, [' ']) :: entries, ?_, gaps _, ?_,
      ⟨fun touching => absurd touching (by simp), tail.separated⟩, ?_⟩
    · rw [render, Lexeme.source, source, tail.text_eq, List.append_assoc, List.singleton_append]
    · rw [List.map_cons, tail.keys_eq, Lexeme.key, wordKey, same, bare]
    · intro rest free
      rw [List.cons_append, LuaFree, if_neg (by simp)]
      exact ⟨same ▸ notLua, tail.luaFree rest free⟩

/-- A word right before a semicolon. -/
theorem PlainWord.lays_touching (plain : PlainWord isPrint word)
    (notLua : d = true → word ∉ luaDirectives) {gap : Text} (spaces : Spaces gap) :
    ∃ entries, Lays d (enquote isPrint word ++ ';' :: gap) [wordKey word, ([';'], false)]
      entries := by
  have semi : (';' : Char) = '{' ∨ (';' : Char) = '}' ∨ (';' : Char) = ';' := by decide
  have gaps (lexeme : Lexeme) : ∀ e ∈ [(lexeme, []), (.terminal ';' semi, gap)], Spaces e.2 := by
    simpa [Spaces] using spaces
  rcases plain.exists_lexeme with ⟨q, source, same, quoted⟩ | ⟨v, source, same, bare⟩
  · refine ⟨[(.quoted q, []), (.terminal ';' semi, gap)], ?_, gaps _, ?_, trivial, ?_⟩
    · rw [render, source]
      simp [render, Lexeme.source]
    · simp [Lexeme.key, wordKey, same, quoted]
    · intro rest free
      exact ⟨same ▸ notLua, free⟩
  · refine ⟨[(.word v, []), (.terminal ';' semi, gap)], ?_, gaps _, ?_, ⟨?_, trivial⟩, ?_⟩
    · simp [render, source, Lexeme.source]
    · simp [Lexeme.key, wordKey, same, bare]
    · exact fun _ => ⟨';', semi, gap, [], rfl, by simp⟩
    · intro rest free
      rw [List.cons_append, LuaFree, if_pos rfl]
      exact free

/-- The words of a statement, given how the last of them is followed. -/
theorem lays_words {ending : Text} {after : List (Text × Bool)}
    (final : ∀ d word, PlainWord isPrint word → (d = true → word ∉ luaDirectives) →
      ∃ entries, Lays d (enquote isPrint word ++ ending) (wordKey word :: after) entries)
    (args : List Text) (plain : PlainWord isPrint word)
    (plains : ∀ arg ∈ args, PlainWord isPrint arg) (notLua : d = true → word ∉ luaDirectives) :
    ∃ entries, Lays d (join [' '] ((word :: args).map (enquote isPrint)) ++ ending)
      ((word :: args).map wordKey ++ after) entries := by
  induction args generalizing word d with
  | nil => exact final d word plain notLua
  | cons arg args ih =>
    obtain ⟨plainArg, plainArgs⟩ := List.forall_mem_cons.mp plains
    obtain ⟨_, tail⟩ := ih (d := false) plainArg plainArgs nofun
    simpa [join] using plain.lays_spaced notLua tail

theorem lays_simple (args : List Text) (plain : PlainDirective isPrint word)
    (plains : ∀ arg ∈ args, PlainWord isPrint arg) {gap : Text} (spaces : Spaces gap) :
    ∃ entries, Lays true (join [' '] ((word :: args).map (enquote isPrint)) ++ ';' :: gap)
      ((word :: args).map wordKey ++ [([';'], false)]) entries :=
  lays_words (fun _ _ last notLua => last.lays_touching notLua spaces) args plain.toPlainWord
    plains fun _ => plain.notLua

theorem lays_opening (args : List Text) (plain : PlainDirective isPrint word)
    (plains : ∀ arg ∈ args, PlainWord isPrint arg) {gap : Text} (spaces : Spaces gap) :
    ∃ entries, Lays true (join [' '] ((word :: args).map (enquote isPrint)) ++ ' ' :: '{' :: gap)
      ((word :: args).map wordKey ++ [(['{'], false)]) entries :=
  lays_words
    (fun _ _ last notLua => last.lays_spaced notLua (.terminal false (Or.inl rfl) spaces))
    args plain.toPlainWord plains fun _ => plain.notLua

/-! ## What `build` writes -/

/-- Statements at a depth, each on a line of its own. -/
def blockText (isPrint : Char → Bool) (padding : Int) (stmts : List Stmt) (depth : Nat) : Text :=
  stmts.flatMap fun stmt =>
    '\n' :: margin padding depth ++ buildStmt isPrint padding stmt depth

theorem writable_directive {stmt : Stmt} (writable : Writable isPrint stmt) :
    PlainDirective isPrint stmt.directive := by
  rcases stmt with ⟨_, _, _, _, _, _, _ | body⟩
  · exact writable.1
  · exact writable.1

theorem PlainWord.lineText_eq {stmt : Stmt} (plain : PlainWord isPrint stmt.directive)
    (first : Bool) (depth lastLine : Nat) : lineText isPrint padding stmt first depth lastLine =
      (if first then [] else ['\n']) ++ margin padding depth ++
        buildStmt isPrint padding stmt depth :=
  if_neg fun both => plain.enquote_ne_hash both.1

theorem blockLines_eq (padding : Int) {stmts : List Stmt} (writable : AllWritable isPrint stmts)
    (depth lastLine : Nat) :
    blockLines isPrint padding stmts depth lastLine = blockText isPrint padding stmts depth := by
  induction stmts generalizing lastLine with
  | nil => rfl
  | cons stmt rest ih =>
    rw [blockLines, (writable_directive writable.1).lineText_eq, ih writable.2]
    simp [blockText]

theorem buildHead_eq (plain : PlainDirective isPrint word) (args : List Text) :
    buildHead isPrint (enquote isPrint word) args =
      join [' '] ((word :: args).map (enquote isPrint)) := by
  rw [buildHead, if_neg plain.enquote_ne_if]
  cases args with
  | nil => rfl
  | cons arg args => simp [join]

theorem buildStmt_simple (padding : Int) {args : List Text} {filename comment : Text}
    {line depth : Nat} {includes : List Nat} (plain : PlainDirective isPrint word) :
    buildStmt isPrint padding ⟨word, filename, line, args, comment, includes, none⟩ depth =
      join [' '] ((word :: args).map (enquote isPrint)) ++ [';'] := by
  rw [buildStmt, if_neg plain.enquote_ne_hash, if_neg (by simpa using plain.enquote_notLua),
    buildHead_eq plain]

theorem buildStmt_block {args : List Text} {filename comment : Text} {line depth : Nat}
    {includes : List Nat} {body : List Stmt} (plain : PlainDirective isPrint word) :
    buildStmt isPrint padding ⟨word, filename, line, args, comment, includes, some body⟩ depth =
      join [' '] ((word :: args).map (enquote isPrint)) ++ " \x7b".toList ++
        blockLines isPrint padding body (depth + 1) line ++
        '\n' :: margin padding depth ++ ['}'] := by
  rw [buildStmt, if_neg plain.enquote_ne_hash, if_neg (by simpa using plain.enquote_notLua),
    buildHead_eq plain, buildBlock_lines _ _ _ (by simp)]

theorem margin_spaces (padding : Int) (depth : Nat) : Spaces ('\n' :: margin padding depth) := by
  refine List.forall_mem_cons.mpr ⟨by decide, fun c mem => ?_⟩
  rw [List.eq_of_mem_replicate mem]
  decide

/-- The statements written at a depth are a layout behind some whitespace, whatever whitespace
follows them. -/
def Laid (isPrint : Char → Bool) (padding : Int) (stmts : List Stmt) : Prop :=
  ∀ depth trail, Spaces trail → ∃ lead text entries, Spaces lead ∧
    blockText isPrint padding stmts depth ++ trail = lead ++ text ∧
    Lays true text (keys stmts) entries

/-- A block, given the layout of what is written in it: the margin before the closing brace is
the whitespace after the last inner statement. -/
theorem lays_block (plain : PlainDirective isPrint word) {args : List Text}
    (plains : ∀ arg ∈ args, PlainWord isPrint arg) {filename comment : Text} {line depth : Nat}
    {includes : List Nat} {body : List Stmt} {lead gap : Text} (leadSpaces : Spaces lead)
    (same : blockLines isPrint padding body (depth + 1) line ++ '\n' :: margin padding depth =
      lead ++ text) (within : Lays true text expected entries) (spaces : Spaces gap) :
    ∃ entries, Lays true
      (buildStmt isPrint padding ⟨word, filename, line, args, comment, includes, some body⟩ depth ++
        gap)
      (((word :: args).map wordKey ++ [(['{'], false)]) ++ (expected ++ [(['}'], false)]))
      entries := by
  obtain ⟨_, opening⟩ := lays_opening args plain plains leadSpaces
  have closing := Lays.terminal true (Or.inr (Or.inl rfl)) spaces
  have text_eq : join [' '] ((word :: args).map (enquote isPrint)) ++ " \x7b".toList ++
        blockLines isPrint padding body (depth + 1) line ++ '\n' :: margin padding depth ++ ['}'] ++
        gap =
      (join [' '] ((word :: args).map (enquote isPrint)) ++ ' ' :: '{' :: lead) ++
        (text ++ '}' :: gap) := by
    rw [List.append_assoc _ (blockLines _ _ _ _ _), same]
    simp
  rw [buildStmt_block plain, text_eq]
  exact ⟨_, opening.append (within.append closing)⟩

theorem lays_stmt {stmt : Stmt} (writable : Writable isPrint stmt)
    (inner : ∀ body, stmt.blocks = some body → AllWritable isPrint body →
      Laid isPrint padding body) (depth : Nat) {gap : Text} (spaces : Spaces gap) :
    ∃ entries, Lays true (buildStmt isPrint padding stmt depth ++ gap) (stmtKeys stmt)
      entries := by
  rcases stmt with ⟨directive, filename, line, args, comment, includes, _ | body⟩
  · obtain ⟨plain, plains⟩ := writable
    rw [buildStmt_simple padding plain, List.append_assoc]
    exact lays_simple args plain plains spaces
  · obtain ⟨plain, plains, writableBody⟩ := writable
    obtain ⟨lead, text, entries, leadSpaces, same, within⟩ :=
      inner body rfl writableBody (depth + 1) _ (margin_spaces padding depth)
    rw [← blockLines_eq padding writableBody _ line] at same
    exact lays_block plain plains leadSpaces same within spaces

theorem laid (padding : Int) (stmts : List Stmt) (writable : AllWritable isPrint stmts) :
    Laid isPrint padding stmts := by
  induction stmts using Stmt.forest_induction with
  | nil => exact fun _ trail spaces => ⟨trail, [], [], spaces, by simp [blockText], .nil⟩
  | cons stmt rest inner ih =>
    intro depth trail spaces
    obtain ⟨lead, text, entries, leadSpaces, same, tail⟩ := ih writable.2 depth trail spaces
    obtain ⟨_, first⟩ := lays_stmt writable.1 inner depth leadSpaces
    refine ⟨'\n' :: margin padding depth, _, _, margin_spaces padding depth, ?_,
      first.append tail⟩
    rw [List.append_assoc, ← same]
    simp [blockText]

theorem lays_build (indent : Int) {stmts : List Stmt} (writable : AllWritable isPrint stmts) :
    ∃ entries, Lays true (build isPrint stmts indent false) (keys stmts) entries := by
  cases stmts with
  | nil => exact ⟨[], .nil⟩
  | cons stmt rest =>
    obtain ⟨lead, text, _, leadSpaces, same, tail⟩ := laid indent rest writable.2 0 [] nofun
    obtain ⟨_, first⟩ :=
      lays_stmt writable.1 (fun body _ inner => laid indent body inner) 0 leadSpaces
    have built : build isPrint (stmt :: rest) indent false =
        buildStmt isPrint indent stmt 0 ++ lead ++ text := by
      have noMargin : margin indent 0 = [] := by simp [margin]
      rw [List.append_nil] at same
      rw [build_lines, (writable_directive writable.1).lineText_eq,
        blockLines_eq indent writable.2, same, noMargin]
      simp
    rw [built]
    exact ⟨_, first.append tail⟩

/-! ## What the tokens derive -/

theorem PlainWord.isWord (plain : PlainWord isPrint word) {token : Token}
    (key : tokenKey token = wordKey word) :
    token.quote = true ∨ (checkTerminal token.text = false ∧ token.text.head? ≠ some '#') := by
  obtain ⟨text, quote⟩ := Prod.mk.inj key
  rw [text, quote]
  cases quoted : needsQuote word with
  | true => exact Or.inl rfl
  | false =>
    refine Or.inr ⟨?_, plain.bare_noHash quoted⟩
    obtain ⟨-, stops⟩ := needsQuote_false quoted
    rw [Bool.eq_false_iff]
    intro terminal
    have cases : (word = ['{'] ∨ word = [';']) ∨ word = ['}'] := by
      simpa [checkTerminal] using terminal
    rcases cases with (rfl | rfl) | rfl <;> exact absurd (stops _ List.mem_cons_self) (by decide)

theorem exists_words {args : List Text} (plains : ∀ arg ∈ args, PlainWord isPrint arg)
    {tokens : List Token} (same : tokens.map tokenKey = args.map wordKey) :
    ∃ words : List WordToken, (words.map Arg.word).map Arg.token = tokens ∧
      words.map (·.val.text) = args := by
  induction args generalizing tokens with
  | nil => exact ⟨[], by simpa using same, rfl⟩
  | cons arg args ih =>
    obtain ⟨plain, plainArgs⟩ := List.forall_mem_cons.mp plains
    obtain ⟨token, tokens, rfl, key, keysRest⟩ := List.map_eq_cons_iff.mp same
    obtain ⟨words, rfl, texts⟩ := ih plainArgs keysRest
    exact ⟨⟨token, plain.isWord key⟩ :: words, rfl,
      by rw [List.map_cons, texts, (Prod.mk.inj key).1]⟩

/-- Tokens that start with the keys of a statement's words. -/
theorem exists_head {args : List Text} {after : List (Text × Bool)} {tokens : List Token}
    (plain : PlainWord isPrint word) (plains : ∀ arg ∈ args, PlainWord isPrint arg)
    (same : tokens.map tokenKey = (word :: args).map wordKey ++ after) :
    ∃ (directive : WordToken) (words : List WordToken) (tail : List Token),
      tokens = directive.val :: ((words.map Arg.word).map Arg.token ++ tail) ∧
      directive.val.text = word ∧ words.map (·.val.text) = args ∧ tail.map tokenKey = after := by
  obtain ⟨front, tail, rfl, frontKeys, tailKeys⟩ := List.map_eq_append_iff.mp same
  obtain ⟨token, argTokens, rfl, key, argKeys⟩ := List.map_eq_cons_iff.mp frontKeys
  obtain ⟨words, rfl, texts⟩ := exists_words plains argKeys
  exact ⟨⟨token, plain.isWord key⟩, words, tail, rfl, (Prod.mk.inj key).1, texts, tailKeys⟩

theorem token_of_key {token : Token} {text : Text} (key : tokenKey token = (text, false)) :
    ∃ line, token = ⟨text, line, false⟩ := by
  obtain ⟨same, quote⟩ := Prod.mk.inj key
  exact ⟨token.line, by rw [← same, ← quote]⟩

theorem stmtOf_words (filename : Text) {directive : WordToken} (words : List WordToken)
    (blocks : Option (List Stmt)) (notIf : directive.val.text ≠ "if".toList) :
    stmtOf filename directive (words.map Arg.word) blocks =
      ⟨directive.val.text, filename, directive.val.line, words.map (·.val.text), [], [],
        blocks⟩ := by
  have texts : (words.map Arg.word).filterMap Arg.text? = words.map (·.val.text) := by
    simp [List.filterMap_map, Function.comp_def, Arg.text?]
  rw [stmtOf, if_neg notIf, texts]

theorem commentsOf_words (line : Nat) (words : List WordToken) :
    commentsOf line (words.map Arg.word) = [] := by
  simp [commentsOf, List.filterMap_map, Function.comp_def, Arg.comment?]

/-- Tokens with the keys of a simple statement, and of a block. -/
theorem exists_simple {args : List Text} {tokens : List Token} (plain : PlainWord isPrint word)
    (plains : ∀ arg ∈ args, PlainWord isPrint arg)
    (same : tokens.map tokenKey = (word :: args).map wordKey ++ [([';'], false)]) :
    ∃ (directive : WordToken) (words : List WordToken) (line : Nat),
      tokens = (Node.simple directive (words.map .word) line).tokens ∧
      directive.val.text = word ∧ words.map (·.val.text) = args := by
  obtain ⟨directive, words, tail, rfl, named, texts, tailKeys⟩ := exists_head plain plains same
  obtain ⟨semi, rfl, semiKey⟩ := List.map_eq_singleton_iff.mp tailKeys
  obtain ⟨line, rfl⟩ := token_of_key semiKey
  exact ⟨directive, words, line, rfl, named, texts⟩

theorem exists_block {args : List Text} {tokens : List Token} (plain : PlainWord isPrint word)
    (plains : ∀ arg ∈ args, PlainWord isPrint arg)
    (same : tokens.map tokenKey =
      ((word :: args).map wordKey ++ [(['{'], false)]) ++ (expected ++ [(['}'], false)])) :
    ∃ (directive : WordToken) (words : List WordToken) (openLine closeLine : Nat)
      (body : List Token), (∀ nodes, flatten nodes = body →
        tokens = (Node.block directive (words.map .word) openLine nodes closeLine).tokens) ∧
      body.map tokenKey = expected ∧
      directive.val.text = word ∧ words.map (·.val.text) = args := by
  rw [List.append_assoc, List.singleton_append] at same
  obtain ⟨directive, words, tail, rfl, named, texts, tailKeys⟩ := exists_head plain plains same
  obtain ⟨opening, tail, rfl, openKey, innerKeys⟩ := List.map_eq_cons_iff.mp tailKeys
  obtain ⟨body, ending, rfl, bodyKeys, endKeys⟩ := List.map_eq_append_iff.mp innerKeys
  obtain ⟨closing, rfl, closeKey⟩ := List.map_eq_singleton_iff.mp endKeys
  obtain ⟨openLine, rfl⟩ := token_of_key openKey
  obtain ⟨closeLine, rfl⟩ := token_of_key closeKey
  refine ⟨directive, words, openLine, closeLine, body, ?_, bodyKeys, named, texts⟩
  rintro nodes rfl
  rfl

/-- Tokens with the keys of a writable forest derive a forest of the same outline. -/
theorem exists_nodes (filename : Text) (comments : Bool) (stmts : List Stmt)
    (writable : AllWritable isPrint stmts) :
    ∀ tokens, tokens.map tokenKey = keys stmts → ∃ nodes, flatten nodes = tokens ∧
      outline (written filename comments nodes) = outline stmts := by
  induction stmts using Stmt.forest_induction with
  | nil =>
    intro tokens same
    exact ⟨[], (List.map_eq_nil_iff.mp same).symm, rfl⟩
  | cons stmt rest inner ih =>
    intro tokens same
    obtain ⟨front, back, rfl, frontKeys, backKeys⟩ := List.map_eq_append_iff.mp same
    obtain ⟨nodes, rfl, restOutline⟩ := ih writable.2 back backKeys
    have first := writable.1
    rcases stmt with ⟨name, _, _, args, _, _, _ | body⟩
    · obtain ⟨plain, plains⟩ := first
      obtain ⟨directive, words, line, rfl, rfl, rfl⟩ :=
        exists_simple plain.toPlainWord plains frontKeys
      refine ⟨.simple directive (words.map .word) line :: nodes, by rw [flatten], ?_⟩
      simp [written, Node.stmts, outline, stmtOf_words filename words none plain.notIf,
        commentsOf_words, outlineStmt, restOutline]
    · obtain ⟨plain, plains, writableBody⟩ := first
      obtain ⟨directive, words, openLine, closeLine, bodyTokens, tokens_eq, bodyKeys, rfl, rfl⟩ :=
        exists_block plain.toPlainWord plains frontKeys
      obtain ⟨bodyNodes, derived, bodyOutline⟩ := inner body rfl writableBody bodyTokens bodyKeys
      refine ⟨.block directive (words.map .word) openLine bodyNodes closeLine :: nodes,
        by rw [flatten, tokens_eq bodyNodes derived], ?_⟩
      simp [written, Node.stmts, outline, stmtOf_words filename words _ plain.notIf,
        commentsOf_words, outlineStmt, bodyOutline, restOutline]

/-! ## The round trip -/

theorem luaFree_of_true {entries : Layout} (free : LuaFree true entries) : LuaFree d entries := by
  induction entries with
  | nil => trivial
  | cons e entries ih =>
    obtain ⟨lexeme, gap⟩ := e
    cases lexeme with
    | terminal ch isTerminal => exact free
    | comment body oneLine => exact ih free
    | quoted q => exact ⟨fun _ => free.1 rfl, free.2⟩
    | word w =>
      rw [LuaFree] at free ⊢
      split
      · rename_i touching
        rw [if_pos touching] at free
        exact ih free
      · rename_i spaced
        rw [if_neg spaced] at free
        exact ⟨fun _ => free.1 rfl, free.2⟩

theorem lex_build (indent : Int) {stmts : List Stmt} (writable : AllWritable isPrint stmts) :
    ∃ tokens, Returns (build isPrint stmts indent false) none tokens ∧
      tokens.map tokenKey = keys stmts := by
  obtain ⟨entries, lays⟩ := lays_build indent writable
  have free : LuaFree false entries := by
    simpa using luaFree_of_true (lays.luaFree [] trivial)
  have lexed := lex_luaFree (show Spaces [] from nofun) lays.gaps lays.separated free
  rwa [List.nil_append, lays.text_eq, lays.keys_eq] at lexed

theorem balanceBraces_flatten (nodes : List Node) (filename : Text) :
    balanceBraces (flatten nodes) filename = none := by
  have balanced : Balanced 0 (flatten nodes ++ []) := (balanced_flatten nodes le_rfl).mpr le_rfl
  rw [List.append_nil] at balanced
  exact balanceLoop_none_iff.mpr balanced

/-- A written configuration is read back as it was: lexing ends without an error, parsing the
tokens consumes them all, and the statements have the directives, arguments and blocks they were
built from. -/
theorem build_lex_parse (isPrint : Char → Bool) (stmts : List Stmt)
    (writable : AllWritable isPrint stmts) (indent : Int) (filename : Text) (env : ParseEnv)
    (quiet : Quiet env) (single : env.opts.single = true) (ctx : List Text) (st : Shared) :
    ∃ tokens, (∃ enough, ∀ fuel, enough ≤ fuel →
        lex fuel (build isPrint stmts indent false) filename = some (.ok tokens)) ∧
      ∃ parsed st', parseTokens env ctx tokens st = .ok (parsed, [], st') ∧
        outline parsed = outline stmts := by
  obtain ⟨tokens, returns, same⟩ := lex_build indent writable
  obtain ⟨nodes, rfl, outlines⟩ :=
    exists_nodes env.filename env.opts.comments stmts writable tokens same
  refine ⟨_, lex_of_returns returns (balanceBraces_flatten nodes filename), ?_⟩
  obtain ⟨parsed, st', parse, agrees⟩ :=
    parse_of_reads quiet (reads_forest single nodes) _ ctx st (Nat.lt_succ_self _)
  exact ⟨parsed, st', parse, by rw [agrees.single_eq single, outlines]⟩

private def asciiPrint (c : Char) : Bool := 32 ≤ c.toNat && c.toNat ≤ 126

private def builtForest : List Stmt :=
  [⟨"http".toList, [], 0, [], [], [],
    some [⟨"log_format".toList, [], 0, ["main".toList, "\"a\" #".toList, []], [], [], none⟩,
      ⟨"#quoted \x7b".toList, [], 0, ["$x".toList], [], [], some []⟩]⟩]

private theorem builtForest_writable : AllWritable asciiPrint builtForest :=
  ⟨⟨by decide +kernel, by decide, ⟨by decide +kernel, by decide +kernel⟩,
    ⟨by decide +kernel, by decide +kernel, trivial⟩, trivial⟩, trivial⟩

/-- A nested forest with an empty block and words that need quotes. -/
theorem build_lex_parse_sample :
    build asciiPrint builtForest 2 false =
      ("http \x7b\n  log_format main \"\\\"a\\\" #\" \"\";\n" ++
        "  \"#quoted \x7b\" $x \x7b\n  \x7d\n\x7d").toList ∧
    ∃ tokens, (∃ enough, ∀ fuel, enough ≤ fuel →
        lex fuel (build asciiPrint builtForest 2 false) "nginx.conf".toList =
          some (.ok tokens)) ∧
      ∃ parsed st', parseTokens ⟨fun format _ => format, ⟨.error, .error⟩,
          ⟨none, true, true, false, ⟨true, true, true⟩, []⟩, "nginx.conf".toList⟩ [] tokens
          ⟨DirectiveTable.directives, ⟨.ok, []⟩, none, [], []⟩ = .ok (parsed, [], st') ∧
        outline parsed = outline builtForest :=
  ⟨by decide +kernel, build_lex_parse asciiPrint builtForest builtForest_writable 2
    "nginx.conf".toList _ (fun _ => rfl) rfl [] _⟩

end BuildRoundTrip
