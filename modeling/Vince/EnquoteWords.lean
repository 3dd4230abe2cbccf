import Vince.ConfigBuild
import Vince.LexProgress

/-!
# Words as they are written and read back

`enquote` quotes by Go's rules, the lexer unquotes by nginx's: it only takes the backslash off an
escaped quote. What comes back from a quoted word is therefore given by `unread`, and `unread` is
the word itself only if nothing had to be escaped but quotes and runs of four backslashes. A word
written bare is read back unless it starts a comment or its last backslash escapes what follows.
-/

namespace EnquoteWords

open GoText ConfigLex ConfigBuild LexLayout LexTermination LexProgress Transitions
  StateTransition Relation

variable {isPrint : Char → Bool} {keys : List (Text × Bool)} {rest word : Text} {s : LexState}
  {sep : Char}

/-! ## Quoted words -/

/-- What the lexer makes of one quoted rune. -/
def unreadRune (isPrint : Char → Bool) (c : Char) : Text :=
  if c = '"' then ['"'] else quoteRune isPrint c

/-- What the lexer makes of a quoted word. -/
def unread (isPrint : Char → Bool) (word : Text) : Text :=
  (halveSlashes word).flatMap (unreadRune isPrint)

theorem hexDigits_mem {c : Char} {width n : Nat} (mem : c ∈ hexDigits width n) :
    c ≠ '"' ∧ c ≠ '\\' := by
  have digits : ∀ d < 16, ("0123456789abcdef".toList).getD d '0' ≠ '"' ∧
      ("0123456789abcdef".toList).getD d '0' ≠ '\\' := by decide
  induction width generalizing n with
  | zero => cases mem
  | succ width ih =>
    rw [hexDigits, List.mem_append, List.mem_singleton] at mem
    rcases mem with front | rfl
    · exact ih front
    · exact digits _ (Nat.mod_lt n (by decide))

/-- An escape of Go's: a backslash, a letter that is no quote, and digits. -/
theorem quoteRune_escape {c : Char} (noQuote : c ≠ '"') (noSlash : c ≠ '\\')
    (hidden : isPrint c = false) :
    ∃ letter digits, quoteRune isPrint c = '\\' :: letter :: digits ∧ letter ≠ '"' ∧
      ∀ digit ∈ digits, digit ≠ '"' ∧ digit ≠ '\\' := by
  have plain : ¬ (c = '"' ∨ c = '\\') := by simp [noQuote, noSlash]
  rw [quoteRune, if_neg plain, hidden]
  simp only [Bool.false_eq_true, if_false]
  split
  case h_8 =>
    split
    · exact ⟨'x', _, rfl, by decide, fun _ => hexDigits_mem⟩
    split
    · exact ⟨'u', _, rfl, by decide, fun _ => hexDigits_mem⟩
    · exact ⟨'U', _, rfl, by decide, fun _ => hexDigits_mem⟩
  all_goals exact ⟨_, [], rfl, by decide, nofun⟩

/-- Every quoted rune is a sequence of pieces, of which a quote loses its backslash. -/
theorem exists_runePieces (isPrint : Char → Bool) (c : Char) :
    ∃ pieces : List Piece, pieces.flatMap Piece.source = quoteRune isPrint c ∧
      pieces.flatMap (Piece.unquoted '"') = unreadRune isPrint c ∧
      ∀ x, Piece.plain x ∈ pieces → x ≠ '"' ∧ x ≠ '\\' := by
  by_cases quote : c = '"'
  · exact ⟨[.escaped '"'], by simp [quote, quoteRune, Piece.source],
      by simp [quote, unreadRune, Piece.unquoted], by simp⟩
  by_cases slash : c = '\\'
  · exact ⟨[.escaped '\\'], by simp [slash, quoteRune, Piece.source],
      by simp [slash, unreadRune, quoteRune, Piece.unquoted], by simp⟩
  cases shown : isPrint c with
  | true =>
    exact ⟨[.plain c], by simp [quoteRune, Piece.source, quote, slash, shown],
      by simp [unreadRune, quoteRune, Piece.unquoted, quote, slash, shown], by simp [quote, slash]⟩
  | false =>
    obtain ⟨letter, digits, same, other, clear⟩ := quoteRune_escape quote slash shown
    have source : (digits.map Piece.plain).flatMap Piece.source = digits := by
      simp [List.flatMap_map, Piece.source]
    have text : (digits.map Piece.plain).flatMap (Piece.unquoted '"') = digits := by
      simp [List.flatMap_map, Piece.unquoted]
    refine ⟨.escaped letter :: digits.map .plain, ?_, ?_, ?_⟩
    · simp [Piece.source, source, same]
    · simp [Piece.unquoted, other, text, unreadRune, quote, same]
    · intro x mem
      exact clear x (by simpa using mem)

theorem exists_pieces (isPrint : Char → Bool) (text : Text) :
    ∃ pieces : List Piece, pieces.flatMap Piece.source = text.flatMap (quoteRune isPrint) ∧
      pieces.flatMap (Piece.unquoted '"') = text.flatMap (unreadRune isPrint) ∧
      ∀ x, Piece.plain x ∈ pieces → x ≠ '"' ∧ x ≠ '\\' := by
  induction text with
  | nil => exact ⟨[], rfl, rfl, nofun⟩
  | cons c text ih =>
    obtain ⟨first, source, reads, clear⟩ := exists_runePieces isPrint c
    obtain ⟨others, source', reads', clear'⟩ := ih
    refine ⟨first ++ others, by simp [source, source'], by simp [reads, reads'], fun x mem => ?_⟩
    rcases List.mem_append.mp mem with mem | mem
    · exact clear x mem
    · exact clear' x mem

/-- A quoted word is one token, whatever it holds. -/
theorem exists_quoted (isPrint : Char → Bool) (quoted : needsQuote word = true) :
    ∃ q : Quoted, (Lexeme.quoted q).source = enquote isPrint word ∧
      q.text = unread isPrint word := by
  obtain ⟨pieces, source, reads, clear⟩ := exists_pieces isPrint (halveSlashes word)
  refine ⟨⟨'"', .inl rfl, pieces, clear⟩, ?_, reads⟩
  rw [enquote, if_pos quoted, quote, Lexeme.source, source]

/-- The backslashes of the word come in runs of a multiple of four. -/
def fourfold : Text → Bool
  | '\\' :: '\\' :: '\\' :: '\\' :: rest => fourfold rest
  | c :: rest => c ≠ '\\' && fourfold rest
  | [] => true

/-- Nothing in the word is escaped by Go but quotes and backslashes. -/
def shown (isPrint : Char → Bool) (word : Text) : Bool :=
  word.all fun c => c = '"' || c = '\\' || isPrint c

theorem unread_slashes (rest : Text) :
    unread isPrint ('\\' :: '\\' :: '\\' :: '\\' :: rest) =
      '\\' :: '\\' :: '\\' :: '\\' :: unread isPrint rest := by
  simp [unread, halveSlashes, unreadRune, quoteRune]

theorem unread_cons {c : Char} {rest : Text}
    (lone : ∀ rest', c :: rest = '\\' :: '\\' :: '\\' :: '\\' :: rest' → False) :
    unread isPrint (c :: rest) = unreadRune isPrint c ++ unread isPrint rest := by
  rw [unread, halveSlashes.eq_2 _ _ (fun rest' first others => lone rest' (by rw [first, others])),
    List.flatMap_cons, unread]

/-- A rune comes back as it was, or as more than one. -/
theorem unreadRune_cases (isPrint : Char → Bool) (c : Char) :
    (unreadRune isPrint c = [c] ∧ c ≠ '\\' ∧ (c = '"' ∨ isPrint c = true)) ∨
      (2 ≤ (unreadRune isPrint c).length ∧ (c = '\\' ∨ c ≠ '"' ∧ isPrint c = false)) := by
  by_cases quote : c = '"'
  · exact .inl ⟨by simp [unreadRune, quote], by simp [quote], .inl quote⟩
  by_cases slash : c = '\\'
  · exact .inr ⟨by simp [unreadRune, quoteRune, slash], .inl slash⟩
  cases printed : isPrint c with
  | true =>
    exact .inl ⟨by simp [unreadRune, quoteRune, quote, slash, printed], slash, .inr rfl⟩
  | false =>
    obtain ⟨letter, digits, same, -⟩ := quoteRune_escape quote slash printed
    exact .inr ⟨by simp [unreadRune, quote, same], .inr ⟨quote, rfl⟩⟩

theorem length_unread (isPrint : Char → Bool) (word : Text) :
    word.length ≤ (unread isPrint word).length := by
  fun_induction halveSlashes word with
  | case1 rest ih => simpa [unread_slashes] using ih
  | case2 c rest lone ih =>
    rw [unread_cons (by grind), List.length_append, List.length_cons]
    rcases unreadRune_cases isPrint c with ⟨same, -⟩ | ⟨longer, -⟩
    · rw [same, List.length_singleton]
      omega
    · omega
  | case3 => exact Nat.le_refl _

theorem unread_eq_iff (isPrint : Char → Bool) (word : Text) :
    unread isPrint word = word ↔ shown isPrint word = true ∧ fourfold word = true := by
  fun_induction halveSlashes word with
  | case1 rest ih => simpa [unread_slashes, shown, fourfold] using ih
  | case2 c rest lone ih =>
    rw [unread_cons (by grind), fourfold.eq_2 _ _ lone]
    rcases unreadRune_cases isPrint c with ⟨same, noSlash, seen⟩ | ⟨longer, hidden⟩
    · rw [same, List.singleton_append, List.cons_inj_right, ih]
      simp [shown, noSlash, seen]
    · constructor
      · intro same
        have grown := congrArg List.length same
        have others := length_unread isPrint rest
        rw [List.length_append, List.length_cons] at grown
        omega
      · rintro ⟨printed, slashes⟩
        rcases hidden with slash | ⟨noQuote, unseen⟩
        · simp [slash] at slashes
        · simp only [shown, List.all_cons, noQuote, unseen] at printed
          simp_all
  | case3 => simp [unread, halveSlashes, shown, fourfold]

theorem fourfold_plain (noSlash : '\\' ∉ word) : fourfold word = true := by
  induction word with
  | nil => rfl
  | cons c rest ih =>
    rw [List.mem_cons, not_or] at noSlash
    have other : c ≠ '\\' := fun same => noSlash.1 same.symm
    rw [fourfold.eq_2 _ _ (by simp [other]), ih noSlash.2]
    simp [other]

/-! ## Bare words -/

/-- The word ends in a backslash that is not itself escaped. -/
def escapesNext : Text → Bool
  | [] => false
  | ['\\'] => true
  | '\\' :: _ :: rest => escapesNext rest
  | _ :: rest => escapesNext rest

/-- The pieces of a bare word, without a last backslash that escapes what follows. -/
def wordPieces : Text → List Piece
  | [] => []
  | ['\\'] => []
  | '\\' :: c :: rest => .escaped c :: wordPieces rest
  | c :: rest => .plain c :: wordPieces rest

theorem wordPieces_source (word : Text) :
    (wordPieces word).flatMap Piece.source ++ (if escapesNext word then ['\\'] else []) = word := by
  fun_induction wordPieces word with
  | case1 => rfl
  | case2 => rfl
  | case3 c rest ih => simpa [Piece.source, escapesNext] using ih
  | case4 c rest single pair ih =>
    rw [escapesNext.eq_4 _ _ single pair]
    simpa [Piece.source] using ih

theorem mem_wordPieces {c : Char} {word : Text} (mem : Piece.plain c ∈ wordPieces word) :
    c ∈ word ∧ c ≠ '\\' := by
  fun_induction wordPieces word with
  | case1 => cases mem
  | case2 => cases mem
  | case3 x rest ih =>
    obtain ⟨later, noSlash⟩ := ih (by simpa using mem)
    exact ⟨by simp [later], noSlash⟩
  | case4 x rest single pair ih =>
    rcases List.mem_cons.mp mem with first | later
    · cases first
      refine ⟨List.mem_cons_self, ?_⟩
      rintro rfl
      cases rest with
      | nil => exact single rfl rfl
      | cons y rest => exact pair y rest rfl rfl
    · obtain ⟨later, noSlash⟩ := ih later
      exact ⟨List.mem_cons_of_mem _ later, noSlash⟩

theorem wordPieces_head {c : Char} {word : Text}
    (first : (wordPieces word).head? = some (.plain c)) : word.head? = some c := by
  fun_cases wordPieces word <;> simp_all [wordPieces]

theorem wordChar_of_bare {c : Char} (bare : check01 c = false) (noSlash : c ≠ '\\') :
    wordChar c = true := by
  simp only [check01, Bool.or_eq_false_iff, decide_eq_false_iff_not] at bare
  rw [wordChar_iff]
  tauto

/-! ## What becomes of the word -/

/-- The tokens of what follows the word. -/
def separator (sep : Char) : List (Text × Bool) := if sep = ';' then [([';'], false)] else []

/-- The lexer, in front of the word, reads it as one token that is no comment and goes on with
what follows. -/
def ReadBack (keys : List (Text × Bool)) (word : Text) (sep : Char) (rest : Text)
    (s : LexState) : Prop :=
  ∃ quoted, ¬ (quoted = false ∧ word.head? = some '#') ∧
    Leads step s (At (sep = ';') (keys ++ (word, quoted) :: separator sep) [] rest)

theorem at_separator (follows : sep = ' ' ∨ sep = ';') (at_ : At false keys word (sep :: rest) s) :
    Leads step s (At (sep = ';') (keys ++ pendingKey word ++ separator sep) [] rest) := by
  rcases follows with rfl | rfl
  · have space : Spaces [' '] := by simp [Spaces, show isSpace ' ' = true by decide]
    by_cases empty : word = []
    · subst empty
      simpa [pendingKey, separator] using at_gap space at_
    · simpa [pendingKey, separator, empty] using at_word_gap empty (by simp) space (by simp) at_
  · simpa [pendingKey, separator] using at_terminal (.inr (.inr rfl)) (by simp) at_

/-- Had the lexer come to what follows without a token, the word would be lost. -/
theorem not_readBack (lexing : Lexing s)
    (lost : Leads step s fun t => t.iter.input = rest ∧ t.lexer.tokens.map tokenKey = keys) :
    ¬ ReadBack keys word sep rest s := by
  rintro ⟨quoted, -, t, path, at_⟩
  obtain ⟨u, path', input, tokens⟩ := lost
  have same := tokens_determined lexing path path' (at_.remaining.trans input.symm)
  have grown := at_.written
  rw [same, tokens] at grown
  simp at grown

theorem readBack_quoted (quoted : needsQuote word = true) (follows : sep = ' ' ∨ sep = ';')
    (at_ : At false keys [] (enquote isPrint word ++ sep :: rest) s) :
    ReadBack keys word sep rest s ↔ unread isPrint word = word := by
  obtain ⟨q, source, reads⟩ := exists_quoted isPrint quoted
  have read : Leads step s
      (At (sep = ';') (keys ++ (unread isPrint word, true) :: separator sep) [] rest) := by
    rw [← source] at at_
    refine (at_quoted q (by simp) at_).trans fun t at_ => ?_
    simpa [pendingKey, reads] using at_separator follows at_
  constructor
  · rintro ⟨flag, -, t, path, back⟩
    obtain ⟨u, path', there⟩ := read
    have same := tokens_determined (at_lexing at_) path path'
      (back.remaining.trans there.remaining.symm)
    have tokens := back.written
    rw [same, there.written, List.append_cancel_left_eq, List.cons.injEq, Prod.mk.injEq] at tokens
    exact tokens.1.1
  · intro same
    rw [same] at read
    exact ⟨true, by simp, read⟩

theorem comment_open (lx : Lexer) {body : Text} {n start : Nat} (oneLine : '\n' ∉ body) :
    Leads step ⟨lx, ⟨body ++ rest, n⟩, .comment start⟩
      fun t => t.iter.input = rest ∧ t.lexer.tokens = lx.tokens ∧ t.point = .comment start := by
  induction body generalizing lx n with
  | nil => exact .here ⟨rfl, rfl, rfl⟩
  | cons c body ih =>
    rw [List.mem_cons, not_or] at oneLine
    have other : c ≠ '\n' := fun same => oneLine.1 same.symm
    apply Leads.next (step_read (by simp))
    simpa [proceed, other, Lexer.push] using ih (lx.push c) oneLine.2

theorem readBack_bare (bare : needsQuote word = false) (follows : sep = ' ' ∨ sep = ';')
    (at_ : At false keys [] (word ++ sep :: rest) s) :
    ReadBack keys word sep rest s ↔ word.head? ≠ some '#' ∧ escapesNext word = false := by
  obtain ⟨nonempty, clear⟩ := needsQuote_false bare
  have chars : ∀ c, Piece.plain c ∈ wordPieces word → wordChar c = true := by
    intro c mem
    obtain ⟨inWord, noSlash⟩ := mem_wordPieces mem
    exact wordChar_of_bare (clear c inWord) noSlash
  by_cases hash : word.head? = some '#'
  · -- the word opens a comment, which takes what follows with it
    obtain ⟨tail, rfl⟩ : ∃ tail, word = '#' :: tail := by
      cases word <;> simp_all
    refine ⟨fun back => absurd back (not_readBack (at_lexing at_) ?_),
      fun both => absurd hash both.1⟩
    have oneLine : '\n' ∉ tail ++ [sep] := by
      intro mem
      rcases List.mem_append.mp mem with inTail | last
      · exact absurd (clear '\n' (List.mem_cons_of_mem _ inTail)) (by decide)
      · rcases follows with rfl | rfl <;> simp at last
    obtain ⟨tokens, line, n, rfl, edge⟩ := step_dispatch (by decide) at_
    apply Leads.next edge
    have run : Leads step ⟨⟨['#'], tokens, line, false⟩, ⟨tail ++ [sep] ++ rest, n⟩, .comment n⟩
        fun t => t.iter.input = rest ∧ t.lexer.tokens = tokens ∧ t.point = .comment n :=
      comment_open _ oneLine
    rw [List.append_assoc] at run
    exact run.trans fun t read => .here ⟨read.1, by rw [read.2.1]⟩
  · have first : ∀ c, (wordPieces word).head? = some (.plain c) → c ≠ '#' ∧ c ≠ '"' ∧ c ≠ '\'' := by
      intro c head
      have same := wordPieces_head head
      have plain := clear c (List.mem_of_mem_head? same)
      simp only [check01, Bool.or_eq_false_iff, decide_eq_false_iff_not] at plain
      exact ⟨fun is => hash (is ▸ same), plain.1.2, plain.2⟩
    have source := wordPieces_source word
    cases dangles : escapesNext word with
    | true =>
      -- the last backslash escapes what follows, which joins the word
      refine ⟨fun back => absurd back (not_readBack (at_lexing at_) ?_),
        fun both => by simp at both⟩
      rw [dangles, if_pos rfl] at source
      rw [← source, List.append_assoc] at at_
      refine (at_pieces chars (fun _ => first) at_).trans fun t at_ => ?_
      have pair : At false keys (wordPieces word |>.flatMap Piece.source)
          ((Piece.escaped sep).source ++ rest) t := at_
      refine (at_piece (by simp) (by simp) pair).trans fun t at_ => ?_
      exact .here ⟨at_.remaining, at_.written⟩
    | false =>
      refine ⟨fun _ => ⟨hash, rfl⟩, fun _ => ⟨false, by simp [hash], ?_⟩⟩
      simp only [dangles, Bool.false_eq_true, if_false, List.append_nil] at source
      have read := at_pieces chars (fun _ => first) (by rwa [source])
      rw [source, List.nil_append] at read
      refine read.trans fun t at_ => ?_
      simpa [pendingKey, nonempty] using at_separator follows at_

/-- A word written by `enquote` comes back if what had to be quoted holds nothing Go escapes but
quotes and fourfold backslashes, and what was left bare neither starts a comment nor ends in a
backslash that escapes what follows. -/
def Faithful (isPrint : Char → Bool) (word : Text) : Prop :=
  if needsQuote word then shown isPrint word = true ∧ fourfold word = true
  else word.head? ≠ some '#' ∧ escapesNext word = false

theorem enquote_readBack_iff (isPrint : Char → Bool) (keys : List (Text × Bool)) (word : Text)
    (sep : Char) (rest : Text) (s : LexState) (follows : sep = ' ' ∨ sep = ';')
    (at_ : At false keys [] (enquote isPrint word ++ sep :: rest) s) :
    ReadBack keys word sep rest s ↔ Faithful isPrint word := by
  cases quoted : needsQuote word with
  | true =>
    rw [readBack_quoted quoted follows at_, unread_eq_iff, Faithful, if_pos quoted]
  | false =>
    have bare : enquote isPrint word = word := by simp [enquote, quoted]
    rw [bare] at at_
    rw [readBack_bare quoted follows at_, Faithful, if_neg (by simp [quoted])]

/-- `a b`, written behind `user `. -/
theorem enquote_readBack_sample :
    At false [("user".toList, false)] []
        (enquote (fun _ => true) "a b".toList ++ ";".toList)
        (run step 5 (start "user \"a b\";".toList)) ∧
      ReadBack [("user".toList, false)] "a b".toList ';' []
        (run step 5 (start "user \"a b\";".toList)) :=
  have behind : At false [("user".toList, false)] []
      (enquote (fun _ => true) "a b".toList ++ [';'])
      (run step 5 (start "user \"a b\";".toList)) := ⟨rfl, rfl, rfl, rfl, .inr ⟨rfl, rfl⟩⟩
  ⟨behind, (enquote_readBack_iff (fun _ => true) _ "a b".toList ';' [] _ (.inr rfl) behind).mpr
    (by rw [Faithful, if_pos (by decide)]; exact ⟨by decide, by decide⟩)⟩

/-- `#a` is left bare and becomes a comment. -/
theorem hash_word_lost :
    ¬ ∀ (isPrint : Char → Bool) (keys : List (Text × Bool)) (word : Text) (sep : Char)
      (rest : Text) (s : LexState), sep = ' ' ∨ sep = ';' →
      At false keys [] (enquote isPrint word ++ sep :: rest) s → ReadBack keys word sep rest s := by
  intro faithful
  have behind : At false [("user".toList, false)] [] "#a;".toList
      (run step 5 (start "user #a;".toList)) := ⟨rfl, rfl, rfl, rfl, .inr ⟨rfl, rfl⟩⟩
  have bare : needsQuote "#a".toList = false := by decide
  have back := faithful (fun _ => true) _ "#a".toList ';' [] _ (.inr rfl) behind
  exact ((readBack_bare bare (.inr rfl) behind).mp back).1 rfl

end EnquoteWords
