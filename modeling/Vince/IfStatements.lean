import Vince.BuildRoundTrip
import Vince.LexProgress

/-!
# `if` statements

`prepareIfArgs` takes the parentheses off a condition. `buildBlock` is to put them on again, but
writes ` if` and the first argument without anything between them, so that wherever an `if`
statement stands in a configuration, what is written is read back as another statement.
-/

namespace IfStatements

open GoText ConfigLex ConfigAnalyze ConfigParse ConfigBuild LexLayout LexProgress ParseReads
  ParseForest BuildRoundTrip Transitions StateTransition

/-! ## Taking the parentheses off -/

/-- The words of a condition with its opening parenthesis, as a word of its own or not. -/
def opened (apart : Bool) (words : List Text) : List Text :=
  if apart then ['('] :: words else words.modifyHead ('(' :: ·)

def closed (apart : Bool) (words : List Text) : List Text :=
  if apart then words ++ [[')']] else words.dropLast ++ (words.getLast?.map (· ++ [')'])).toList

def parenthesized (openApart closeApart : Bool) (words : List Text) : List Text :=
  closed closeApart (opened openApart words)

theorem length_trimLeft (c : Char) (s : Text) : (trimLeft c s).length ≤ s.length :=
  (List.dropWhile_sublist _).length_le

theorem length_trimRight (c : Char) (s : Text) : (trimRight c s).length ≤ s.length := by
  have shorter := length_trimLeft c s.reverse
  rw [List.length_reverse] at shorter
  rwa [trimRight, List.length_reverse]

theorem trimLeft_eq_iff {c : Char} {s : Text} : trimLeft c s = s ↔ s.head? ≠ some c := by
  cases s with
  | nil => simp [trimLeft]
  | cons first rest =>
    by_cases same : first = c
    · have trimmed : trimLeft c (first :: rest) = trimLeft c rest := by simp [trimLeft, same]
      have shorter := length_trimLeft c rest
      rw [trimmed]
      refine iff_of_false (fun whole => ?_) (by simp [same])
      have grown := congrArg List.length whole
      simp only [List.length_cons] at grown
      omega
    · simp [trimLeft, same]

theorem trimRight_eq_iff {c : Char} {s : Text} : trimRight c s = s ↔ s.getLast? ≠ some c := by
  rw [← List.head?_reverse, ← trimLeft_eq_iff]
  exact List.reverse_eq_iff

/-- Words that lose characters, and then the empty ones among them, are the old ones only if no
character was lost. -/
theorem filter_eq_iff {trimmed words : List Text} (same : trimmed.length = words.length) :
    trimmed.filter (· ≠ []) = words ↔ trimmed = words ∧ ∀ word ∈ words, word ≠ [] := by
  constructor
  · intro kept
    have all : ∀ word ∈ trimmed, word ≠ [] := by
      have count := congrArg List.length kept
      rw [← same, List.length_filter_eq_length_iff] at count
      simpa using count
    have whole : trimmed = words := by
      rw [← kept, List.filter_eq_self.mpr (by simpa using all)]
    exact ⟨whole, whole ▸ all⟩
  · rintro ⟨rfl, all⟩
    exact List.filter_eq_self.mpr (by simpa using all)

theorem trimLeft_close (word : Text) :
    trimLeft '(' (word ++ [')']) = trimLeft '(' word ++ [')'] := by
  induction word with
  | nil => rfl
  | cons c word ih =>
    by_cases same : c = '('
    · simpa [trimLeft, same] using ih
    · simp [trimLeft, same]

theorem trimRight_close (word : Text) : trimRight ')' (word ++ [')']) = trimRight ')' word := by
  simp [trimRight]

/-- A condition in parentheses of one word, and of several. -/
theorem prepareIfArgs_one (word : Text) :
    prepareIfArgs ['(' :: (word ++ [')'])] =
      [trimRight ')' (trimLeft '(' word)].filter (· ≠ []) := by
  have last : ('(' :: word ++ [')']).getLast? = some ')' := List.getLast?_concat
  rw [List.cons_append] at last
  have head : trimLeft '(' ('(' :: (word ++ [')'])) = trimLeft '(' word ++ [')'] :=
    trimLeft_close word
  simp [prepareIfArgs, last, head, trimRight_close]

theorem prepareIfArgs_many (first last : Text) (middle : List Text) :
    prepareIfArgs (('(' :: first) :: (middle ++ [last ++ [')']])) =
      (trimLeft '(' first :: (middle ++ [trimRight ')' last])).filter (· ≠ []) := by
  have head : trimLeft '(' ('(' :: first) = trimLeft '(' first := rfl
  have ends (word : Text) : (word :: middle ++ [last ++ [')']]).getLast? = some (last ++ [')']) :=
    List.getLast?_concat
  have front (word : Text) : (word :: middle ++ [last ++ [')']]).dropLast = word :: middle :=
    List.dropLast_concat
  simp only [List.cons_append] at ends front
  simp only [prepareIfArgs, List.head?_cons, ends, List.getLast?_concat, and_self, if_true,
    List.modifyHead_cons, head, front, Option.map_some, Option.toList_some, trimRight_close,
    List.cons_append]

/-- What the function does to the first and to the last word of the condition itself. -/
def trimOpen (apart : Bool) (word : Text) : Text := if apart then word else trimLeft '(' word

def trimClose (apart : Bool) (word : Text) : Text := if apart then word else trimRight ')' word

theorem prepare_single (openApart closeApart : Bool) (word : Text) :
    prepareIfArgs (parenthesized openApart closeApart [word]) =
      [trimClose closeApart (trimOpen openApart word)].filter (· ≠ []) := by
  cases openApart <;> cases closeApart
  · exact prepareIfArgs_one word
  · refine (prepareIfArgs_many word [] []).trans ?_
    cases blank : trimLeft '(' word <;> simp [trimOpen, trimClose, blank, trimRight]
  · refine (prepareIfArgs_many [] word []).trans ?_
    simp [trimOpen, trimClose, trimLeft]
  · refine (prepareIfArgs_many [] [] [word]).trans ?_
    cases word <;> simp [trimOpen, trimClose, trimLeft, trimRight]

/-- A parenthesis apart is a word that is empty once it is trimmed. -/
theorem filter_blank (words : List Text) :
    (words ++ [trimRight ')' []]).filter (· ≠ []) = words.filter (· ≠ []) := by
  simp [List.filter_append, trimRight]

theorem prepare_several (openApart closeApart : Bool) (first last : Text) (middle : List Text) :
    prepareIfArgs (parenthesized openApart closeApart (first :: (middle ++ [last]))) =
      (trimOpen openApart first :: (middle ++ [trimClose closeApart last])).filter (· ≠ []) := by
  have ends (word : Text) : (word :: middle ++ [last]).getLast? = some last :=
    List.getLast?_concat
  have front (word : Text) : (word :: middle ++ [last]).dropLast = word :: middle :=
    List.dropLast_concat
  simp only [List.cons_append] at ends front
  cases openApart <;> cases closeApart
  · refine Eq.trans ?_ (prepareIfArgs_many first last middle)
    simp [parenthesized, opened, closed, ends, front]
  · refine Eq.trans ?_ ((prepareIfArgs_many first [] (middle ++ [last])).trans ?_)
    · simp [parenthesized, opened, closed]
    · exact filter_blank (trimLeft '(' first :: (middle ++ [last]))
  · refine Eq.trans ?_ (prepareIfArgs_many [] last (first :: middle))
    simp [parenthesized, opened, closed, ends, front]
  · refine Eq.trans ?_ ((prepareIfArgs_many [] [] (first :: (middle ++ [last]))).trans ?_)
    · simp [parenthesized, opened, closed]
    · exact filter_blank ([] :: first :: (middle ++ [last]))

theorem trimOpen_eq_iff {apart : Bool} {word : Text} :
    trimOpen apart word = word ↔ (apart = false → word.head? ≠ some '(') := by
  cases apart
  · simpa [trimOpen] using trimLeft_eq_iff
  · simp [trimOpen]

theorem trimClose_eq_iff {apart : Bool} {word : Text} :
    trimClose apart word = word ↔ (apart = false → word.getLast? ≠ some ')') := by
  cases apart
  · simpa [trimClose] using trimRight_eq_iff
  · simp [trimClose]

/-- Both trims of a lone word lose nothing only if each of them does. -/
theorem trim_both_iff {openApart closeApart : Bool} {word : Text} :
    trimClose closeApart (trimOpen openApart word) = word ↔
      trimOpen openApart word = word ∧ trimClose closeApart word = word := by
  constructor
  · intro both
    have shorter : (trimClose closeApart (trimOpen openApart word)).length ≤
        (trimOpen openApart word).length := by
      cases closeApart
      · exact length_trimRight ')' _
      · exact le_rfl
    have whole : trimOpen openApart word = word := by
      rw [both] at shorter
      cases openApart
      · exact (List.dropWhile_sublist _).eq_of_length_le shorter
      · rfl
    rw [whole] at both
    exact ⟨whole, both⟩
  · rintro ⟨opens, closes⟩
    rw [opens, closes]

/-- The parentheses come off and nothing else does exactly if no word is empty and the first and
last word have no parenthesis of their own next to an attached one. -/
theorem prepareIfArgs_exact_iff (openApart closeApart : Bool) (words : List Text)
    (nonempty : words ≠ []) :
    prepareIfArgs (parenthesized openApart closeApart words) = words ↔
      (∀ word ∈ words, word ≠ []) ∧
      (openApart = false → ∀ first ∈ words.head?, first.head? ≠ some '(') ∧
      (closeApart = false → ∀ last ∈ words.getLast?, last.getLast? ≠ some ')') := by
  obtain ⟨first, rest, rfl⟩ := List.exists_cons_of_ne_nil nonempty
  rcases List.eq_nil_or_concat rest with rfl | ⟨middle, last, rfl⟩
  · rw [prepare_single, filter_eq_iff (by simp), List.cons.injEq, and_iff_left rfl, trim_both_iff,
      trimOpen_eq_iff, trimClose_eq_iff, and_comm]
    simp
  · have ends : (first :: middle ++ [last]).getLast? = some last := List.getLast?_concat
    rw [List.cons_append] at ends
    rw [List.concat_eq_append, prepare_several, filter_eq_iff (by simp), List.cons.injEq,
      trimOpen_eq_iff, List.append_right_inj, List.cons.injEq, and_iff_left rfl, trimClose_eq_iff,
      and_comm, ends]
    simp

/-- `if ($uri ~ ^/(a|b))` loses the parenthesis of its regular expression. -/
theorem regex_parenthesis_lost :
    ¬ ∀ (openApart closeApart : Bool) (words : List Text), words ≠ [] →
      prepareIfArgs (parenthesized openApart closeApart words) = words := by
  intro exact
  have kept := exact false false ["$uri".toList, "~".toList, "^/(a|b)".toList] (by simp)
  revert kept
  decide

/-- `if ( $request_method = POST)`. -/
theorem prepareIfArgs_exact_sample :
    prepareIfArgs (parenthesized true false ["$request_method".toList, "=".toList,
      "POST".toList]) = ["$request_method".toList, "=".toList, "POST".toList] :=
  (prepareIfArgs_exact_iff true false _ (by simp)).mpr (by decide)

/-! ## Where a statement stands -/

/-- A block statement around another one, with what stands in front of and behind the latter's
block. -/
structure Frame where
  before : List Stmt
  head : Stmt
  after : List Stmt

def Frame.host (frame : Frame) (body : List Stmt) : Stmt :=
  { frame.head with blocks := some body }

def Frame.fill (frame : Frame) (body : List Stmt) : List Stmt :=
  frame.before ++ frame.host body :: frame.after

/-- The frames around a block, outermost first. -/
def nest (frames : List Frame) (body : List Stmt) : List Stmt := frames.foldr Frame.fill body

structure Frame.Plain (isPrint : Char → Bool) (frame : Frame) : Prop where
  before : AllWritable isPrint frame.before
  directive : PlainDirective isPrint frame.head.directive
  args : ∀ arg ∈ frame.head.args, PlainWord isPrint arg

/-- The tokens up to the block that is filled in. -/
def Frame.keys (frame : Frame) : List (Text × Bool) :=
  BuildRoundTrip.keys frame.before ++
    ((frame.head.directive :: frame.head.args).map wordKey ++ [(['{'], false)])

/-- An `if` statement with a condition of plain words and a block of plain statements. -/
structure PlainIf (isPrint : Char → Bool) (stmt : Stmt) : Prop where
  directive : stmt.directive = "if".toList
  nonempty : stmt.args ≠ []
  words : ∀ arg ∈ stmt.args, arg ≠ [] ∧ ∀ c ∈ arg, isPrint c = true ∧ c ∉ "()\\\"'#".toList
  block : ∃ body, stmt.blocks = some body ∧ AllWritable isPrint body

variable {isPrint : Char → Bool} {padding : Int} {stmt : Stmt} {keys : List (Text × Bool)}
  {word rest : Text} {s t : LexState} {frames : List Frame} {before after : List Stmt}

/-! ## What is written -/

theorem enquote_first (isPrint : Char → Bool) (nonempty : word ≠ []) (noSlash : '\\' ∉ word) :
    ∃ c more, enquote isPrint word = c :: more ∧ wordChar c = true := by
  cases quoted : needsQuote word with
  | true => exact ⟨'"', _, by rw [enquote, if_pos quoted]; rfl, by decide⟩
  | false =>
    obtain ⟨c, more, rfl⟩ := List.exists_cons_of_ne_nil nonempty
    have clear := (needsQuote_false quoted).2 c List.mem_cons_self
    rw [List.mem_cons, not_or] at noSlash
    exact ⟨c, more, enquote_bare isPrint quoted,
      EnquoteWords.wordChar_of_bare clear (Ne.symm noSlash.1)⟩

/-- The first word of the condition touches the directive. -/
theorem PlainIf.buildStmt_eq (plain : PlainIf isPrint stmt) (padding : Int) (depth : Nat) :
    ∃ c more, buildStmt isPrint padding stmt depth = ' ' :: 'i' :: 'f' :: c :: more ∧
      wordChar c = true := by
  obtain ⟨directive, nonempty, words, body, block, -⟩ := plain
  rcases stmt with ⟨name, filename, line, args, comment, includes, blocks⟩
  dsimp only at directive nonempty words block
  subst directive block
  obtain ⟨arg, args, rfl⟩ := List.exists_cons_of_ne_nil nonempty
  obtain ⟨some, chars⟩ := words arg List.mem_cons_self
  obtain ⟨c, more, first, joins⟩ := enquote_first isPrint some
    fun slash => (chars _ slash).2 (by simp)
  have bare : enquote isPrint "if".toList = "if".toList := enquote_bare isPrint (by decide)
  have joined : ∃ more', join [' '] ((arg :: args).map (enquote isPrint)) = c :: more' := by
    cases args <;> simp [join, first]
  obtain ⟨more', joined⟩ := joined
  rw [buildStmt, bare, if_neg (by decide), if_neg (by decide), buildBlock_lines _ _ _ (by simp),
    buildHead, if_pos rfl, joined]
  exact ⟨c, _, rfl, joins⟩

theorem PlainIf.lineText_eq (plain : PlainIf isPrint stmt) (padding : Int) (depth lastLine : Nat) :
    ∃ c more, lineText isPrint padding stmt false depth lastLine =
      '\n' :: margin padding depth ++ ' ' :: 'i' :: 'f' :: c :: more ∧ wordChar c = true := by
  obtain ⟨c, more, built, joins⟩ := plain.buildStmt_eq padding depth
  have bare : enquote isPrint "if".toList = "if".toList := enquote_bare isPrint (by decide)
  refine ⟨c, more, ?_, joins⟩
  rw [lineText, plain.directive, bare, if_neg (by simp), built]
  rfl

theorem Frame.Plain.lineText_eq {frame : Frame} (plain : frame.Plain isPrint) (body : List Stmt)
    (depth lastLine : Nat) : lineText isPrint padding (frame.host body) false depth lastLine =
      '\n' :: margin padding depth ++ (join [' ']
        ((frame.head.directive :: frame.head.args).map (enquote isPrint)) ++ ' ' :: '{' ::
          (blockLines isPrint padding body (depth + 1) frame.head.line ++
            '\n' :: margin padding depth ++ ['}'])) := by
  have directive : PlainDirective isPrint (frame.host body).directive := plain.directive
  rcases frame with ⟨before, ⟨name, filename, line, args, comment, includes, blocks⟩, after⟩
  rw [directive.lineText_eq, Frame.host, buildStmt_block plain.directive]
  simp

/-- Behind other output: the layout of what stands in front of the statement, and the word that
its directive has become a part of. -/
theorem PlainIf.blockLines_eq (plain : PlainIf isPrint stmt) (writable : AllWritable isPrint before)
    (after : List Stmt) (around : ∀ frame ∈ frames, frame.Plain isPrint) (padding : Int)
    (depth lastLine : Nat) : ∃ lead text entries c more, Spaces lead ∧ wordChar c = true ∧
      blockLines isPrint padding (nest frames (before ++ stmt :: after)) depth lastLine =
        lead ++ (text ++ 'i' :: 'f' :: c :: more) ∧
      Lays true text (frames.flatMap Frame.keys ++ BuildRoundTrip.keys before) entries := by
  induction frames generalizing depth lastLine with
  | nil =>
    obtain ⟨c, more, written, joins⟩ :=
      plain.lineText_eq padding depth (lineAfter before lastLine)
    have blank : isSpace ' ' = true := by decide
    have spaces : Spaces ('\n' :: margin padding depth ++ [' ']) :=
      List.forall_mem_append.mpr ⟨margin_spaces padding depth, by simp [blank]⟩
    obtain ⟨lead, text, entries, leadSpaces, same, lays⟩ :=
      laid padding before writable depth _ spaces
    refine ⟨lead, text, entries, c,
      more ++ blockLines isPrint padding after depth stmt.line, leadSpaces, joins, ?_, lays⟩
    rw [nest, List.foldr_nil, blockLines_append, BuildRoundTrip.blockLines_eq padding writable,
      blockLines, written, ← List.append_assoc lead, ← same]
    simp
  | cons frame frames ih =>
    obtain ⟨plainFrame, around⟩ := List.forall_mem_cons.mp around
    let body := nest frames (before ++ stmt :: after)
    obtain ⟨inner, text', _, c, more, innerSpaces, joins, within, lays'⟩ :=
      ih around (depth + 1) frame.head.line
    obtain ⟨lead, text, _, leadSpaces, same, lays⟩ :=
      laid padding frame.before plainFrame.before depth _ (margin_spaces padding depth)
    obtain ⟨_, opening⟩ :=
      lays_opening frame.head.args plainFrame.directive plainFrame.args innerSpaces
    refine ⟨lead, text ++ (join [' '] ((frame.head.directive :: frame.head.args).map
        (enquote isPrint)) ++ ' ' :: '{' :: inner ++ text'), _, c,
      more ++ '\n' :: margin padding depth ++ ['}'] ++
        blockLines isPrint padding frame.after depth frame.head.line, leadSpaces, joins, ?_,
      by simpa [Frame.keys] using lays.append (opening.append lays')⟩
    change blockLines isPrint padding (frame.before ++ frame.host body :: frame.after) depth
      lastLine = _
    rw [blockLines_append, BuildRoundTrip.blockLines_eq padding plainFrame.before, blockLines,
      plainFrame.lineText_eq, within, ← List.append_assoc lead, ← List.append_assoc lead, ← same]
    simp [Frame.host]

/-! ## What is read -/

/-- The word is the beginning of the pending token, or was emitted as the beginning of one. -/
def Begins (keys : List (Text × Bool)) (word : Text) (next : Lexer × Point) : Prop :=
  (next.1.tokens.map tokenKey = keys ∧ word <+: next.1.token ∧
    (next.2 = .again ∨ next.2 = .escape ∨ next.2 = .expansion ∨ next.2 = .returned none)) ∨
  ∃ more, keys ++ [(word ++ more, false)] <+: next.1.tokens.map tokenKey

section
variable {lx : Lexer} (written : lx.tokens.map tokenKey = keys) (part : word <+: lx.token)
include written part

theorem begins_push {lx' : Lexer} {p : Point} {c : Char} (tokens : lx'.tokens = lx.tokens)
    (token : lx'.token = lx.token ++ [c]) (point : p = .again ∨ p = .escape ∨ p = .expansion) :
    Begins keys word (lx', p) := by
  refine .inl ⟨tokens ▸ written, ?_, by tauto⟩
  rw [token]
  exact part.trans (List.prefix_append _ _)

theorem begins_emit {next : Lexer × Point}
    (tokens : lx.tokens ++ [⟨lx.token, lx.line, false⟩] <+: next.1.tokens) :
    Begins keys word next := by
  obtain ⟨more, same⟩ := part
  refine .inr ⟨more, ?_⟩
  rw [same, ← written]
  simpa [tokenKey] using tokens.map tokenKey

theorem begins_plain (pending : lx.token ≠ []) (r : Read) : Begins keys word (plain lx r) := by
  rw [plain_pending pending]
  split
  · exact begins_emit written part (by simp)
  · exact begins_push written part rfl rfl (.inl rfl)

theorem begins_dispatch (pending : lx.token ≠ []) (r : Read) :
    Begins keys word (dispatch lx r) := by
  rw [dispatch_pending pending]
  split
  · exact begins_push written part rfl rfl (.inr (.inl rfl))
  split
  · exact begins_push written part rfl rfl (.inr (.inr rfl))
  · exact begins_plain written part pending r

theorem begins_afterWord (pending : lx.token ≠ []) : Begins keys word (afterWord lx) := by
  unfold afterWord
  rw [if_pos pending]
  dsimp only
  split
  · exact begins_emit written part (by rw [luaEnter_tokens]; exact List.prefix_rfl)
  · exact begins_emit written part List.prefix_rfl

end

theorem begins_proceed (nonempty : word ≠ []) {lx : Lexer} {p : Point}
    (begins : Begins keys word (lx, p)) (r : Read) : Begins keys word (proceed lx r p) := by
  rcases begins with ⟨written, part, points⟩ | ⟨more, emitted⟩
  · have pending : lx.token ≠ [] := fun empty => nonempty (List.prefix_nil.mp (empty ▸ part))
    dsimp only at written part points
    rcases points with rfl | rfl | rfl | rfl
    · rw [proceed]
      split
      · exact .inl ⟨written, part, by simp⟩
      split
      · exact begins_afterWord written part pending
      · exact begins_dispatch written part pending r
    · exact begins_push written part rfl rfl (.inl rfl)
    · rw [proceed]
      split
      · exact begins_push written part rfl rfl (.inr (.inr rfl))
      · exact begins_plain written part pending r
    · exact .inl ⟨written, part, by simp [proceed]⟩
  · exact .inr ⟨more, emitted.trans ((proceed_tokens lx r p).map tokenKey)⟩

theorem begins_run (nonempty : word ≠ []) (begins : Begins keys word (s.lexer, s.point))
    (path : Reaches step s t) : Begins keys word (t.lexer, t.point) := by
  refine kept_by_run (I := fun t => Begins keys word (t.lexer, t.point)) ?_ begins path
  intro t u begins edge
  obtain ⟨lexer, -, point⟩ := step_proceed edge
  rw [lexer, point]
  exact begins_proceed nonempty begins _

/-- The keys of tokens that do not go on with the directive of an `if` statement. -/
def Misread (keys : List (Text × Bool)) : Prop :=
  ∀ key ∈ keys.head?, key.2 = false ∧ key.1.head? = some 'i' ∧ key.1 ≠ "if".toList

theorem begins_misread {c : Char} {next : Lexer × Point}
    (begins : Begins keys ['i', 'f', c] next) :
    ∃ tail, next.1.tokens.map tokenKey = keys ++ tail ∧ Misread tail := by
  rcases begins with ⟨written, -⟩ | ⟨more, tail, same⟩
  · exact ⟨[], by rw [written, List.append_nil], by simp [Misread]⟩
  · exact ⟨_, by rw [← same, List.append_assoc], by simp [Misread]⟩

theorem exists_first {host : Stmt} (writable : AllWritable isPrint before)
    (noHash : enquote isPrint host.directive ≠ ['#']) :
    ∃ first rest, before ++ host :: after = first :: rest ∧
      enquote isPrint first.directive ≠ ['#'] := by
  cases before with
  | nil => exact ⟨host, after, rfl, noHash⟩
  | cons first rest =>
    exact ⟨first, _, rfl, (writable_directive writable.1).enquote_ne_hash⟩

theorem PlainIf.exists_first (plain : PlainIf isPrint stmt) (writable : AllWritable isPrint before)
    (after : List Stmt) (around : ∀ frame ∈ frames, frame.Plain isPrint) :
    ∃ first rest, nest frames (before ++ stmt :: after) = first :: rest ∧
      enquote isPrint first.directive ≠ ['#'] := by
  cases frames with
  | nil =>
    refine IfStatements.exists_first writable ?_
    rw [plain.directive, enquote_bare isPrint (by decide)]
    decide
  | cons frame frames =>
    have outer := around frame List.mem_cons_self
    exact IfStatements.exists_first outer.before outer.directive.enquote_ne_hash

/-- The lexer comes behind the beginning of the word that the directive has become a part of. -/
theorem PlainIf.build_begins (plain : PlainIf isPrint stmt) (writable : AllWritable isPrint before)
    (around : ∀ frame ∈ frames, frame.Plain isPrint) (indent : Int) :
    ∃ c, Leads step
      (start (build isPrint (nest frames (before ++ stmt :: after)) indent false))
      (fun t => Begins (frames.flatMap Frame.keys ++ BuildRoundTrip.keys before) ['i', 'f', c]
        (t.lexer, t.point)) := by
  obtain ⟨lead, text, entries, c, more, spaces, joins, built, lays⟩ :=
    plain.blockLines_eq writable after around indent 0 0
  obtain ⟨first, rest, split, noHash⟩ := plain.exists_first writable after around
  rw [split, blockLines_build indent rest (fun both => noHash both.1), ← split] at built
  refine ⟨c, ?_⟩
  -- the line break in front is not part of the configuration
  obtain ⟨lead, rfl⟩ : ∃ lead', lead = '\n' :: lead' := by
    cases lead with
    | cons x lead => exact ⟨lead, by rw [(List.cons.inj built).1]⟩
    | nil =>
      have visible := lays.visible
      cases text with
      | nil => simp at built
      | cons x text =>
        have same : '\n' = x := (List.cons.inj built).1
        exact absurd (visible x rfl) (by rw [← same]; decide)
  rw [(List.cons.inj built).2]
  have free : LuaFree false entries := by simpa using luaFree_of_true (lays.luaFree [] trivial)
  refine (at_gap (fun x mem => spaces x (List.mem_cons_of_mem _ mem)) (start_at _)).trans
    fun t at_ => ?_
  rw [← lays.text_eq] at at_
  refine (at_layout (.inl rfl) lays.separated free lays.gaps at_).trans fun t reached => ?_
  obtain ⟨d, at_⟩ := reached
  have chars : ∀ x, Piece.plain x ∈ [Piece.plain 'i', .plain 'f', .plain c] →
      wordChar x = true := by
    simp [joins, show wordChar 'i' = true by decide, show wordChar 'f' = true by decide]
  refine (at_pieces chars (by simp) at_).trans fun t at_ => .here ?_
  refine .inl ⟨by simpa [pendingKey, lays.keys_eq] using at_.written, ?_, ?_⟩
  · rw [at_.pending]
    exact List.prefix_rfl
  · rcases at_.point with again | ⟨-, empty⟩
    · exact .inl again
    · simp [Piece.source] at empty

theorem PlainIf.lex_misread (plain : PlainIf isPrint stmt) (writable : AllWritable isPrint before)
    (around : ∀ frame ∈ frames, frame.Plain isPrint) (indent : Int) {tokens : List Token}
    (returns : Returns (build isPrint (nest frames (before ++ stmt :: after)) indent false) none
      tokens) :
    ∃ tail, tokens.map tokenKey =
      frames.flatMap Frame.keys ++ BuildRoundTrip.keys before ++ tail ∧ Misread tail := by
  obtain ⟨c, t, path, begins⟩ := plain.build_begins writable around indent
  obtain ⟨u, ends, returned, rfl⟩ := returns
  have final : step u = none := by rw [step, returned]
  rcases reaches_total path ends with further | further
  · exact begins_misread (begins_run (by simp) begins further)
  · rcases Relation.ReflTransGen.cases_head further with rfl | ⟨next, edge, -⟩
    · exact begins_misread begins
    · rw [Option.mem_def, final] at edge
      cases edge

/-! ## What is parsed -/

variable {env : ParseEnv} {tokens ending : List Token} {parsed : List Stmt}
  {tail : List (Text × Bool)}

/-- The statements in front are parsed as they are. -/
theorem reads_before (writable : AllWritable isPrint before)
    (reads : Reads env tokens parsed ending)
    (written : tokens.map tokenKey = BuildRoundTrip.keys before ++ tail)
    (same : outline parsed = outline (before ++ after)) :
    ∃ tokens' parsed', Reads env tokens' parsed' ending ∧ tokens'.map tokenKey = tail ∧
      outline parsed' = outline after := by
  obtain ⟨front, back, rfl, frontKeys, backKeys⟩ := List.map_eq_append_iff.mp written
  obtain ⟨nodes, rfl, outlines⟩ :=
    exists_nodes env.filename env.opts.comments before writable front frontKeys
  obtain ⟨others, rfl, later⟩ := reads_flatten_inv nodes reads
  refine ⟨back, others, later, backKeys, ?_⟩
  simp only [outline_eq_map, List.map_append] at same outlines ⊢
  rw [outlines] at same
  exact List.append_cancel_left same

/-- A token that goes on with part of a word is parsed as no `if` statement. -/
theorem misread_parsed (misread : Misread (tokens.map tokenKey))
    (reads : Reads env tokens parsed ending) :
    ∀ first ∈ parsed.head?, first.directive ≠ "if".toList := by
  cases reads with
  | done => nofun
  | close => nofun
  | comment found =>
    obtain ⟨-, letter, -⟩ := misread _ rfl
    have hash : _ = some '#' := (by simpa [isComment] using found : _ ∧ _).1
    rw [tokenKey, hash] at letter
    cases letter
  | simple =>
    obtain ⟨-, -, other⟩ := misread _ rfl
    simpa [newStmt, tokenKey] using other
  | block =>
    obtain ⟨-, -, other⟩ := misread _ rfl
    simpa [newStmt, tokenKey] using other

theorem outline_ne (writable : AllWritable isPrint before)
    (condition : stmt.directive = "if".toList)
    (around : ∀ frame ∈ frames, frame.Plain isPrint) (misread : Misread tail)
    (reads : Reads env tokens parsed ending)
    (written : tokens.map tokenKey =
      frames.flatMap Frame.keys ++ BuildRoundTrip.keys before ++ tail) :
    outline parsed ≠ outline (nest frames (before ++ stmt :: after)) := by
  intro same
  -- induction on the frames, outermost first; each of them is parsed as what it is
  induction frames generalizing tokens parsed ending with
  | nil =>
    obtain ⟨tokens, parsed, reads, rfl, same⟩ := reads_before writable reads written same
    have other := misread_parsed misread reads
    cases parsed with
    | nil => cases same
    | cons first rest =>
      have directive := congrArg Stmt.directive (List.cons.inj same).1
      rw [outlineStmt_eq, outlineStmt_eq] at directive
      exact other first rfl (directive.trans condition)
  | cons frame frames ih =>
    obtain ⟨plain, around⟩ := List.forall_mem_cons.mp around
    rw [List.flatMap_cons, Frame.keys, List.append_assoc, List.append_assoc, List.append_assoc,
      List.append_assoc] at written
    obtain ⟨tokens, parsed, reads, written, same⟩ := reads_before plain.before reads written same
    obtain ⟨directive, words, back, rfl, -, -, backKeys⟩ :=
      exists_head plain.directive.toPlainWord plain.args written
    obtain ⟨opening, inner, rfl, openKey, innerKeys⟩ := List.map_eq_cons_iff.mp backKeys
    obtain ⟨line, rfl⟩ := token_of_key openKey
    rcases reads_head rfl reads with ⟨ended, -⟩ | ⟨-, body, _, _, within, -, rfl⟩
    · cases ended
    · refine ih around within (by simpa using innerKeys) ?_
      have blocks := congrArg Stmt.blocks (List.cons.inj same).1
      rw [outlineStmt_eq, outlineStmt_eq] at blocks
      exact Option.some.inj blocks

/-! ## The round trip -/

/-- Lexing and parsing what is built gives back the directives, arguments and blocks. -/
def RoundTrips (isPrint : Char → Bool) (stmts : List Stmt) (indent : Int) (filename : Text)
    (env : ParseEnv) (ctx : List Text) (st : Shared) : Prop :=
  ∃ tokens, (∃ enough, ∀ fuel, enough ≤ fuel →
      lex fuel (build isPrint stmts indent false) filename = some (.ok tokens)) ∧
    ∃ parsed st', parseTokens env ctx tokens st = .ok (parsed, [], st') ∧
      outline parsed = outline stmts

theorem RoundTrips.reads {stmts : List Stmt} {indent : Int} {filename : Text} {ctx : List Text}
    {st : Shared} (quiet : Quiet env)
    (back : RoundTrips isPrint stmts indent filename env ctx st) :
    ∃ tokens parsed, Returns (build isPrint stmts indent false) none tokens ∧
      Reads env tokens parsed [] ∧ outline parsed = outline stmts := by
  obtain ⟨tokens, ⟨enough, lexed⟩, parsed, st', parse, same⟩ := back
  obtain ⟨stmts, reads, agrees⟩ := parseTokens_agrees quiet parse
  refine ⟨tokens, stmts, returns_of_lex (lexed enough le_rfl), reads, ?_⟩
  rw [← agrees.bare_eq, outline_bare, same]

/-- No `if` statement survives, at no depth and among no other statements. -/
theorem if_statement_lost (isPrint : Char → Bool) (stmt : Stmt) (plain : PlainIf isPrint stmt)
    (frames : List Frame) (around : ∀ frame ∈ frames, frame.Plain isPrint)
    (before after : List Stmt) (writable : AllWritable isPrint before) (indent : Int)
    (filename : Text) (env : ParseEnv) (quiet : Quiet env) (ctx : List Text) (st : Shared) :
    ¬ RoundTrips isPrint (nest frames (before ++ stmt :: after)) indent filename env ctx st := by
  intro back
  obtain ⟨tokens, parsed, returns, reads, same⟩ := back.reads quiet
  obtain ⟨tail, written, misread⟩ := plain.lex_misread writable around indent returns
  exact outline_ne writable plain.directive around misread reads written same

private def conditional : Stmt :=
  ⟨"if".toList, [], 1, ["$a".toList], [], [],
    some [⟨"return".toList, [], 2, ["403".toList], [], [], none⟩]⟩

private theorem conditional_plain : PlainIf (fun _ => true) conditional :=
  ⟨rfl, by decide, by simp [conditional], _, rfl, ⟨by decide +kernel, by decide +kernel⟩, trivial⟩

private def quietEnv : ParseEnv :=
  ⟨fun format _ => format, ⟨.error, .error⟩, ⟨none, true, true, false, ⟨true, true, true⟩, []⟩,
    "nginx.conf".toList⟩

private def emptyState : Shared := ⟨DirectiveTable.directives, ⟨.ok, []⟩, none, [], []⟩

/-- `server { if ($a) { return 403; } }`. -/
theorem if_statement_lost_sample :
    ¬ RoundTrips (fun _ => true)
      (nest [⟨[], ⟨"server".toList, [], 1, [], [], [], none⟩, []⟩] [conditional]) 4
      "nginx.conf".toList quietEnv [] emptyState :=
  if_statement_lost (fun _ => true) conditional conditional_plain
    [⟨[], ⟨"server".toList, [], 1, [], [], [], none⟩, []⟩]
    (by simpa using ⟨trivial, by decide +kernel, nofun⟩) [] [] trivial 4 _ quietEnv (fun _ => rfl)
    [] emptyState

/-- ` if$a) {` is a block of the directive `if$a)`. -/
theorem condition_touches_directive :
    ¬ ∀ (isPrint : Char → Bool) (stmt : Stmt) (frames : List Frame) (before after : List Stmt)
      (indent : Int) (filename : Text) (env : ParseEnv) (ctx : List Text) (st : Shared),
      PlainIf isPrint stmt → (∀ frame ∈ frames, frame.Plain isPrint) →
      AllWritable isPrint before → AllWritable isPrint after → Quiet env →
      RoundTrips isPrint (nest frames (before ++ stmt :: after)) indent filename env ctx st := by
  intro survive
  have back := survive (fun _ => true) conditional [] [] [] 4 "nginx.conf".toList quietEnv []
    emptyState conditional_plain nofun trivial trivial (fun _ => rfl)
  obtain ⟨tokens, parsed, returns, reads, same⟩ := back.reads (fun _ => rfl)
  have none : ∀ frame ∈ ([] : List Frame), frame.Plain fun _ => true := nofun
  have writable : AllWritable (fun _ => true) [] := trivial
  obtain ⟨tail, written, misread⟩ := conditional_plain.lex_misread writable none 4 returns
  exact outline_ne writable rfl none misread reads written same

end IfStatements
