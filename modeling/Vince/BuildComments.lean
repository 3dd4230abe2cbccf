import Vince.BuildRoundTrip

/-!
# Comments in a built configuration

`buildBlock` puts a comment on the line of the statement before it, if the two had the same line,
and ends no comment with a line break of its own. So two comments of one line become one, which is
what `merge` does to the forest, and a comment at the very end leaves the lexer waiting for a line
break that never comes. Everything else is read back: `noteKeys` are the tokens of a forest without
adjacent comments of one line, and they derive a forest of the same `sketch`.
-/

namespace BuildComments

open GoText ConfigLex ConfigAnalyze ConfigParse ConfigBuild LexLayout LexTermination ParseReads
  ParseForest BuildRoundTrip Transitions StateTransition

/-- A comment among the statements. -/
def isNote (stmt : Stmt) : Bool := stmt.directive = ['#']

mutual

def Noted (isPrint : Char → Bool) : Stmt → Prop
  | ⟨directive, _, _, args, comment, _, none⟩ =>
    (directive = ['#'] ∧ args = [] ∧ '\n' ∉ comment) ∨
      (PlainDirective isPrint directive ∧ ∀ arg ∈ args, PlainWord isPrint arg)
  | ⟨directive, _, _, args, _, _, some body⟩ =>
    PlainDirective isPrint directive ∧ (∀ arg ∈ args, PlainWord isPrint arg) ∧
      AllNoted isPrint body
termination_by structural stmt => stmt

/-- A forest of plain statements and of comments without a line break. -/
def AllNoted (isPrint : Char → Bool) : List Stmt → Prop
  | [] => True
  | stmt :: rest => Noted isPrint stmt ∧ AllNoted isPrint rest
termination_by structural stmts => stmts

end

mutual

def stripStmt : Stmt → Stmt
  | ⟨directive, filename, line, args, comment, includes, none⟩ =>
    ⟨directive, filename, line, args, comment, includes, none⟩
  | ⟨directive, filename, line, args, comment, includes, some body⟩ =>
    ⟨directive, filename, line, args, comment, includes, some (strip body)⟩
termination_by structural stmt => stmt

/-- The statements that are no comments. -/
def strip : List Stmt → List Stmt
  | [] => []
  | stmt :: rest => if isNote stmt then strip rest else stripStmt stmt :: strip rest
termination_by structural stmts => stmts

end

mutual

def stmtNotes : Stmt → List Text
  | ⟨directive, _, _, _, comment, _, none⟩ => if directive = ['#'] then [comment] else []
  | ⟨directive, _, _, _, comment, _, some body⟩ =>
    if directive = ['#'] then [comment] else notes body
termination_by structural stmt => stmt

/-- The texts of the comments, in the order of the configuration. -/
def notes : List Stmt → List Text
  | [] => []
  | stmt :: rest => stmtNotes stmt ++ notes rest
termination_by structural stmts => stmts

end

/-- Two comments of one line. -/
def adjoin (stmt next : Stmt) : Bool := isNote stmt && isNote next && stmt.line = next.line

mutual

def StmtApart : Stmt → Prop
  | ⟨_, _, _, _, _, _, none⟩ => True
  | ⟨_, _, _, _, _, _, some body⟩ => Apart body
termination_by structural stmt => stmt

/-- Nowhere does a comment follow another one of its line. -/
def Apart : List Stmt → Prop
  | [] => True
  | stmt :: rest =>
    (∀ next ∈ rest.head?, adjoin stmt next = false) ∧ StmtApart stmt ∧ Apart rest
termination_by structural stmts => stmts

end

variable {isPrint : Char → Bool} {padding : Int} {stmt : Stmt} {stmts : List Stmt}

theorem stripStmt_eq (stmt : Stmt) :
    stripStmt stmt = { stmt with blocks := stmt.blocks.map strip } := by
  rcases stmt with ⟨_, _, _, _, _, _, _ | body⟩ <;> rfl

theorem stmtNotes_eq (stmt : Stmt) :
    stmtNotes stmt = if isNote stmt then [stmt.comment] else (stmt.blocks.map notes).getD [] := by
  rcases stmt with ⟨_, _, _, _, _, _, _ | body⟩ <;> simp [stmtNotes, isNote]

theorem stmtApart_iff (stmt : Stmt) :
    StmtApart stmt ↔ ∀ body, stmt.blocks = some body → Apart body := by
  rcases stmt with ⟨_, _, _, _, _, _, _ | body⟩ <;> simp [StmtApart]

/-- A statement is a comment or plain, and the latter has no hash sign for a directive. -/
theorem noted_iff (stmt : Stmt) : Noted isPrint stmt ↔
    (isNote stmt = true ∧ stmt.args = [] ∧ stmt.blocks = none ∧ '\n' ∉ stmt.comment) ∨
    (isNote stmt = false ∧ PlainDirective isPrint stmt.directive ∧
      (∀ arg ∈ stmt.args, PlainWord isPrint arg) ∧
      ∀ body, stmt.blocks = some body → AllNoted isPrint body) := by
  rcases stmt with ⟨directive, _, _, args, comment, _, _ | body⟩
  · constructor
    · rintro (⟨rfl, rfl, oneLine⟩ | ⟨plain, plains⟩)
      · exact .inl ⟨rfl, rfl, rfl, oneLine⟩
      · exact .inr ⟨by simpa [isNote] using plain.ne_hash, plain, plains, nofun⟩
    · rintro (⟨hash, none, -, oneLine⟩ | ⟨-, plain, plains, -⟩)
      · exact .inl ⟨by simpa [isNote] using hash, none, oneLine⟩
      · exact .inr ⟨plain, plains⟩
  · constructor
    · rintro ⟨plain, plains, inner⟩
      exact .inr ⟨by simpa [isNote] using plain.ne_hash, plain, plains, by simpa using inner⟩
    · rintro (⟨-, -, ⟨⟩, -⟩ | ⟨-, plain, plains, inner⟩)
      exact ⟨plain, plains, inner body rfl⟩

/-! ## What is written for a comment -/

theorem enquote_hash (isPrint : Char → Bool) : enquote isPrint ['#'] = ['#'] :=
  enquote_bare isPrint (by decide)

theorem buildStmt_note (note : isNote stmt = true) (depth : Nat) :
    buildStmt isPrint padding stmt depth = " #".toList ++ stmt.comment := by
  rcases stmt with ⟨directive, _, _, args, comment, _, _ | body⟩
  · obtain rfl : directive = ['#'] := by simpa [isNote] using note
    rw [buildStmt, enquote_hash, if_pos rfl]
  · obtain rfl : directive = ['#'] := by simpa [isNote] using note
    rw [buildStmt, enquote_hash, if_pos rfl]

/-- The whitespace in front of a comment. -/
def noteLead (padding : Int) (stmt : Stmt) (first : Bool) (depth lastLine : Nat) : Text :=
  if stmt.line = lastLine then [' ']
  else (if first then [] else ['\n']) ++ margin padding depth ++ [' ']

theorem lineText_note (note : isNote stmt = true) (first : Bool) (depth lastLine : Nat) :
    lineText isPrint padding stmt first depth lastLine =
      noteLead padding stmt first depth lastLine ++ '#' :: stmt.comment := by
  have hash : enquote isPrint stmt.directive = ['#'] := by
    rw [show stmt.directive = ['#'] by simpa [isNote] using note, enquote_hash]
  rw [lineText, noteLead, hash]
  by_cases same : stmt.line = lastLine
  · simp [same]
  · simp [same, buildStmt_note note]

theorem noteLead_spaces (padding : Int) (stmt : Stmt) (first : Bool) (depth lastLine : Nat) :
    Spaces (noteLead padding stmt first depth lastLine) := by
  have margins := margin_spaces padding depth
  have blank : isSpace ' ' = true := by decide
  unfold noteLead
  split
  · simpa [Spaces] using blank
  · intro c mem
    rcases List.mem_append.mp mem with front | last
    · refine margins c ?_
      cases first <;> simp_all
    · rw [List.mem_singleton.mp last]
      exact blank

/-! ## Layouts -/

mutual

def stmtNoteKeys : Stmt → List (Text × Bool)
  | ⟨directive, _, _, args, comment, _, none⟩ =>
    if directive = ['#'] then [('#' :: comment, false)]
    else (directive :: args).map wordKey ++ [([';'], false)]
  | ⟨directive, _, _, args, _, _, some body⟩ =>
    ((directive :: args).map wordKey ++ [(['{'], false)]) ++ (noteKeys body ++ [(['}'], false)])
termination_by structural stmt => stmt

/-- Text and quote flag of the tokens a forest with comments is written with. -/
def noteKeys : List Stmt → List (Text × Bool)
  | [] => []
  | stmt :: rest => stmtNoteKeys stmt ++ noteKeys rest
termination_by structural stmts => stmts

end

theorem lays_comment {body : Text} (oneLine : '\n' ∉ body) {gap : Text} (spaces : Spaces gap) :
    Lays true ('#' :: body ++ '\n' :: gap) [('#' :: body, false)]
      [(.comment body oneLine, gap)] where
  text_eq := by simp [render, Lexeme.source]
  gaps := by simpa using spaces
  keys_eq := rfl
  separated := trivial
  luaFree := fun _ free => free

/-- Whitespace that ends a comment in front of it. -/
def EndsNote (stmts : List Stmt) (trail : Text) : Prop :=
  ∀ last ∈ stmts.getLast?, isNote last = true → trail.head? = some '\n'

/-- The lines are a layout behind some whitespace, whatever whitespace follows them and ends the
last comment. The whitespace in front ends a comment, unless a comment follows on its line. -/
def LaidOut (isPrint : Char → Bool) (padding : Int) (stmts : List Stmt) : Prop :=
  ∀ depth lastLine trail, Spaces trail → EndsNote stmts trail → ∃ lead text entries, Spaces lead ∧
    blockLines isPrint padding stmts depth lastLine ++ trail = lead ++ text ∧
    Lays true text (noteKeys stmts) entries ∧
    (stmts = [] → lead = trail) ∧
    ∀ first ∈ stmts.head?, ¬ (isNote first = true ∧ first.line = lastLine) → lead.head? = some '\n'

theorem lays_plain (plain : isNote stmt = false) (noted : Noted isPrint stmt)
    (inner : ∀ body, stmt.blocks = some body → LaidOut isPrint padding body) (depth : Nat)
    {gap : Text} (spaces : Spaces gap) :
    ∃ entries, Lays true (buildStmt isPrint padding stmt depth ++ gap) (stmtNoteKeys stmt)
      entries := by
  rcases (noted_iff stmt).mp noted with ⟨note, -⟩ | ⟨-, directive, args, -⟩
  · simp [note] at plain
  rcases stmt with ⟨name, filename, line, args', comment, includes, _ | body⟩
  · rw [buildStmt_simple padding directive, stmtNoteKeys, if_neg (by simpa [isNote] using plain),
      List.append_assoc]
    exact lays_simple _ directive args spaces
  · obtain ⟨lead, text, entries, leadSpaces, same, within, -⟩ :=
      inner body rfl (depth + 1) line _ (margin_spaces padding depth) (fun _ _ _ => rfl)
    exact lays_block directive args leadSpaces same within spaces

theorem EndsNote.tail {rest : List Stmt} {trail : Text} (ends : EndsNote (stmt :: rest) trail) :
    EndsNote rest trail := by
  intro last mem
  exact ends last (by rw [List.getLast?_cons, mem]; rfl)

/-- A comment in front of lines that do not follow on its own line. -/
theorem laidOut_note {rest : List Stmt} (note : isNote stmt = true) (noted : Noted isPrint stmt)
    (fresh : ∀ next ∈ rest.head?, adjoin stmt next = false)
    (behind : LaidOut isPrint padding rest) :
    LaidOut isPrint padding (stmt :: rest) := by
  intro depth lastLine trail spaces ends
  obtain ⟨gap, text, entries, gapSpaces, same, tail, nothing, breaks⟩ :=
    behind depth stmt.line trail spaces ends.tail
  -- the line break that ends the comment is the first of what follows
  obtain ⟨gap, rfl⟩ : ∃ gap', gap = '\n' :: gap' := by
    have head : gap.head? = some '\n' := by
      cases rest with
      | nil =>
        rw [nothing rfl]
        exact ends stmt rfl note
      | cons next rest =>
        refine breaks next rfl fun both => ?_
        have apart := fresh next rfl
        simp [adjoin, note, both.1, both.2] at apart
    cases gap with
    | nil => cases head
    | cons c gap => exact ⟨gap, by rw [Option.some.inj head]⟩
  rcases (noted_iff stmt).mp noted with ⟨-, -, none, oneLine⟩ | ⟨plain, -⟩
  · have lays := (lays_comment oneLine fun c mem => gapSpaces c (List.mem_cons_of_mem _ mem)).append
      tail
    have key : stmtNoteKeys stmt = [('#' :: stmt.comment, false)] := by
      rcases stmt with ⟨directive, _, _, _, _, _, blocks⟩
      obtain rfl : blocks = Option.none := none
      rw [stmtNoteKeys, if_pos (by simpa [isNote] using note)]
    refine ⟨noteLead padding stmt false depth lastLine, _, _, noteLead_spaces _ _ _ _ _, ?_,
      by rw [noteKeys, key]; exact lays, by simp, ?_⟩
    · rw [blockLines, lineText_note note, List.append_assoc, same]
      simp
    · intro _ found fresh
      cases found
      rw [noteLead, if_neg fun same => fresh ⟨note, same⟩]
      rfl
  · simp [note] at plain

theorem laidOut_plain {rest : List Stmt} (plain : isNote stmt = false) (noted : Noted isPrint stmt)
    (inner : ∀ body, stmt.blocks = some body → LaidOut isPrint padding body)
    (behind : LaidOut isPrint padding rest) : LaidOut isPrint padding (stmt :: rest) := by
  intro depth lastLine trail spaces ends
  obtain ⟨gap, text, entries, gapSpaces, same, tail, -⟩ :=
    behind depth stmt.line trail spaces ends.tail
  obtain ⟨_, lays⟩ := lays_plain plain noted inner depth gapSpaces
  rcases (noted_iff stmt).mp noted with ⟨note, -⟩ | ⟨-, directive, -⟩
  · simp [note] at plain
  · refine ⟨'\n' :: margin padding depth, _, _, margin_spaces padding depth, ?_, lays.append tail,
      by simp, fun _ _ _ => rfl⟩
    rw [blockLines, directive.lineText_eq, List.append_assoc, same]
    simp

theorem laidOut (padding : Int) (stmts : List Stmt) (noted : AllNoted isPrint stmts)
    (apart : Apart stmts) : LaidOut isPrint padding stmts := by
  induction stmts using Stmt.forest_induction with
  | nil =>
    intro depth lastLine trail spaces ends
    exact ⟨trail, [], [], spaces, by simp [blockLines], .nil, fun _ => rfl, nofun⟩
  | cons stmt rest inner ih =>
    obtain ⟨first, apartInner, apartRest⟩ := apart
    have behind := ih noted.2 apartRest
    cases note : isNote stmt with
    | true => exact laidOut_note note noted.1 first behind
    | false =>
      refine laidOut_plain note noted.1 (fun body inside => ?_) behind
      rcases (noted_iff stmt).mp noted.1 with ⟨note', -⟩ | ⟨-, -, -, notedInner⟩
      · simp [note] at note'
      · exact inner body inside (notedInner body inside)
          ((stmtApart_iff stmt).mp apartInner body inside)

/-- The configuration itself, with whitespace behind it that ends the last comment. -/
theorem lays_build_notes (indent : Int) (noted : AllNoted isPrint stmts) (apart : Apart stmts)
    {trail : Text} (spaces : Spaces trail) (ends : EndsNote stmts trail) :
    ∃ lead text entries, Spaces lead ∧ build isPrint stmts indent false ++ trail = lead ++ text ∧
      Lays true text (noteKeys stmts) entries := by
  obtain ⟨lead, text, entries, leadSpaces, same, lays, nothing, breaks⟩ :=
    laidOut indent stmts noted apart 0 0 trail spaces ends
  cases stmts with
  | nil => exact ⟨lead, text, entries, leadSpaces, same, lays⟩
  | cons first rest =>
    by_cases fresh : isNote first = true ∧ first.line = 0
    · refine ⟨lead, text, entries, leadSpaces, ?_, lays⟩
      rw [← same, build_lines, blockLines, lineText_note fresh.1, lineText_note fresh.1, noteLead,
        noteLead, if_pos fresh.2, if_pos fresh.2]
    · have written : ¬ (enquote isPrint first.directive = ['#'] ∧ first.line = 0) := by
        rintro ⟨hash, line⟩
        exact fresh ⟨by simpa [isNote] using (eq_of_enquote_eq (by decide) hash).1, line⟩
      have head := breaks first rfl fresh
      cases lead with
      | nil => cases head
      | cons c lead =>
        rw [blockLines_build indent rest written] at same
        exact ⟨lead, text, entries, fun x mem => leadSpaces x (List.mem_cons_of_mem _ mem),
          (List.cons.inj same).2, lays⟩

theorem lex_notes (indent : Int) (noted : AllNoted isPrint stmts) (apart : Apart stmts)
    (closed : ∀ last ∈ stmts.getLast?, isNote last = false) :
    ∃ tokens, Returns (build isPrint stmts indent false) none tokens ∧
      tokens.map tokenKey = noteKeys stmts := by
  have ends : EndsNote stmts [] := by
    intro last mem note
    simp [closed last mem] at note
  obtain ⟨lead, text, entries, spaces, same, lays⟩ :=
    lays_build_notes indent noted apart (show Spaces [] from nofun) ends
  have free : LuaFree false entries := by simpa using luaFree_of_true (lays.luaFree [] trivial)
  have lexed := lex_luaFree spaces lays.gaps lays.separated free
  rwa [lays.text_eq, ← same, List.append_nil, lays.keys_eq] at lexed

/-! ## A comment at the end -/

theorem build_concat (isPrint : Char → Bool) (indent : Int) (front : List Stmt)
    (note : isNote stmt = true) : ∃ lead, Spaces lead ∧
      build isPrint (front ++ [stmt]) indent false =
        build isPrint front indent false ++ lead ++ '#' :: stmt.comment ∧
      (stmt.line ≠ lineAfter front 0 → front ≠ [] → lead.head? = some '\n') := by
  cases front with
  | nil =>
    refine ⟨noteLead indent stmt true 0 0, noteLead_spaces _ _ _ _ _, ?_, by simp⟩
    rw [List.nil_append, build_lines, lineText_note note]
    simp [blockLines, build, buildBlock]
  | cons first rest =>
    refine ⟨noteLead indent stmt false 0 (lineAfter rest first.line), noteLead_spaces _ _ _ _ _,
      ?_, ?_⟩
    · rw [List.cons_append, build_lines, build_lines, blockLines_append, blockLines,
        lineText_note note]
      simp [blockLines]
    · intro other _
      rw [lineAfter_cons] at other
      rw [noteLead, if_neg other]
      rfl

theorem apart_concat {front : List Stmt} (apart : Apart (front ++ [stmt])) :
    Apart front ∧ ∀ last ∈ front.getLast?, adjoin last stmt = false := by
  induction front with
  | nil => exact ⟨trivial, nofun⟩
  | cons first rest ih =>
    obtain ⟨fresh, inner, others⟩ := apart
    obtain ⟨apartRest, last⟩ := ih others
    cases rest with
    | nil => exact ⟨⟨nofun, inner, trivial⟩, by simpa using fresh⟩
    | cons next rest => exact ⟨⟨fresh, inner, apartRest⟩, last⟩

theorem noted_append {first second : List Stmt} :
    AllNoted isPrint (first ++ second) ↔ AllNoted isPrint first ∧ AllNoted isPrint second := by
  induction first with
  | nil => simp [AllNoted]
  | cons stmt first ih => simp [AllNoted, ih, and_assoc]

/-- The line break after the last comment is missing, and the lexer reads on for it. -/
theorem last_note_diverges (indent : Int) {front : List Stmt} (note : isNote stmt = true)
    (noted : AllNoted isPrint (front ++ [stmt])) (apart : Apart (front ++ [stmt])) :
    ¬ Halts step (start (build isPrint (front ++ [stmt]) indent false)) := by
  obtain ⟨apartFront, fresh⟩ := apart_concat apart
  obtain ⟨notedFront, notedLast, -⟩ := noted_append.mp noted
  obtain ⟨trail, spaces, built, breaks⟩ := build_concat isPrint indent front note
  have oneLine : '\n' ∉ stmt.comment := by
    rcases (noted_iff stmt).mp notedLast with ⟨-, -, -, oneLine⟩ | ⟨plain, -⟩
    · exact oneLine
    · simp [note] at plain
  have ends : EndsNote front trail := by
    intro last mem noteLast
    have apartLast := fresh last mem
    refine breaks (fun same => ?_) (by rintro rfl; cases mem)
    have line : lineAfter front 0 = last.line := by rw [lineAfter, mem]; rfl
    simp [adjoin, note, noteLast, same, line] at apartLast
  obtain ⟨lead, text, entries, leadSpaces, same, lays⟩ :=
    lays_build_notes indent notedFront apartFront spaces ends
  have free : LuaFree false entries := by simpa using luaFree_of_true (lays.luaFree [] trivial)
  rw [built, same, List.append_assoc]
  have stuck : Leads step (start (lead ++ (text ++ '#' :: stmt.comment))) Trapped := by
    refine (at_gap leadSpaces (start_at _)).trans fun t at_ => ?_
    rw [← lays.text_eq] at at_
    refine (at_layout (.inl rfl) lays.separated free lays.gaps at_).trans fun t reached => ?_
    obtain ⟨d, at_⟩ := reached
    obtain ⟨tokens, line, n, -, edge⟩ := step_dispatch (by decide) at_
    have run : Leads step ⟨⟨['#'], tokens, line, d⟩, ⟨stmt.comment ++ [], n⟩, .comment n⟩
        fun t => t.iter.input = [] ∧ t.lexer.tokens = tokens ∧ t.point = .comment n :=
      EnquoteWords.comment_open _ oneLine
    rw [List.append_nil] at run
    refine Leads.next edge (run.trans fun t read => .here ⟨read.1, ?_⟩)
    rw [read.2.2]
    trivial
  obtain ⟨t, path, trapped⟩ := stuck
  rw [halts_of_reaches path]
  exact not_halts_of_trapped trapped

/-! ## What the tokens derive -/

mutual

def sketchStmt : Stmt → Stmt
  | ⟨directive, _, _, args, comment, _, none⟩ =>
    ⟨directive, [], 0, args, if directive = ['#'] then comment else [], [], none⟩
  | ⟨directive, _, _, args, comment, _, some body⟩ =>
    ⟨directive, [], 0, args, if directive = ['#'] then comment else [], [], some (sketch body)⟩
termination_by structural stmt => stmt

/-- A forest with nothing but its directives, arguments, comments and blocks. -/
def sketch : List Stmt → List Stmt
  | [] => []
  | stmt :: rest => sketchStmt stmt :: sketch rest
termination_by structural stmts => stmts

end

theorem sketchStmt_eq (stmt : Stmt) : sketchStmt stmt =
    ⟨stmt.directive, [], 0, stmt.args, if isNote stmt then stmt.comment else [], [],
      stmt.blocks.map sketch⟩ := by
  rcases stmt with ⟨_, _, _, _, _, _, _ | body⟩ <;> simp [sketchStmt, isNote]

theorem notes_sketch (stmts : List Stmt) : notes (sketch stmts) = notes stmts := by
  induction stmts using Stmt.forest_induction with
  | nil => rfl
  | cons stmt rest inner ih =>
    rw [sketch, notes, notes, ih, stmtNotes_eq, stmtNotes_eq, sketchStmt_eq]
    rcases stmt with ⟨name, _, _, _, _, _, _ | body⟩
    · by_cases note : name = ['#'] <;> simp [isNote, note]
    · by_cases note : name = ['#'] <;> simp [isNote, note, inner body rfl]

theorem outline_strip_sketch (stmts : List Stmt) :
    outline (strip (sketch stmts)) = outline (strip stmts) := by
  induction stmts using Stmt.forest_induction with
  | nil => rfl
  | cons stmt rest inner ih =>
    have same : isNote (sketchStmt stmt) = isNote stmt := by rw [sketchStmt_eq]; rfl
    rw [sketch, strip, strip, same]
    split
    · exact ih
    · rw [outline, outline, ih, outlineStmt_eq, outlineStmt_eq, stripStmt_eq, stripStmt_eq,
        sketchStmt_eq]
      rcases stmt with ⟨_, _, _, _, _, _, _ | body⟩
      · rfl
      · simp [inner body rfl]

theorem sketch_bare (stmts : List Stmt) : sketch (bare stmts) = sketch stmts := by
  induction stmts using Stmt.forest_induction with
  | nil => rfl
  | cons stmt rest inner ih =>
    rw [bare, sketch, sketch, ih, sketchStmt_eq, sketchStmt_eq, bareStmt_eq]
    rcases stmt with ⟨_, _, _, _, _, _, _ | body⟩
    · rfl
    · simp [isNote, inner body rfl]

theorem patterned_sketch {env : ParseEnv} (stmts : List Stmt) :
    Patterned env (sketch stmts) ↔ Patterned env stmts := by
  induction stmts using Stmt.forest_induction with
  | nil => rfl
  | cons stmt rest inner ih =>
    rw [sketch, Patterned, Patterned, ih, stmtPatterned_iff, stmtPatterned_iff, sketchStmt_eq]
    rcases stmt with ⟨_, _, _, _, _, _, _ | body⟩
    · simp [HasPattern]
    · simp [HasPattern, inner body rfl]

/-- Tokens with the keys of a forest derive a forest of the same sketch. -/
theorem exists_noted_nodes (filename : Text) (stmts : List Stmt) (noted : AllNoted isPrint stmts) :
    ∀ tokens, tokens.map tokenKey = noteKeys stmts → ∃ nodes, flatten nodes = tokens ∧
      sketch (written filename true nodes) = sketch stmts := by
  induction stmts using Stmt.forest_induction with
  | nil =>
    intro tokens same
    exact ⟨[], (List.map_eq_nil_iff.mp same).symm, rfl⟩
  | cons stmt rest inner ih =>
    intro tokens same
    obtain ⟨front, back, rfl, frontKeys, backKeys⟩ := List.map_eq_append_iff.mp same
    obtain ⟨nodes, rfl, restSketch⟩ := ih noted.2 back backKeys
    have first := noted.1
    rcases stmt with ⟨name, _, _, args, comment, _, _ | body⟩
    · rcases first with ⟨rfl, rfl, oneLine⟩ | ⟨plain, plains⟩
      · obtain ⟨token, rfl, key⟩ := List.map_eq_singleton_iff.mp frontKeys
        obtain ⟨line, rfl⟩ := token_of_key key
        refine ⟨.comment ⟨⟨'#' :: comment, line, false⟩, rfl, rfl⟩ :: nodes, rfl, ?_⟩
        simp [written, Node.stmts, sketch, sketchStmt, restSketch]
      · rw [stmtNoteKeys, if_neg plain.ne_hash] at frontKeys
        obtain ⟨directive, words, line, rfl, rfl, rfl⟩ :=
          exists_simple plain.toPlainWord plains frontKeys
        refine ⟨.simple directive (words.map .word) line :: nodes, by rw [flatten], ?_⟩
        simp [written, Node.stmts, sketch, stmtOf_words filename words none plain.notIf,
          commentsOf_words, sketchStmt, plain.ne_hash, restSketch]
    · obtain ⟨plain, plains, notedBody⟩ := first
      obtain ⟨directive, words, openLine, closeLine, bodyTokens, tokens_eq, bodyKeys, rfl, rfl⟩ :=
        exists_block plain.toPlainWord plains frontKeys
      obtain ⟨bodyNodes, derived, bodySketch⟩ := inner body rfl notedBody bodyTokens bodyKeys
      refine ⟨.block directive (words.map .word) openLine bodyNodes closeLine :: nodes,
        by rw [flatten, tokens_eq bodyNodes derived], ?_⟩
      simp [written, Node.stmts, sketch, stmtOf_words filename words _ plain.notIf,
        commentsOf_words, sketchStmt, plain.ne_hash, bodySketch, restSketch]

/-! ## Comments that become one -/

/-- A comment with another one behind it. -/
def absorb (stmt next : Stmt) : Stmt :=
  { stmt with comment := stmt.comment ++ " #".toList ++ next.comment }

theorem absorb_line (stmt next : Stmt) : (absorb stmt next).line = stmt.line := rfl

theorem isNote_absorb (stmt next : Stmt) : isNote (absorb stmt next) = isNote stmt := rfl

/-- A comment in front of statements takes in a comment of its line. -/
def takeIn (stmt : Stmt) : List Stmt → List Stmt
  | [] => [stmt]
  | next :: rest => if adjoin stmt next then absorb stmt next :: rest else stmt :: next :: rest

mutual

def mergeStmt : Stmt → Stmt
  | ⟨directive, filename, line, args, comment, includes, none⟩ =>
    ⟨directive, filename, line, args, comment, includes, none⟩
  | ⟨directive, filename, line, args, comment, includes, some body⟩ =>
    ⟨directive, filename, line, args, comment, includes, some (merge body)⟩
termination_by structural stmt => stmt

/-- The forest whose comments are those that are written. -/
def merge : List Stmt → List Stmt
  | [] => []
  | stmt :: rest => takeIn (mergeStmt stmt) (merge rest)
termination_by structural stmts => stmts

end

theorem mergeStmt_eq (stmt : Stmt) :
    mergeStmt stmt = { stmt with blocks := stmt.blocks.map merge } := by
  rcases stmt with ⟨_, _, _, _, _, _, _ | body⟩ <;> rfl

theorem isNote_mergeStmt (stmt : Stmt) : isNote (mergeStmt stmt) = isNote stmt := by
  rw [mergeStmt_eq]
  rfl

theorem takeIn_cases (stmt : Stmt) (rest : List Stmt) :
    (∃ next others, rest = next :: others ∧ adjoin stmt next = true ∧
      takeIn stmt rest = absorb stmt next :: others) ∨
    ((∀ next ∈ rest.head?, adjoin stmt next = false) ∧ takeIn stmt rest = stmt :: rest) := by
  cases rest with
  | nil => exact .inr ⟨nofun, rfl⟩
  | cons next rest =>
    cases both : adjoin stmt next with
    | true => exact .inl ⟨next, rest, rfl, both, by rw [takeIn, if_pos both]⟩
    | false => exact .inr ⟨by simpa using both, by rw [takeIn, if_neg (by simp [both])]⟩

theorem adjoin_iff {stmt next : Stmt} : adjoin stmt next = true ↔
    isNote stmt = true ∧ isNote next = true ∧ stmt.line = next.line := by
  simp [adjoin, and_assoc]

theorem lineText_merge (inner : ∀ body, stmt.blocks = some body → ∀ depth lastLine,
      blockLines isPrint padding (merge body) depth lastLine =
        blockLines isPrint padding body depth lastLine) (first : Bool) (depth lastLine : Nat) :
    lineText isPrint padding (mergeStmt stmt) first depth lastLine =
      lineText isPrint padding stmt first depth lastLine := by
  have built : buildStmt isPrint padding (mergeStmt stmt) depth =
      buildStmt isPrint padding stmt depth := by
    rcases stmt with ⟨name, filename, line, args, comment, includes, _ | body⟩
    · rfl
    · rw [mergeStmt, buildStmt, buildStmt, buildBlock_lines _ _ _ (by simp),
        buildBlock_lines _ _ _ (by simp), inner body rfl]
  rw [lineText, lineText, built, mergeStmt_eq]

/-- Two comments of one line are written as one. -/
theorem lineText_adjoin {next : Stmt} (both : adjoin stmt next = true) (first : Bool)
    (depth lastLine : Nat) :
    lineText isPrint padding (absorb stmt next) first depth lastLine =
      lineText isPrint padding stmt first depth lastLine ++
        lineText isPrint padding next false depth stmt.line := by
  obtain ⟨note, noteNext, line⟩ := adjoin_iff.mp both
  have noteBoth : isNote (absorb stmt next) = true := note
  rw [lineText_note note, lineText_note noteNext, lineText_note noteBoth, noteLead, noteLead,
    noteLead, if_pos line.symm]
  simp [absorb]

theorem blockLines_takeIn (stmt : Stmt) (rest : List Stmt) (depth lastLine : Nat) :
    blockLines isPrint padding (takeIn stmt rest) depth lastLine =
      blockLines isPrint padding (stmt :: rest) depth lastLine := by
  rcases takeIn_cases stmt rest with ⟨next, others, rfl, both, same⟩ | ⟨-, same⟩
  · rw [same, blockLines, blockLines, blockLines, lineText_adjoin both, List.append_assoc,
      absorb_line, (adjoin_iff.mp both).2.2]
  · rw [same]

theorem build_takeIn (indent : Int) (stmt : Stmt) (rest : List Stmt) :
    build isPrint (takeIn stmt rest) indent false =
      lineText isPrint indent stmt true 0 0 ++ blockLines isPrint indent rest 0 stmt.line := by
  rcases takeIn_cases stmt rest with ⟨next, others, rfl, both, same⟩ | ⟨-, same⟩
  · rw [same, build_lines, lineText_adjoin both, blockLines, List.append_assoc, absorb_line,
      (adjoin_iff.mp both).2.2]
  · rw [same, build_lines]

theorem blockLines_merge (stmts : List Stmt) (depth lastLine : Nat) :
    blockLines isPrint padding (merge stmts) depth lastLine =
      blockLines isPrint padding stmts depth lastLine := by
  induction stmts using Stmt.forest_induction generalizing depth lastLine with
  | nil => rfl
  | cons stmt rest inner ih =>
    rw [merge, blockLines_takeIn, blockLines, blockLines, lineText_merge inner, ih, mergeStmt_eq]

theorem build_merge (isPrint : Char → Bool) (indent : Int) (stmts : List Stmt) :
    build isPrint (merge stmts) indent false = build isPrint stmts indent false := by
  cases stmts with
  | nil => rfl
  | cons stmt rest =>
    rw [merge, build_takeIn, build_lines, blockLines_merge,
      lineText_merge fun body _ => blockLines_merge body, mergeStmt_eq]

theorem noted_takeIn {rest : List Stmt} (noted : Noted isPrint stmt)
    (others : AllNoted isPrint rest) : AllNoted isPrint (takeIn stmt rest) := by
  rcases takeIn_cases stmt rest with ⟨next, others', rfl, both, same⟩ | ⟨-, same⟩
  · obtain ⟨note, noteNext, -⟩ := adjoin_iff.mp both
    rw [same]
    refine ⟨(noted_iff _).mpr (.inl ?_), others.2⟩
    rcases (noted_iff stmt).mp noted with ⟨-, args, blocks, oneLine⟩ | ⟨plain, -⟩
    · rcases (noted_iff next).mp others.1 with ⟨-, -, -, oneLine'⟩ | ⟨plain, -⟩
      · exact ⟨note, args, blocks, by simp [absorb, oneLine, oneLine']⟩
      · simp [noteNext] at plain
    · simp [note] at plain
  · rw [same]
    exact ⟨noted, others⟩

theorem noted_merge (stmts : List Stmt) (noted : AllNoted isPrint stmts) :
    AllNoted isPrint (merge stmts) := by
  induction stmts using Stmt.forest_induction with
  | nil => trivial
  | cons stmt rest inner ih =>
    refine noted_takeIn ?_ (ih noted.2)
    rw [noted_iff, isNote_mergeStmt, mergeStmt_eq]
    rcases (noted_iff stmt).mp noted.1 with ⟨note, args, blocks, oneLine⟩ |
      ⟨plain, directive, args, within⟩
    · exact .inl ⟨note, args, by rw [blocks]; rfl, oneLine⟩
    · refine .inr ⟨plain, directive, args, fun body inside => ?_⟩
      obtain ⟨body', inside', rfl⟩ := Option.map_eq_some_iff.mp inside
      exact inner body' inside' (within body' inside')

theorem apart_takeIn {rest : List Stmt} (inner : StmtApart stmt) (apart : Apart rest) :
    Apart (takeIn stmt rest) := by
  rcases takeIn_cases stmt rest with ⟨next, others, rfl, both, same⟩ | ⟨fresh, same⟩
  · obtain ⟨note, noteNext, line⟩ := adjoin_iff.mp both
    obtain ⟨fresh, -, others'⟩ := apart
    rw [same]
    refine ⟨fun later mem => ?_, (stmtApart_iff _).mpr ((stmtApart_iff stmt).mp inner), others'⟩
    have apartNext := fresh later mem
    simpa [adjoin, isNote_absorb, absorb_line, note, noteNext, line] using apartNext
  · rw [same]
    exact ⟨fresh, inner, apart⟩

theorem apart_merge (stmts : List Stmt) : Apart (merge stmts) := by
  induction stmts using Stmt.forest_induction with
  | nil => trivial
  | cons stmt rest inner ih =>
    refine apart_takeIn ((stmtApart_iff _).mpr fun body inside => ?_) ih
    rw [mergeStmt_eq] at inside
    obtain ⟨body', inside', rfl⟩ := Option.map_eq_some_iff.mp inside
    exact inner body' inside'

theorem length_notes_takeIn (stmt : Stmt) (rest : List Stmt) :
    (notes (takeIn stmt rest)).length ≤ (notes (stmt :: rest)).length ∧
      ((notes (takeIn stmt rest)).length = (notes (stmt :: rest)).length →
        takeIn stmt rest = stmt :: rest) := by
  rcases takeIn_cases stmt rest with ⟨next, others, rfl, both, same⟩ | ⟨-, same⟩
  · obtain ⟨note, noteNext, -⟩ := adjoin_iff.mp both
    have fewer : (notes (stmt :: next :: others)).length =
        (notes (absorb stmt next :: others)).length + 1 := by
      simp only [notes, stmtNotes_eq, isNote_absorb, note, noteNext, if_true, List.length_append,
        List.length_singleton]
      omega
    rw [same]
    exact ⟨by omega, fun equal => by omega⟩
  · rw [same]
    exact ⟨le_rfl, fun _ => rfl⟩

/-- Comments get fewer wherever two become one. -/
theorem length_notes_merge (stmts : List Stmt) (noted : AllNoted isPrint stmts) :
    (notes (merge stmts)).length ≤ (notes stmts).length ∧
      ((notes (merge stmts)).length = (notes stmts).length → merge stmts = stmts) := by
  induction stmts using Stmt.forest_induction with
  | nil => exact ⟨le_rfl, fun _ => rfl⟩
  | cons stmt rest inner ih =>
    have within : (stmtNotes (mergeStmt stmt)).length ≤ (stmtNotes stmt).length ∧
        ((stmtNotes (mergeStmt stmt)).length = (stmtNotes stmt).length →
          mergeStmt stmt = stmt) := by
      have first := noted.1
      rcases stmt with ⟨name, _, _, _, _, _, _ | body⟩
      · exact ⟨le_rfl, fun _ => rfl⟩
      · obtain ⟨plain, -, notedBody⟩ := first
        obtain ⟨shorter, exact_⟩ := inner body rfl notedBody
        rw [mergeStmt, stmtNotes, stmtNotes, if_neg plain.ne_hash, if_neg plain.ne_hash]
        exact ⟨shorter, fun equal => by rw [exact_ equal]⟩
    obtain ⟨shorter, exact_⟩ := length_notes_takeIn (mergeStmt stmt) (merge rest)
    obtain ⟨shorterRest, exactRest⟩ := ih noted.2
    rw [merge]
    simp only [notes, List.length_append] at shorter exact_ ⊢
    refine ⟨by omega, fun equal => ?_⟩
    rw [exact_ (by omega), within.2 (by omega), exactRest (by omega)]

theorem patterned_merge {env : ParseEnv} (stmts : List Stmt) (patterned : Patterned env stmts) :
    Patterned env (merge stmts) := by
  induction stmts using Stmt.forest_induction with
  | nil => trivial
  | cons stmt rest inner ih =>
    obtain ⟨first, others⟩ := patterned
    have merged : StmtPatterned env (mergeStmt stmt) := by
      rcases stmt with ⟨_, _, _, _, _, _, _ | body⟩
      · exact first
      · exact ⟨first.1, inner body rfl first.2⟩
    rw [merge]
    rcases takeIn_cases (mergeStmt stmt) (merge rest) with
      ⟨next, behind, found, -, same⟩ | ⟨-, same⟩
    · have later := ih others
      rw [found] at later
      rw [same]
      exact ⟨(stmtPatterned_iff _).mpr ((stmtPatterned_iff (mergeStmt stmt)).mp merged), later.2⟩
    · rw [same]
      exact ⟨merged, ih others⟩

/-- Whether the forest ends in a comment. -/
def endsInNote (stmts : List Stmt) : Bool := (stmts.getLast?.map isNote).getD false

theorem getLast_cons_note (stmt : Stmt) (rest : List Stmt) :
    (stmt :: rest).getLast?.map isNote = some ((rest.getLast?.map isNote).getD (isNote stmt)) := by
  cases last : rest.getLast? <;> simp [List.getLast?_cons, last]

theorem getLast_merge (stmts : List Stmt) :
    (merge stmts).getLast?.map isNote = stmts.getLast?.map isNote := by
  induction stmts with
  | nil => rfl
  | cons stmt rest ih =>
    rw [merge, getLast_cons_note, ← ih]
    rcases takeIn_cases (mergeStmt stmt) (merge rest) with
      ⟨next, others, found, both, same⟩ | ⟨-, same⟩
    · obtain ⟨note, noteNext, -⟩ := adjoin_iff.mp both
      rw [same, found, getLast_cons_note, getLast_cons_note, isNote_absorb, note, noteNext]
      rfl
    · rw [same, getLast_cons_note, isNote_mergeStmt]

/-! ## The round trip -/

/-- Lexing what is built ends, and parsing the tokens gives the same statements and the same
comments. -/
def CommentsSurvive (isPrint : Char → Bool) (stmts : List Stmt) (indent : Int) (filename : Text)
    (env : ParseEnv) (ctx : List Text) (st : Shared) : Prop :=
  ∃ tokens, (∃ enough, ∀ fuel, enough ≤ fuel →
      lex fuel (build isPrint stmts indent false) filename = some (.ok tokens)) ∧
    ∃ parsed st', parseTokens env ctx tokens st = .ok (parsed, [], st') ∧
      outline (strip parsed) = outline (strip stmts) ∧ notes parsed = notes stmts

section
variable {env : ParseEnv} {indent : Int} {filename : Text} {ctx : List Text} {st : Shared}

/-- Comments that are apart are all read back, if none is at the end. -/
theorem apart_read_back (indent : Int) (filename : Text) (quiet : Quiet env)
    (kept : env.opts.comments = true) (ctx : List Text) (st : Shared)
    (noted : AllNoted isPrint stmts) (patterned : Patterned env stmts) (apart : Apart stmts)
    (closed : endsInNote stmts = false) :
    ∃ tokens, (∃ enough, ∀ fuel, enough ≤ fuel →
        lex fuel (build isPrint stmts indent false) filename = some (.ok tokens)) ∧
      ∃ parsed st', parseTokens env ctx tokens st = .ok (parsed, [], st') ∧
        sketch parsed = sketch stmts := by
  have last : ∀ last ∈ stmts.getLast?, isNote last = false := by
    intro last mem
    rw [endsInNote, mem] at closed
    exact closed
  obtain ⟨tokens, returns, same⟩ := lex_notes indent noted apart last
  obtain ⟨nodes, rfl, sketched⟩ := exists_noted_nodes env.filename stmts noted tokens same
  refine ⟨_, lex_of_returns returns (balanceBraces_flatten nodes filename), ?_⟩
  have found : Patterned env (written env.filename env.opts.comments nodes) := by
    rw [kept, ← patterned_sketch, sketched, patterned_sketch]
    exact patterned
  have reads := reads_flatten .done nodes found
  rw [List.append_nil] at reads
  obtain ⟨parsed, st', parse, agrees⟩ := parse_of_reads quiet reads _ ctx st (Nat.lt_succ_self _)
  exact ⟨parsed, st', parse, by rw [← sketch_bare, agrees.bare_eq, kept, sketched]⟩

theorem not_endsInNote (noted : AllNoted isPrint stmts) (apart : Apart stmts)
    {fuel : Nat} {tokens : List Token}
    (lexed : lex fuel (build isPrint stmts indent false) filename = some (.ok tokens)) :
    endsInNote stmts = false := by
  rcases List.eq_nil_or_concat stmts with rfl | ⟨front, last, rfl⟩
  · rfl
  · rw [List.concat_eq_append] at noted apart lexed ⊢
    rw [endsInNote, List.getLast?_concat]
    by_contra note
    obtain ⟨t, path, returned, -⟩ := returns_of_lex lexed
    refine last_note_diverges indent (by simpa using note) noted apart ⟨t, path, ?_⟩
    rw [step, returned]

end

/-- Comments survive exactly if none is at the end and none follows another one of its line. -/
theorem comments_survive_iff (isPrint : Char → Bool) (stmts : List Stmt)
    (noted : AllNoted isPrint stmts) (indent : Int) (filename : Text) (env : ParseEnv)
    (quiet : Quiet env) (kept : env.opts.comments = true) (patterned : Patterned env stmts)
    (ctx : List Text) (st : Shared) :
    CommentsSurvive isPrint stmts indent filename env ctx st ↔
      Apart stmts ∧ endsInNote stmts = false := by
  have last : endsInNote (merge stmts) = endsInNote stmts := by
    rw [endsInNote, endsInNote, getLast_merge]
  constructor
  · rintro ⟨tokens, ⟨enough, lexed⟩, parsed, st', parse, -, same⟩
    have closed : endsInNote (merge stmts) = false := by
      have lexedMerged := lexed enough le_rfl
      rw [← build_merge] at lexedMerged
      exact not_endsInNote (noted_merge stmts noted) (apart_merge stmts) lexedMerged
    refine ⟨?_, last ▸ closed⟩
    -- what is read back are the comments of the merged forest
    obtain ⟨tokens', ⟨enough', lexed'⟩, parsed', st'', parse', sketched⟩ :=
      apart_read_back indent filename quiet kept ctx st (noted_merge stmts noted)
        (patterned_merge stmts patterned) (apart_merge stmts) closed
    have again := lexed' (max enough enough') (le_max_right _ _)
    rw [build_merge, lexed _ (le_max_left _ _)] at again
    cases again
    rw [parse] at parse'
    cases parse'
    have merged : notes (merge stmts) = notes stmts := by
      rw [← notes_sketch, ← sketched, notes_sketch, same]
    rw [← (length_notes_merge stmts noted).2 (by rw [merged])]
    exact apart_merge stmts
  · rintro ⟨apart, closed⟩
    obtain ⟨tokens, lexed, parsed, st', parse, sketched⟩ :=
      apart_read_back indent filename quiet kept ctx st noted patterned apart closed
    refine ⟨tokens, lexed, parsed, st', parse, ?_, ?_⟩
    · rw [← outline_strip_sketch, sketched, outline_strip_sketch]
    · rw [← notes_sketch, sketched, notes_sketch]

private def remark (line : Nat) (comment : String) : Stmt :=
  ⟨['#'], [], line, [], comment.toList, [], none⟩

private def plainStmt (line : Nat) (directive : String) : Stmt :=
  ⟨directive.toList, [], line, [], [], [], none⟩

private def commentsOn : ParseEnv :=
  ⟨fun format _ => format, ⟨.error, .error⟩, { defaultParseOpts with comments := true },
    "nginx.conf".toList⟩

private def freshState : Shared := ⟨DirectiveTable.directives, ⟨.ok, []⟩, none, [], []⟩

private def remarked : List Stmt :=
  [remark 1 " top", plainStmt 2 "daemon", remark 2 " here", remark 3 " below", plainStmt 4 "user"]

private theorem remarked_noted : AllNoted (fun _ => true) remarked :=
  ⟨.inl ⟨rfl, rfl, by simp⟩, .inr ⟨by decide +kernel, nofun⟩, .inl ⟨rfl, rfl, by simp⟩,
    .inl ⟨rfl, rfl, by simp⟩, .inr ⟨by decide +kernel, nofun⟩, trivial⟩

/-- Comments on top, behind a statement and on a line of their own. -/
theorem comments_survive_sample :
    AllNoted (fun _ => true) remarked ∧
      CommentsSurvive (fun _ => true) remarked 2 "nginx.conf".toList commentsOn [] freshState :=
  ⟨remarked_noted, (comments_survive_iff (fun _ => true) remarked remarked_noted 2 _ commentsOn
    (fun _ => rfl) rfl ⟨nofun, nofun, nofun, nofun, nofun, trivial⟩ [] freshState).mpr
    ⟨by simp [Apart, StmtApart, remarked, remark, plainStmt, adjoin, isNote], by decide⟩⟩

/-- A forest the parser returns for some file. -/
def Parsed (env : ParseEnv) (stmts : List Stmt) : Prop :=
  ∃ text fuel tokens ctx st st', lex fuel text env.file = some (.ok tokens) ∧
    parseTokens env ctx tokens st = .ok (stmts, [], st')

private def remarkedLast : List Stmt := [plainStmt 1 "user", remark 1 " last"]

private theorem remarkedLast_parsed : Parsed commentsOn remarkedLast := by
  have lexed : lex 20 "user; # last\n".toList commentsOn.file =
      some (.ok [⟨"user".toList, 1, false⟩, ⟨[';'], 1, false⟩, ⟨"# last".toList, 1, false⟩]) := by
    decide +kernel
  have run : outcome (parseTokens commentsOn [] [⟨"user".toList, 1, false⟩, ⟨[';'], 1, false⟩,
      ⟨"# last".toList, 1, false⟩] freshState) =
      .ok (remarkedLast, [], [.directiveUnknown ⟨argumentsReason, 1, commentsOn.file⟩]) := by
    decide +kernel
  obtain ⟨st', parse, -⟩ := ok_of_outcome run
  exact ⟨_, _, _, _, _, _, lexed, parse⟩

/-- The forest of `user; # last` is written without a line break at the end, and the lexer never
returns from it. -/
theorem last_comment_diverges :
    ¬ ∀ (isPrint : Char → Bool) (stmts : List Stmt) (indent : Int) (filename : Text)
      (env : ParseEnv) (ctx : List Text) (st : Shared), Parsed env stmts →
      AllNoted isPrint stmts → Quiet env → env.opts.comments = true → Patterned env stmts →
      CommentsSurvive isPrint stmts indent filename env ctx st := by
  intro survive
  have noted : AllNoted (fun _ => true) remarkedLast :=
    ⟨.inr ⟨by decide +kernel, nofun⟩, .inl ⟨rfl, rfl, by simp⟩, trivial⟩
  obtain ⟨tokens, ⟨enough, lexed⟩, -⟩ :=
    survive (fun _ => true) _ 2 "nginx.conf".toList commentsOn [] freshState remarkedLast_parsed
      noted (fun _ => rfl) rfl ⟨nofun, nofun, trivial⟩
  have apart : Apart remarkedLast := by
    simp [remarkedLast, Apart, StmtApart, remark, plainStmt, adjoin, isNote]
  exact absurd (not_endsInNote noted apart (lexed enough le_rfl)) (by decide)

end BuildComments
