import Vince.ConfigAnalyze

/-!
# Writing a configuration (`config_build.go`)

Quoting and the layout of statements. `strconv.IsPrint` is a parameter of quoting. The loop of
`buildBlock` appends to an output; its recursion into blocks starts from what was built of the
statement so far.
-/

namespace ConfigBuild

open GoText ConfigLex ConfigAnalyze

/-- The loop of `escape` after a rune `prev`; at the end `prev` is the last rune of the text. -/
def escapeFrom : Char → Text → Text
  | prev, [] => if prev = '\\' ∨ prev = '$' then [prev] else []
  | prev, ch :: rest =>
    if prev = '\\' ∨ (ch = '{' ∧ prev = '$') then prev :: ch :: escapeFrom ch rest
    else (if prev = '$' then [prev] else []) ++
      (if ch ≠ '\\' ∧ ch ≠ '$' then [ch] else []) ++ escapeFrom ch rest

def escape (src : Text) : Text := escapeFrom nul src

def check01 (ch : Char) : Bool :=
  isSpace ch || ch = '{' || ch = '}' || ch = ';' || ch = '"' || ch = '\''

/-- `rest` is what the iterator has still to come, for `peek`. -/
def check002 (rest : Text) (ch : Char) (expanding : Bool) : Bool :=
  if expanding then ch = '$' && rest.headD nul = '$' else ch = '}'

def check003 (rest : Text) (ch : Char) (expanding : Bool) : Bool :=
  if expanding then ch = '}' else ch = '$' && rest.headD nul = '$'

/-- The loop of `needsQuote`. At its end the rune read is the zero rune. -/
def quoteLoop : Bool → Text → Bool
  | expanding, [] => expanding
  | expanding, ch :: rest =>
    if check01 ch then true
    else if check002 rest ch expanding then true
    else quoteLoop (if check003 rest ch expanding then !expanding else expanding) rest

def needsQuote (s : Text) : Bool :=
  if s = [] then true
  else match escape s with
    | [] => false
    | ch :: rest =>
      if isSpace ch then true
      else if ch = '{' ∨ ch = '}' ∨ ch = ';' ∨ ch = '"' ∨ ch = '\'' then true
      else if ch = '$' ∧ rest.headD nul = '{' then true
      else quoteLoop false rest

/-- `strings.Replace` of four backslashes by two. -/
def halveSlashes : Text → Text
  | '\\' :: '\\' :: '\\' :: '\\' :: rest => '\\' :: '\\' :: halveSlashes rest
  | c :: rest => c :: halveSlashes rest
  | [] => []

def enquote (isPrint : Char → Bool) (arg : Text) : Text :=
  if needsQuote arg then quote isPrint (halveSlashes arg) else arg

def margin (padding : Int) (depth : Nat) : Text := List.replicate (padding * depth).toNat ' '

/-- `luaLexer.build`. -/
def luaBuild (buf directive : Text) (args : List Text) : Text :=
  if directive = setByLuaBlock then
    buf ++ directive ++ (match args with
      | [] => []
      | [a] => ' ' :: a
      | a :: b :: _ => ' ' :: a ++ " \x7b".toList ++ b ++ ['}'])
  else
    buf ++ directive ++ (match args with
      | [] => []
      | a :: _ => " \x7b".toList ++ a ++ ['}'])

/-- A statement up to its terminator. -/
def buildHead (isPrint : Char → Bool) (directive : Text) (args : List Text) : Text :=
  let quoted := args.map (enquote isPrint)
  if directive = "if".toList then " if".toList ++ join [' '] quoted ++ [')']
  else if quoted ≠ [] then directive ++ ' ' :: join [' '] quoted
  else directive

mutual

/-- What the loop builds for one statement that does not continue a line. -/
def buildStmt (isPrint : Char → Bool) (padding : Int) : Stmt → Nat → Text
  | ⟨name, _, _, args, comment, _, none⟩, _ =>
    let directive := enquote isPrint name
    if directive = ['#'] then " #".toList ++ comment
    else if luaDirectives.contains directive then luaBuild [] name args
    else buildHead isPrint directive args ++ [';']
  | ⟨name, _, line, args, comment, _, some body⟩, depth =>
    let directive := enquote isPrint name
    if directive = ['#'] then " #".toList ++ comment
    else if luaDirectives.contains directive then luaBuild [] name args
    else
      buildBlock isPrint padding body (buildHead isPrint directive args ++ " \x7b".toList)
        (depth + 1) line ++ '\n' :: margin padding depth ++ ['}']
termination_by structural stmt => stmt

def buildBlock (isPrint : Char → Bool) (padding : Int) : List Stmt → Text → Nat → Nat → Text
  | [], output, _, _ => output
  | stmt :: rest, output, depth, lastLine =>
    if enquote isPrint stmt.directive = ['#'] ∧ stmt.line = lastLine then
      buildBlock isPrint padding rest (output ++ " #".toList ++ stmt.comment) depth lastLine
    else
      let output := if output ≠ [] then output ++ ['\n'] else output
      buildBlock isPrint padding rest
        (output ++ margin padding depth ++ buildStmt isPrint padding stmt depth) depth stmt.line
termination_by structural stmts => stmts

end

def headerText : Text :=
  ("# This config was built from JSON using NGINX crossplane.\n\t\t" ++
    "# If you encounter any bugs please report them here:\n\t\t" ++
    "# https://github.com/nginxinc/crossplane/issues\n\t\t").toList

def build (isPrint : Char → Bool) (p : List Stmt) (indent : Int) (header : Bool) : Text :=
  buildBlock isPrint indent p (if header then headerText else []) 0 0

/-! ## Statement by statement -/

/-- What one round of the loop appends, behind other output or first of all. -/
def lineText (isPrint : Char → Bool) (padding : Int) (stmt : Stmt) (first : Bool)
    (depth lastLine : Nat) : Text :=
  if enquote isPrint stmt.directive = ['#'] ∧ stmt.line = lastLine then
    " #".toList ++ stmt.comment
  else
    (if first then [] else ['\n']) ++ margin padding depth ++ buildStmt isPrint padding stmt depth

/-- What the loop appends to other output. -/
def blockLines (isPrint : Char → Bool) (padding : Int) : List Stmt → Nat → Nat → Text
  | [], _, _ => []
  | stmt :: rest, depth, lastLine =>
    lineText isPrint padding stmt false depth lastLine ++
      blockLines isPrint padding rest depth stmt.line

/-- The line of the last statement, on which the next comment may follow. -/
def lineAfter (stmts : List Stmt) (lastLine : Nat) : Nat :=
  (stmts.getLast?.map (·.line)).getD lastLine

theorem lineAfter_cons (stmt : Stmt) (rest : List Stmt) (lastLine : Nat) :
    lineAfter (stmt :: rest) lastLine = lineAfter rest stmt.line := by
  cases last : rest.getLast? <;> simp [lineAfter, List.getLast?_cons, last]

theorem blockLines_append (isPrint : Char → Bool) (padding : Int) (first second : List Stmt)
    (depth lastLine : Nat) : blockLines isPrint padding (first ++ second) depth lastLine =
      blockLines isPrint padding first depth lastLine ++
        blockLines isPrint padding second depth (lineAfter first lastLine) := by
  induction first generalizing lastLine with
  | nil => rfl
  | cons stmt first ih =>
    rw [List.cons_append, blockLines, blockLines, ih, List.append_assoc, lineAfter_cons]

theorem buildStmt_ne_nil (isPrint : Char → Bool) (padding : Int) (stmt : Stmt) (depth : Nat) :
    buildStmt isPrint padding stmt depth ≠ [] := by
  have lua (name : Text) (args : List Text)
      (custom : luaDirectives.contains (enquote isPrint name) = true) :
      luaBuild [] name args ≠ [] := by
    have named : name ≠ [] := by
      rintro rfl
      have quoted : enquote isPrint [] = ['"', '"'] := rfl
      rw [quoted] at custom
      exact absurd custom (by decide +kernel)
    unfold luaBuild
    split <;> simp [named]
  rcases stmt with ⟨name, filename, line, args, comment, includes, _ | body⟩
  · rw [buildStmt]
    split
    · simp
    split
    · exact lua name args ‹_›
    · simp
  · rw [buildStmt]
    split
    · simp
    split
    · exact lua name args ‹_›
    · simp

theorem lineText_ne_nil (isPrint : Char → Bool) (padding : Int) (stmt : Stmt) (first : Bool)
    (depth lastLine : Nat) : lineText isPrint padding stmt first depth lastLine ≠ [] := by
  unfold lineText
  split
  · simp
  · simp [buildStmt_ne_nil]

theorem buildBlock_cons (isPrint : Char → Bool) (padding : Int) (stmt : Stmt) (rest : List Stmt)
    (output : Text) (depth lastLine : Nat) :
    buildBlock isPrint padding (stmt :: rest) output depth lastLine =
      buildBlock isPrint padding rest
        (output ++ lineText isPrint padding stmt (output = []) depth lastLine) depth stmt.line := by
  rw [buildBlock, lineText]
  split
  · rename_i appended
    rw [List.append_assoc, ← appended.2]
  · by_cases empty : output = [] <;> simp [empty]

theorem buildBlock_lines (isPrint : Char → Bool) (padding : Int) (stmts : List Stmt)
    {output : Text} (built : output ≠ []) (depth lastLine : Nat) :
    buildBlock isPrint padding stmts output depth lastLine =
      output ++ blockLines isPrint padding stmts depth lastLine := by
  induction stmts generalizing output lastLine with
  | nil => rw [buildBlock, blockLines, List.append_nil]
  | cons stmt rest ih =>
    rw [buildBlock_cons, ih (by simp [built]), blockLines, decide_eq_false built,
      List.append_assoc]

theorem build_lines (isPrint : Char → Bool) (indent : Int) (stmt : Stmt) (rest : List Stmt) :
    build isPrint (stmt :: rest) indent false =
      lineText isPrint indent stmt true 0 0 ++ blockLines isPrint indent rest 0 stmt.line := by
  rw [build, buildBlock_cons]
  exact buildBlock_lines isPrint indent rest (lineText_ne_nil isPrint indent stmt true 0 0) 0
    stmt.line

/-- Behind other output a configuration only gets a line of its own. -/
theorem blockLines_build (indent : Int) {stmt : Stmt} (rest : List Stmt)
    (fresh : ¬ (enquote isPrint stmt.directive = ['#'] ∧ stmt.line = 0)) :
    blockLines isPrint indent (stmt :: rest) 0 0 =
      '\n' :: build isPrint (stmt :: rest) indent false := by
  rw [build_lines, blockLines, lineText, if_neg fresh, lineText, if_neg fresh]
  rfl

/-! ## What a word is written with -/

/-- Escaping drops no rune: a backslash or dollar sign is only held back by one. -/
theorem mem_escapeFrom_prev {prev : Char} (held : prev = '\\' ∨ prev = '$') (s : Text) :
    prev ∈ escapeFrom prev s := by
  cases s with
  | nil => simp [escapeFrom, held]
  | cons ch rest =>
    rw [escapeFrom]
    split
    · exact List.mem_cons_self
    · rename_i other
      have dollar : prev = '$' := held.resolve_left fun slash => other (.inl slash)
      simp [dollar]

theorem mem_escapeFrom {c : Char} {s : Text} (prev : Char) (mem : c ∈ s) :
    c ∈ escapeFrom prev s := by
  induction s generalizing prev with
  | nil => cases mem
  | cons ch rest ih =>
    have first : ch ∈ escapeFrom prev (ch :: rest) := by
      rw [escapeFrom]
      split
      · simp
      · by_cases held : ch = '\\' ∨ ch = '$'
        · exact List.mem_append_right _ (mem_escapeFrom_prev held rest)
        · rw [not_or] at held
          simp [held]
    have others : c ∈ rest → c ∈ escapeFrom prev (ch :: rest) := by
      intro later
      rw [escapeFrom]
      split
      · exact List.mem_cons_of_mem _ (List.mem_cons_of_mem _ (ih ch later))
      · exact List.mem_append_right _ (ih ch later)
    rcases List.mem_cons.mp mem with rfl | later
    · exact first
    · exact others later

theorem quoteLoop_false {expanding : Bool} {s : Text} (bare : quoteLoop expanding s = false) :
    ∀ c ∈ s, check01 c = false := by
  induction s generalizing expanding with
  | nil => nofun
  | cons ch rest ih =>
    rw [quoteLoop] at bare
    split at bare
    · cases bare
    · rename_i clean
      split at bare
      · cases bare
      · exact List.forall_mem_cons.mpr ⟨by simpa using clean, ih bare⟩

/-- A word written without quotes is not empty and holds nothing the lexer stops at. -/
theorem needsQuote_false {s : Text} (bare : needsQuote s = false) :
    s ≠ [] ∧ ∀ c ∈ s, check01 c = false := by
  rw [needsQuote] at bare
  split at bare
  · cases bare
  · rename_i nonempty
    refine ⟨nonempty, fun c mem => ?_⟩
    have escaped : c ∈ escape s := mem_escapeFrom nul mem
    cases written : escape s with
    | nil => simp [written] at escaped
    | cons ch rest =>
      rw [written] at bare escaped
      dsimp only at bare
      split at bare
      · cases bare
      rename_i noSpace
      split at bare
      · cases bare
      rename_i noStop
      split at bare
      · cases bare
      have all : ∀ c ∈ ch :: rest, check01 c = false := by
        refine List.forall_mem_cons.mpr ⟨?_, quoteLoop_false bare⟩
        simpa [check01, noSpace, and_assoc] using noStop
      exact all c escaped

end ConfigBuild
