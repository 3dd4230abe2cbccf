import Vince.ConfigLex
import Vince.DirectiveTable

/-!
# Statements and their analysis (`config_parse.go`, `config_analyze.go`)

`analyze` reports misuse of a directive and never stops the parser. The table of the
directives is program state: a call that reaches the argument check reverses the masks
of its directive in place. `fmt.Sprintf` with one string argument is a parameter, since
an argument of the configuration can end up inside the format.
-/

namespace ConfigAnalyze

open GoText ConfigLex DirectiveTable

/-- `Stmt`. `blocks` is `none` for a nil slice; `Includes` is nil exactly when empty. -/
structure Stmt where
  directive : Text
  filename : Text
  line : Nat
  args : List Text
  comment : Text
  includes : List Nat
  blocks : Option (List Stmt)

/-- Induction over a forest: the block of the first statement, then the others. -/
theorem Stmt.forest_induction {motive : List Stmt → Prop} (nil : motive [])
    (cons : ∀ stmt rest, (∀ body, stmt.blocks = some body → motive body) → motive rest →
      motive (stmt :: rest)) (stmts : List Stmt) : motive stmts :=
  @Stmt.rec_2 (fun stmt => ∀ body, stmt.blocks = some body → motive body)
    (fun blocks => ∀ body, blocks = some body → motive body) motive
    (fun _ _ _ _ _ _ _ inner => inner) (by simp)
    (fun _ inner _ same => Option.some.inj same ▸ inner) nil cons stmts

mutual

def Stmt.decEq : (a b : Stmt) → Decidable (a = b)
  | ⟨directive, filename, line, args, comment, includes, none⟩, b =>
    decidable_of_iff (directive = b.directive ∧ filename = b.filename ∧ line = b.line ∧
      args = b.args ∧ comment = b.comment ∧ includes = b.includes ∧ b.blocks.isNone = true) (by
        rcases b with ⟨_, _, _, _, _, _, _ | _⟩ <;> simp)
  | ⟨_, _, _, _, _, _, some _⟩, ⟨_, _, _, _, _, _, none⟩ => isFalse (by simp)
  | ⟨directive, filename, line, args, comment, includes, some body⟩,
    ⟨directive', filename', line', args', comment', includes', some body'⟩ =>
    have := Stmt.decEqList body body'
    decidable_of_iff (directive = directive' ∧ filename = filename' ∧ line = line' ∧
      args = args' ∧ comment = comment' ∧ includes = includes' ∧ body = body') (by simp)
termination_by structural a => a

def Stmt.decEqList : (a b : List Stmt) → Decidable (a = b)
  | [], [] => isTrue rfl
  | [], _ :: _ => isFalse nofun
  | _ :: _, [] => isFalse nofun
  | a :: as, b :: bs =>
    have := Stmt.decEq a b
    have := Stmt.decEqList as bs
    decidable_of_iff (a = b ∧ as = bs) (by simp)
termination_by structural a => a

end

instance : DecidableEq Stmt := Stmt.decEq

inductive ConfigError where
  | ngx (err : NgxError)
  | directiveUnknown (err : NgxError)
  | lex (err : LexError)
  | fileSystem (message : Text)
  deriving DecidableEq, Repr

def toCtx (s : List Text) : Text := join [','] s

def contexts : List (Text × Mask) := [
  (toCtx [], ngxMainConf),
  (toCtx ["events".toList], ngxEventConf),
  (toCtx ["mail".toList], ngxMailMainConf),
  (toCtx ["mail".toList, "server".toList], ngxMailSrvConf),
  (toCtx ["stream".toList], ngxStreamMainConf),
  (toCtx ["stream".toList, "server".toList], ngxStreamSrvConf),
  (toCtx ["stream".toList, "upstream".toList], ngxStreamUpsConf),
  (toCtx ["http".toList], ngxHttpMainConf),
  (toCtx ["http".toList, "server".toList], ngxHttpSrvConf),
  (toCtx ["http".toList, "location".toList], ngxHttpLocConf),
  (toCtx ["http".toList, "upstream".toList], ngxHttpUpsConf),
  (toCtx ["http".toList, "server".toList, "if".toList], ngxHttpSifConf),
  (toCtx ["http".toList, "location".toList, "if".toList], ngxHttpLifConf),
  (toCtx ["http".toList, "location".toList, "limit_except".toList], ngxHttpLmtConf),
  (toCtx ["http".toList, "oauth2".toList], ngxHttpOauth2Conf)]

def validFlag (s : Text) : Bool :=
  let lower := s.map Char.toLower
  lower = "on".toList || lower = "off".toList

/-- The test of one mask against the number of arguments. -/
def admitsArgs (mask : Mask) (args : List Text) : Bool :=
  let n := args.length
  ((mask >>> n) &&& 1 ≠ 0 && n ≤ 7) ||
    (mask &&& ngxConfFlag ≠ 0 && n = 1 && validFlag (args.headD [])) ||
    (mask &&& ngxConfAny ≠ 0) ||
    (mask &&& ngxConf1More ≠ 0 && n ≥ 1) ||
    (mask &&& ngxConf2More ≠ 0 && n ≥ 2)

def noOpeningReason : Text := "directive %q has no opening \x7b".toList
def notTerminatedReason : Text := "directive %q is not terminated by ;".toList
def argumentsReason : Text := "invalid number of arguments in %q directive".toList
def flagReason (value : Text) : Text :=
  "invalid value ".toList ++ value ++ " in %s directive ,it must be on or off".toList

/-- The loop over the masks: the reasons against each, or `none` when one admits the
statement. -/
def reasons (args : List Text) (term : Text) : List Mask → Option (List Text)
  | [] => some []
  | mask :: masks =>
    if mask &&& ngxConfBlock ≠ 0 ∧ term ≠ ['{'] then
      (reasons args term masks).map (noOpeningReason :: ·)
    else if mask &&& ngxConfBlock = 0 ∧ term ≠ [';'] then
      (reasons args term masks).map (notTerminatedReason :: ·)
    else if admitsArgs mask args then none
    else if mask &&& ngxConfFlag ≠ 0 ∧ args.length = 1 ∧ validFlag (args.headD []) = false then
      (reasons args term masks).map (flagReason (args.headD []) :: ·)
    else (reasons args term masks).map (argumentsReason :: ·)

/-- Every reason is rendered from the first one, which is itself overwritten. -/
def renderReasons (sprintf : Text → Text → Text) (directive : Text) : List Text → List Text
  | [] => []
  | first :: rest =>
    let rendered := sprintf first directive
    rendered :: rest.map (fun _ => sprintf rendered directive)

/-- `reverse(masks)`, which changes the shared table. -/
def reverseMasks (directive : Text) (table : Directives) : Directives :=
  table.map fun (name, masks) =>
    (name, if name = String.ofList directive then masks.reverse else masks)

/-- The context check as written: `pass` starts as true and nothing resets it. -/
def allowedHere (masks : List Mask) (ctxMask : Mask) : Bool :=
  masks.foldl (fun pass mask => if mask &&& ctxMask ≠ 0 then true else pass) true

structure Checks where
  strict : Bool
  checkCtx : Bool
  checkArgs : Bool

/-- `analyze`: the error, if any, and the table it leaves behind. -/
def analyze (sprintf : Text → Text → Text) (table : Directives) (filename : Text) (stmt : Stmt)
    (term : Text) (ctx : List Text) (checks : Checks) : Option ConfigError × Directives :=
  let masks := table.lookup (String.ofList stmt.directive)
  if checks.strict && masks.isNone then
    (some (.directiveUnknown
      ⟨sprintf "unknown directive %q".toList stmt.directive, stmt.line, filename⟩), table)
  else match contexts.lookup (toCtx ctx), masks with
    | some ctxMask, some masks =>
      if checks.checkCtx && !allowedHere masks ctxMask then
        (some (.directiveUnknown
          ⟨sprintf "%q directive is not allowed here".toList stmt.directive, stmt.line, filename⟩),
          table)
      else if !checks.checkArgs then (none, table)
      else
        let table := reverseMasks stmt.directive table
        match reasons stmt.args term masks.reverse with
        | none | some [] => (none, table)
        | some found =>
          (some (.directiveUnknown
            ⟨join [','] (renderReasons sprintf stmt.directive found), stmt.line, filename⟩), table)
    | _, _ => (none, table)

end ConfigAnalyze
