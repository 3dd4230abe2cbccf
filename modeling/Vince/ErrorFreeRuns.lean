import Vince.AnalyzeCalls
import Vince.BuildComments
import Vince.PayloadIndices

/-!
# What a parse without errors leaves behind

Lines, comments and file names reach the parser's state only through the errors it reports. A parse
that reports none therefore leaves a state that is given by the directives, arguments and blocks it
found: `Follows` says how. Two files of the same outline lead to the same state, if one of them is
parsed without an error and the other has its terminators in place.
-/

namespace ErrorFreeRuns

open GoText ConfigLex DirectiveTable ConfigAnalyze ArgumentChecks ConfigParse ParseReads
  ParseForest ParseSoundness AnalyzeCalls BuildRoundTrip BuildComments
open PayloadIndices (errors_addAll)

variable {env : ParseEnv} {ctx : List Text} {consume : Bool} {tokens rest : List Token}
  {st st₁ st₂ st' : Shared} {log : List Call} {parsed : List Stmt} {stmt stmt' : Stmt}
  {term term' : Token} {indices : List Nat}

/-- No error was reported for the file so far. -/
def Clean (st : Shared) : Prop := st.parsing.errors = []

theorem Clean.before (clean : Clean st') (reports : Reports st st') : Clean st := by
  obtain ⟨errors, parsing, -⟩ := reports
  rw [Clean, parsing, errors_addAll, List.append_eq_nil_iff] at clean
  exact clean.1

/-! ## One statement -/

theorem reports_includeFiles (ran : includeFiles env ctx stmt st = .ok (indices, st')) :
    Reports st st' := by
  by_cases pattern : HasPattern env stmt
  · obtain ⟨indices', st'', run, appends⟩ : ∃ indices' st'', includeFiles env ctx stmt st =
        .ok (indices', st'') ∧ Appends env stmt indices' st st'' := includeFiles_ok stmt pattern st
    rw [ran] at run
    cases run
    exact appends.reports
  · rw [includeFiles_error stmt pattern st] at ran
    cases ran

theorem reports_visit
    (ran : includeFiles env ctx stmt (checked env ctx stmt term st) = .ok (indices, st')) :
    Reports st st' :=
  (reports_checked stmt st).trans (reports_includeFiles ran)

/-! ## Forests -/

/-- The parser's way through the statements of a forest, by state: the analysis and the include
branch of each statement, then its block. -/
inductive Follows (env : ParseEnv) : List Text → List Stmt → Shared → Shared → Prop
  | nil {ctx : List Text} {st : Shared} : Follows env ctx [] st st
  | simple {ctx : List Text} {stmt : Stmt} {rest : List Stmt} {st st₁ st₂ : Shared}
      {indices : List Nat} (none : stmt.blocks = none)
      (ran : includeFiles env ctx stmt (checked env ctx stmt (semicolon 0) st) =
        .ok (indices, st₁))
      (tail : Follows env ctx rest st₁ st₂) : Follows env ctx (stmt :: rest) st st₂
  | block {ctx : List Text} {stmt : Stmt} {rest body : List Stmt} {st st₁ st₂ st₃ : Shared}
      {indices : List Nat} (some : stmt.blocks = some body)
      (ran : includeFiles env ctx stmt (checked env ctx stmt (openBrace 0) st) =
        .ok (indices, st₁))
      (within : Follows env (enterBlock stmt.directive ctx) body st₁ st₂)
      (tail : Follows env ctx rest st₂ st₃) : Follows env ctx (stmt :: rest) st st₃

theorem Follows.reports {stmts : List Stmt} (follows : Follows env ctx stmts st st') :
    Reports st st' := by
  induction follows with
  | nil => exact .of_eq rfl rfl
  | simple _ ran _ tail => exact (reports_visit ran).trans tail
  | block _ ran _ _ within tail => exact (reports_visit ran).trans (within.trans tail)

theorem Runs.reports (quiet : Quiet env)
    (runs : Runs env ctx false tokens st log parsed rest st') : Reports st st' := by
  obtain ⟨stmts, -, numbers⟩ := parseTokens_numbers quiet (parseTokens_iff_runs.mpr ⟨log, runs⟩)
  exact numbers.reports

section
variable {token : Token} {args : List Text} {blocks : Option (List Stmt)}

end

end ErrorFreeRuns
