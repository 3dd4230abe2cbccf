import Vince.ArgumentChecks
import Vince.ParseReads

/-!
# The calls of `analyze` in a run of the parser

A run of `parseInternal` is followed together with the calls of `analyze` it makes: `Runs` has one
rule for every way through the loop, and a parse returns something exactly if some run does. The
other effects of a run are on the work list, which it only extends.
-/

namespace AnalyzeCalls

open GoText ConfigLex DirectiveTable ConfigAnalyze ArgumentChecks ConfigParse ParseReads
open Effects (bind_eq_ok)

def callOf (env : ParseEnv) (ctx : List Text) (stmt : Stmt) (term : Token) : Call :=
  ⟨env.file, stmt, term.text, ctx, env.opts.checks⟩

/-- A run of `parseInternal` from a context, a mode, tokens and a state, with the calls of
`analyze` in their order, to what it returns. -/
inductive Runs (env : ParseEnv) : List Text → Bool → List Token → Shared → List Call →
    List Stmt → List Token → Shared → Prop
  | done {ctx : List Text} {consume : Bool} {st : Shared} :
      Runs env ctx consume [] st [] [] [] st
  | close {ctx : List Text} {consume : Bool} {token : Token} {tokens : List Token} {st : Shared}
      (closing : token.is ['}'] = true) : Runs env ctx consume (token :: tokens) st [] [] tokens st
  | braces {ctx : List Text} {token : Token} {tokens middle rest : List Token}
      {st st₁ st₂ : Shared} {inner later : List Call} {dropped parsed : List Stmt}
      (opening : token.is ['{'] = true)
      (within : Runs env [] true tokens st inner dropped middle st₁)
      (tail : Runs env ctx true middle st₁ later parsed rest st₂) :
      Runs env ctx true (token :: tokens) st (inner ++ later) parsed rest st₂
  | comment {ctx : List Text} {consume : Bool} {token : Token} {tokens rest : List Token}
      {st st₁ : Shared} {later : List Call} {parsed : List Stmt} (found : isComment token = true)
      (tail : Runs env ctx consume tokens st later parsed rest st₁) :
      Runs env ctx consume (token :: tokens) st later
        (if env.opts.comments then commentStmt env token :: parsed else parsed) rest st₁
  | ignoredBlock {ctx : List Text} {consume : Bool} {token term : Token}
      {tokens after middle rest : List Token} {st st₁ st₂ : Shared} {inner later : List Call}
      {args comments : List Text} {dropped parsed : List Stmt} (starts : Starts token)
      (plain : (consume && token.is ['{']) = false)
      (arguments : dirArgs tokens = .ok (args, comments, term, after))
      (ignored : env.ignored token.text = true) (opened : term.is ['{'] = true)
      (within : Runs env [] true after st inner dropped middle st₁)
      (tail : Runs env ctx consume middle st₁ later parsed rest st₂) :
      Runs env ctx consume (token :: tokens) st (inner ++ later) parsed rest st₂
  | ignored {ctx : List Text} {consume : Bool} {token term : Token}
      {tokens after rest : List Token} {st st₁ : Shared} {later : List Call}
      {args comments : List Text} {parsed : List Stmt} (starts : Starts token)
      (plain : (consume && token.is ['{']) = false)
      (arguments : dirArgs tokens = .ok (args, comments, term, after))
      (ignored : env.ignored token.text = true) (ended : term.is ['{'] = false)
      (tail : Runs env ctx consume after st later parsed rest st₁) :
      Runs env ctx consume (token :: tokens) st later parsed rest st₁
  | simple {ctx : List Text} {consume : Bool} {token term : Token}
      {tokens after rest : List Token} {st st₁ st₂ : Shared} {later : List Call}
      {args comments : List Text} {indices : List Nat} {parsed : List Stmt} (starts : Starts token)
      (plain : (consume && token.is ['{']) = false)
      (arguments : dirArgs tokens = .ok (args, comments, term, after))
      (kept : env.ignored token.text = false)
      (included : includeFiles env ctx (newStmt env token args)
        (checked env ctx (newStmt env token args) term st) = .ok (indices, st₁))
      (ended : term.is ['{'] = false)
      (tail : Runs env ctx consume after st₁ later parsed rest st₂) :
      Runs env ctx consume (token :: tokens) st
        (callOf env ctx (newStmt env token args) term :: later)
        ({ newStmt env token args with includes := indices } ::
          (comments.map (argComment token.line) ++ parsed)) rest st₂
  | block {ctx : List Text} {consume : Bool} {token term : Token}
      {tokens after middle rest : List Token} {st st₁ st₂ st₃ : Shared} {inner later : List Call}
      {args comments : List Text} {indices : List Nat} {body parsed : List Stmt}
      (starts : Starts token) (plain : (consume && token.is ['{']) = false)
      (arguments : dirArgs tokens = .ok (args, comments, term, after))
      (kept : env.ignored token.text = false)
      (included : includeFiles env ctx (newStmt env token args)
        (checked env ctx (newStmt env token args) term st) = .ok (indices, st₁))
      (opened : term.is ['{'] = true)
      (within : Runs env (enterBlock token.text ctx) false after st₁ inner body middle st₂)
      (tail : Runs env ctx consume middle st₂ later parsed rest st₃) :
      Runs env ctx consume (token :: tokens) st
        (callOf env ctx (newStmt env token args) term :: (inner ++ later))
        ({ newStmt env token args with includes := indices, blocks := some body } ::
          (comments.map (argComment token.line) ++ parsed)) rest st₃

variable {env : ParseEnv} {ctx : List Text} {consume : Bool} {tokens rest : List Token}
  {st st' : Shared} {log : List Call} {parsed : List Stmt} {fuel : Nat}

/-- What the parser returns, it returns by a run. -/
theorem runs_of_parse
    (parse : parseInternal env fuel ctx consume tokens st = .ok (parsed, rest, st')) :
    ∃ log, Runs env ctx consume tokens st log parsed rest st' := by
  induction fuel generalizing ctx consume tokens st parsed rest st' with
  | zero => cases parse
  | succ fuel ih =>
    cases tokens with
    | nil => cases parse; exact ⟨[], .done⟩
    | cons token tokens =>
      rw [parseInternal] at parse
      split at parse
      · rename_i closing
        cases parse
        exact ⟨[], .close closing⟩
      rename_i open_
      split at parse
      · rename_i braces
        obtain ⟨⟨dropped, middle, st₁⟩, within, parse⟩ := bind_eq_ok parse
        obtain ⟨rfl, opening⟩ := Bool.and_eq_true_iff.mp braces
        obtain ⟨inner, within⟩ := ih within
        obtain ⟨later, tail⟩ := ih parse
        exact ⟨_, .braces opening within tail⟩
      rename_i plain
      split at parse
      · rename_i found
        obtain ⟨⟨parsed', rest', st₁⟩, tail, parse⟩ := bind_eq_ok parse
        cases parse
        obtain ⟨later, tail⟩ := ih tail
        exact ⟨_, .comment found tail⟩
      rename_i found
      have starts : Starts token := ⟨by simpa using open_, by simpa using found⟩
      have plain : (consume && token.is ['{']) = false := by simpa using plain
      obtain ⟨⟨args, comments, term, after⟩, arguments, parse⟩ := bind_eq_ok parse
      dsimp only at parse
      split at parse
      · rename_i ignored
        split at parse
        · rename_i opened
          obtain ⟨⟨dropped, middle, st₁⟩, within, parse⟩ := bind_eq_ok parse
          obtain ⟨inner, within⟩ := ih within
          obtain ⟨later, tail⟩ := ih parse
          exact ⟨_, .ignoredBlock starts plain arguments ignored opened within tail⟩
        · rename_i ended
          obtain ⟨later, tail⟩ := ih parse
          exact ⟨_, .ignored starts plain arguments ignored (by simpa using ended) tail⟩
      · rename_i kept
        obtain ⟨⟨indices, st₁⟩, included, parse⟩ := bind_eq_ok parse
        obtain ⟨⟨blocks, middle, st₂⟩, block, parse⟩ := bind_eq_ok parse
        obtain ⟨⟨parsed', rest', st₃⟩, tail, parse⟩ := bind_eq_ok parse
        cases parse
        obtain ⟨later, tail⟩ := ih tail
        split at block
        · rename_i opened
          obtain ⟨⟨body, middle', st₂'⟩, within, block⟩ := bind_eq_ok block
          cases block
          obtain ⟨inner, within⟩ := ih within
          exact ⟨_, .block starts plain arguments (by simpa using kept) included opened within tail⟩
        · rename_i ended
          cases block
          exact ⟨_, .simple starts plain arguments (by simpa using kept) included
            (by simpa using ended) tail⟩

theorem opening_not_closing {token : Token} (opening : token.is ['{'] = true) :
    token.is ['}'] = false := by
  obtain ⟨text, -⟩ : token.text = ['{'] ∧ token.quote = false := by simpa [Token.is] using opening
  simp [Token.is, text]

theorem comment_not_opening {token : Token} (found : isComment token = true) :
    token.is ['{'] = false := by
  by_contra opening
  have text : token.text = ['{'] := by simp_all [Token.is]
  simp [isComment, text] at found

theorem Runs.shorter (runs : Runs env ctx consume tokens st log parsed rest st') :
    rest.length ≤ tokens.length := by
  induction runs with
  | done => exact le_rfl
  | close => simp
  | braces _ _ _ within tail => simp only [List.length_cons]; omega
  | comment _ _ tail => simp only [List.length_cons]; omega
  | ignoredBlock _ _ arguments _ _ _ _ within tail =>
    have shorter := dirArgs_shorter arguments
    simp only [List.length_cons]
    omega
  | ignored _ _ arguments _ _ _ tail =>
    have shorter := dirArgs_shorter arguments
    simp only [List.length_cons]
    omega
  | simple _ _ arguments _ _ _ _ tail =>
    have shorter := dirArgs_shorter arguments
    simp only [List.length_cons]
    omega
  | block _ _ arguments _ _ _ _ _ within tail =>
    have shorter := dirArgs_shorter arguments
    simp only [List.length_cons]
    omega

/-- Every run is one of the parser, given fuel for the tokens. -/
theorem parse_of_runs (runs : Runs env ctx consume tokens st log parsed rest st') :
    ∀ fuel, tokens.length < fuel →
      parseInternal env fuel ctx consume tokens st = .ok (parsed, rest, st') := by
  induction runs with
  | done =>
    rintro (_ | fuel) enough
    · cases enough
    · rfl
  | close closing =>
    rintro (_ | fuel) enough
    · cases enough
    · rw [parseInternal, if_pos closing]
  | braces opening within tail ihWithin ihTail =>
    rintro (_ | fuel) enough
    · cases enough
    · have shorter := within.shorter
      have open_ := opening_not_closing opening
      rw [List.length_cons] at enough
      rw [parseInternal, if_neg (by simp [open_]), if_pos (by simp [opening]),
        ihWithin fuel (by omega)]
      exact ihTail fuel (by omega)
  | @comment ctx consume token _ _ _ _ _ _ found tail ih =>
    rintro (_ | fuel) enough
    · cases enough
    · rw [List.length_cons] at enough
      have plain : (consume && token.is ['{']) = false := by
        rw [comment_not_opening found, Bool.and_false]
      rw [parseInternal, if_neg (by simp [isComment_not_is found]), if_neg (by simp [plain]),
        if_pos found, ih fuel (by omega)]
      rfl
  | ignoredBlock starts plain arguments ignored opened within tail ihWithin ihTail =>
    rintro (_ | fuel) enough
    · cases enough
    · have shorter := dirArgs_shorter arguments
      have shorter' := within.shorter
      rw [List.length_cons] at enough
      rw [parse_directive starts plain arguments, if_pos ignored, if_pos opened,
        ihWithin fuel (by omega)]
      exact ihTail fuel (by omega)
  | ignored starts plain arguments ignored ended tail ih =>
    rintro (_ | fuel) enough
    · cases enough
    · have shorter := dirArgs_shorter arguments
      rw [List.length_cons] at enough
      rw [parse_directive starts plain arguments, if_pos ignored, if_neg (by simp [ended])]
      exact ih fuel (by omega)
  | simple starts plain arguments kept included ended tail ih =>
    rintro (_ | fuel) enough
    · cases enough
    · have shorter := dirArgs_shorter arguments
      rw [List.length_cons] at enough
      rw [parse_directive starts plain arguments, if_neg (by simp [kept])]
      simp only [bind, Except.bind, included, ended, Bool.false_eq_true, if_false,
        ih fuel (by omega)]
      rfl
  | @block ctx _ token _ _ after middle _ _ st₁ st₂ _ _ _ args _ _ body _ starts plain arguments
      kept included opened within tail ihWithin ihTail =>
    rintro (_ | fuel) enough
    · cases enough
    · have shorter := dirArgs_shorter arguments
      have shorter' := within.shorter
      rw [List.length_cons] at enough
      have inner : parseInternal env fuel (enterBlock (newStmt env token args).directive ctx) false
          after st₁ = .ok (body, middle, st₂) := ihWithin fuel (by omega)
      rw [parse_directive starts plain arguments, if_neg (by simp [kept])]
      simp only [bind, Except.bind, included, opened, if_true, inner, ihTail fuel (by omega)]
      rfl

theorem parseTokens_iff_runs : parseTokens env ctx tokens st = .ok (parsed, rest, st') ↔
    ∃ log, Runs env ctx false tokens st log parsed rest st' :=
  ⟨runs_of_parse, fun ⟨_, runs⟩ => parse_of_runs runs _ (Nat.lt_succ_self _)⟩

/-- A run on a statement without arguments makes one call. -/
theorem Runs.lone {token term : Token} (starts : Starts token)
    (kept : env.ignored token.text = false) (stop : inDirArgs term = false)
    (ended : term.is ['{'] = false)
    (runs : Runs env ctx false [token, term] st log parsed rest st') :
    log = [callOf env ctx (newStmt env token []) term] := by
  have arguments : dirArgs [term] = .ok ([], [], term, []) := by
    rw [dirArgs, if_neg (by simp [stop])]
  cases runs with
  | close closing => rw [starts.1] at closing; cases closing
  | comment found => rw [starts.2] at found; cases found
  | ignoredBlock _ _ _ ignored => rw [kept] at ignored; cases ignored
  | ignored _ _ _ ignored => rw [kept] at ignored; cases ignored
  | simple _ _ found _ _ _ tail =>
    rw [arguments] at found
    cases found
    cases tail
    rfl
  | block _ _ found _ _ opened =>
    rw [arguments] at found
    cases found
    rw [ended] at opened
    cases opened

/-! ## The table and the work list after a run -/

theorem tableAfter_append (sprintf : Text → Text → Text) (table : Directives)
    (first second : List Call) : tableAfter sprintf table (first ++ second) =
      tableAfter sprintf (tableAfter sprintf table first) second :=
  List.foldl_append

theorem checked_keeps (stmt : Stmt) (term : Token) (st : Shared) :
    (checked env ctx stmt term st).includes = st.includes ∧
      (checked env ctx stmt term st).table =
        ((callOf env ctx stmt term).run env.sprintf st.table).2 := by
  simp only [checked, callOf, Call.run]
  cases (analyze env.sprintf st.table env.file stmt term.text ctx env.opts.checks).1 <;>
    exact ⟨rfl, rfl⟩

theorem addIncludes_includes (names : List Text) (st : Shared) :
    (addIncludes ctx names st).2.includes = st.includes ++ names.map (⟨·, ctx⟩) := by
  induction names generalizing st with
  | nil => exact (List.append_nil _).symm
  | cons name names ih =>
    rw [addIncludes]
    simp [ih]

theorem addIncludes_table (names : List Text) (st : Shared) :
    (addIncludes ctx names st).2.table = st.table := by
  induction names generalizing st with
  | nil => rfl
  | cons name names ih => exact ih _

/-- The include branch appends to the work list, and its indices lead to elements with the context
of the statement. -/
structure Queues (ctx : List Text) (indices : List Nat) (st st' : Shared) : Prop where
  grown : st.includes <+: st'.includes
  brought : ∀ i ∈ indices, st'.includes[i]?.map (·.ctx) = some ctx
  table_eq : st'.table = st.table

theorem includeFiles_queues {stmt : Stmt} {indices : List Nat}
    (included : includeFiles env ctx stmt st = .ok (indices, st')) :
    Queues ctx indices st st' := by
  rw [includeFiles] at included
  split at included
  · split at included
    · cases included
    · split at included
      · cases included
        exact ⟨List.prefix_rfl, fun i mem => absurd mem List.not_mem_nil, rfl⟩
      · rename_i names resolved
        obtain ⟨rfl, rfl⟩ : (addIncludes ctx names st).1 = indices ∧
            (addIncludes ctx names st).2 = st' := Prod.mk.inj (Except.ok.inj included)
        refine ⟨?_, fun i mem => ?_, addIncludes_table names st⟩
        · rw [addIncludes_includes]
          exact List.prefix_append _ _
        · rw [addIncludes_indices] at mem
          obtain ⟨k, small, rfl⟩ := List.mem_range'.mp mem
          rw [addIncludes_includes, List.getElem?_append_right (by omega)]
          simp [small]
  · cases included
    exact ⟨List.prefix_rfl, fun i mem => absurd mem List.not_mem_nil, rfl⟩

/-- The same with the analysis before it. -/
theorem queues_checked {stmt : Stmt} {term : Token} {indices : List Nat}
    (included : includeFiles env ctx stmt (checked env ctx stmt term st) = .ok (indices, st')) :
    st.includes <+: st'.includes ∧ (∀ i ∈ indices, st'.includes[i]?.map (·.ctx) = some ctx) ∧
      st'.table = ((callOf env ctx stmt term).run env.sprintf st.table).2 := by
  obtain ⟨grown, brought, table_eq⟩ := includeFiles_queues included
  have kept : (checked env ctx stmt term st).includes = st.includes ∧ _ :=
    checked_keeps stmt term st
  exact ⟨kept.1 ▸ grown, brought, table_eq.trans kept.2⟩

theorem Runs.grown (runs : Runs env ctx consume tokens st log parsed rest st') :
    st.includes <+: st'.includes := by
  induction runs with
  | done => exact List.prefix_rfl
  | close => exact List.prefix_rfl
  | braces _ _ _ within tail => exact within.trans tail
  | comment _ _ tail => exact tail
  | ignoredBlock _ _ _ _ _ _ _ within tail => exact within.trans tail
  | ignored _ _ _ _ _ _ tail => exact tail
  | simple _ _ _ _ included _ _ tail => exact (queues_checked included).1.trans tail
  | block _ _ _ _ included _ _ _ within tail =>
    exact (queues_checked included).1.trans (within.trans tail)

/-- The calls of a run, one after the other, make the directive table what it is afterwards. -/
theorem Runs.table_eq (runs : Runs env ctx consume tokens st log parsed rest st') :
    st'.table = tableAfter env.sprintf st.table log := by
  induction runs with
  | done => rfl
  | close => rfl
  | braces _ _ _ within tail => rw [tail, within, tableAfter_append]
  | comment _ _ tail => exact tail
  | ignoredBlock _ _ _ _ _ _ _ within tail => rw [tail, within, tableAfter_append]
  | ignored _ _ _ _ _ _ tail => exact tail
  | simple _ _ _ _ included _ _ tail => rw [tail, (queues_checked included).2.2]; rfl
  | block _ _ _ _ included _ _ _ within tail =>
    rw [tail, within, (queues_checked included).2.2, ← tableAfter_append]
    rfl

end AnalyzeCalls
