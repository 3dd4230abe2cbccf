import Vince.ConfigInclude

/-!
# The entries of a payload and the indices into them

While `parse` walks its work list, each file parsed appends names to it and gets an entry of
`Config`. The indices in the statements are places on the work list, handed out before there is
an entry for them. Whatever the file system does, they lead to the right entries in the end,
and the reports of the entries add up to the report of the payload. Combining the entries into
one comes after this.
-/

namespace PayloadIndices

open GoText ConfigLex DirectiveTable ConfigAnalyze ConfigParse ParseReads ConfigInclude
open StateTransition

variable {env : ParseEnv} {sys : System} {opts : ParseOpts} {stmt : Stmt} {stmts : List Stmt}

/-! ## Statements at any depth -/

/-- The statement stands in the forest, at any depth. -/
inductive Occurs (stmt : Stmt) : List Stmt → Prop where
  | here {stmts : List Stmt} (mem : stmt ∈ stmts) : Occurs stmt stmts
  | inside {outer : Stmt} {stmts body : List Stmt} (mem : outer ∈ stmts)
      (block : outer.blocks = some body) (deeper : Occurs stmt body) : Occurs stmt stmts

theorem not_occurs_nil : ¬ Occurs stmt [] := by
  intro occurs
  cases occurs with
  | here mem => cases mem
  | inside mem => cases mem

theorem occurs_cons {first : Stmt} (occurs : Occurs stmt (first :: stmts)) :
    stmt = first ∨ (∃ body, first.blocks = some body ∧ Occurs stmt body) ∨ Occurs stmt stmts := by
  cases occurs with
  | here mem =>
    rcases List.mem_cons.mp mem with same | mem
    · exact .inl same
    · exact .inr (.inr (.here mem))
  | inside mem block deeper =>
    rcases List.mem_cons.mp mem with rfl | mem
    · exact .inr (.inl ⟨_, block, deeper⟩)
    · exact .inr (.inr (.inside mem block deeper))

/-- Consecutive places lead to consecutive elements. -/
theorem map_range'_getElem? {α : Type} (before found after : List α) :
    (List.range' before.length found.length).map ((before ++ found ++ after)[·]?) =
      found.map some := by
  induction found generalizing before with
  | nil => rfl
  | cons a found ih =>
    have rest := ih (before ++ [a])
    rw [List.length_append, List.length_singleton, List.append_assoc before [a] found,
      List.singleton_append] at rest
    rw [List.length_cons, List.range'_succ, List.map_cons, List.map_cons, rest]
    congr 1
    simp

/-- The indices of a statement lead to the names it resolved to, in their order. -/
def Designates (env : ParseEnv) (names : List Text) (stmt : Stmt) : Prop :=
  stmt.includes.map (names[·]?) = (named env stmt.directive stmt.args).map some

theorem number_designates (stmts : List Stmt) (before after : List Text)
    (occurs : Occurs stmt (number env before.length stmts)) :
    Designates env (before ++ includeNames env stmts ++ after) stmt := by
  induction stmts using Stmt.forest_induction generalizing before after with
  | nil => exact (not_occurs_nil occurs).elim
  | cons first rest body tail =>
    rw [includeNames, stmtNames_eq]
    rcases occurs_cons occurs with rfl | ⟨list, block, deeper⟩ | later
    · have places := map_range'_getElem? before (named env first.directive first.args)
        ((first.blocks.map (includeNames env)).getD [] ++ includeNames env rest ++ after)
      rw [Designates, numberStmt_eq]
      simpa only [List.append_assoc] using places
    · rw [numberStmt_eq] at block
      obtain ⟨inner, blocks, rfl⟩ := Option.map_eq_some_iff.mp block
      rw [← List.length_append] at deeper
      have found := body inner blocks (before ++ named env first.directive first.args)
        (includeNames env rest ++ after) deeper
      rw [blocks]
      simpa only [Option.map_some, Option.getD_some, List.append_assoc] using found
    · rw [← List.length_append] at later
      have found := tail (before ++ stmtNames env first) after later
      rw [stmtNames_eq] at found
      simpa only [List.append_assoc] using found

mutual

/-- The indices in a forest, a statement's own before those of its block. -/
def indices : List Stmt → List Nat
  | [] => []
  | stmt :: rest => stmtIndices stmt ++ indices rest
termination_by structural stmts => stmts

def stmtIndices : Stmt → List Nat
  | ⟨_, _, _, _, _, includes, none⟩ => includes
  | ⟨_, _, _, _, _, includes, some body⟩ => includes ++ indices body
termination_by structural stmt => stmt

end

theorem stmtIndices_eq (stmt : Stmt) :
    stmtIndices stmt = stmt.includes ++ (stmt.blocks.map indices).getD [] := by
  rcases stmt with ⟨_, _, _, _, _, _, _ | body⟩ <;> simp [stmtIndices]

theorem indices_number (k : Nat) (stmts : List Stmt) :
    indices (number env k stmts) = List.range' k (includeNames env stmts).length := by
  induction stmts using Stmt.forest_induction generalizing k with
  | nil => rfl
  | cons stmt rest body tail =>
    rw [number, indices, tail, stmtIndices_eq, numberStmt_eq, includeNames, List.length_append,
      ← List.range'_append_1, stmtNames_eq]
    congr 1
    cases blocks : stmt.blocks with
    | none => simp
    | some list =>
      simp only [Option.map_some, Option.getD_some, body list blocks, List.length_append]
      rw [← List.range'_append_1]

def entryIndices : Option ParsingContext → List Nat
  | none => []
  | some parsing => indices parsing.parsed

theorem range'_grow {n m : Nat} (started : 0 < n) :
    List.range' 1 (n - 1) ++ List.range' n m = List.range' 1 (n + m - 1) := by
  obtain ⟨n, rfl⟩ := Nat.exists_eq_succ_of_ne_zero (Nat.pos_iff_ne_zero.mp started)
  have total : n + 1 + m - 1 = n + m := by omega
  rw [total, ← List.range'_append_1, Nat.add_comm 1 n]
  rfl

/-! ## Reports -/

/-- The status tells whether there are errors. -/
def Honest (r : Report) : Prop := r.status = .failed ↔ r.errors ≠ []

theorem errors_addAll (r : Report) (errors : List ConfigError) :
    (addAll r errors).errors = r.errors ++ errors := by
  induction errors generalizing r with
  | nil => exact (List.append_nil _).symm
  | cons err errors ih =>
    refine (ih (r.add err)).trans ?_
    simp [Report.add]

theorem honest_add (r : Report) (err : ConfigError) : Honest (r.add err) := by
  simp [Honest, Report.add]

theorem Honest.addAll {r : Report} (honest : Honest r) (errors : List ConfigError) :
    Honest (addAll r errors) := by
  induction errors generalizing r with
  | nil => exact honest
  | cons err errors ih => exact ih (honest_add r err)

/-! ## One round of the loop -/

/-- The file fails to open or to lex. -/
def Unreadable (sys : System) (name : Text) : Prop :=
  (∃ message, sys.fs.openFile name = .error message) ∨
    ∃ text err, sys.fs.openFile name = .ok text ∧ lex sys.lexFuel text name = some (.error err)

/-- The file opens and lexes, and these are the statements in it. -/
def ReadsFile (sys : System) (opts : ParseOpts) (name : Text) (stmts : List Stmt) : Prop :=
  ∃ text tokens rest, sys.fs.openFile name = .ok text ∧
    lex sys.lexFuel text name = some (.ok tokens) ∧ Reads (sys.env opts name) tokens stmts rest

theorem readable_of_lexed {name text : Text} {tokens : List Token}
    (opens : sys.fs.openFile name = .ok text)
    (lexed : lex sys.lexFuel text name = some (.ok tokens)) : ¬ Unreadable sys name := by
  rintro (⟨message, fails⟩ | ⟨text', err, opens', fails⟩)
  · rw [opens] at fails
    cases fails
  · rw [opens] at opens'
    cases opens'
    rw [lexed] at fails
    cases fails

theorem ReadsFile.readable {name : Text} (reads : ReadsFile sys opts name stmts) :
    ¬ Unreadable sys name := by
  obtain ⟨text, tokens, rest, opens, lexed, -⟩ := reads
  exact readable_of_lexed opens lexed

/-- The entry is that of the file: nil exactly if the file cannot be read. -/
def EntryOf (sys : System) (name : Text) : Option ParsingContext → Prop
  | none => Unreadable sys name
  | some parsing => ¬ Unreadable sys name ∧ parsing.file = name

/-- What a round that does not panic can do. -/
theorem round_cases {loop loop' : Loop}
    (round : loopStep sys opts (.running loop) = some (.running loop')) :
    ∃ f, loop.shared.includes[loop.idx]? = some f ∧
      ((Unreadable sys f.name ∧ ∃ err, loop' =
          ⟨{ loop.shared with handler := loop.shared.handler.map (·.add err) }, loop.idx + 1,
            loop.config ++ [none]⟩) ∨
        (∃ text tokens parsed rest st, sys.fs.openFile f.name = .ok text ∧
          lex sys.lexFuel text f.name = some (.ok tokens) ∧
          parseTokens (sys.env opts f.name) f.ctx tokens
            { loop.shared with parsing := ⟨.ok, []⟩ } = .ok (parsed, rest, st) ∧
          loop' = ⟨st, loop.idx + 1,
            loop.config ++ [some ⟨f.name, st.parsing, parsed⟩]⟩)) := by
  rw [loopStep] at round
  split at round
  · cases round
  next f current =>
  refine ⟨f, current, ?_⟩
  cases opens : sys.fs.openFile f.name with
  | error message =>
    simp only [parseInclude, opens] at round
    cases round
    exact .inl ⟨.inl ⟨message, opens⟩, _, rfl⟩
  | ok text =>
    cases lexed : lex sys.lexFuel text f.name with
    | none =>
      simp only [parseInclude, opens, lexed] at round
      cases round
    | some result =>
      cases result with
      | error err =>
        simp only [parseInclude, opens, lexed] at round
        cases round
        exact .inl ⟨.inr ⟨text, err, opens, lexed⟩, _, rfl⟩
      | ok tokens =>
        cases parse : parseTokens (sys.env opts f.name) f.ctx tokens
            { loop.shared with parsing := ⟨.ok, []⟩ } with
        | error fault =>
          simp only [parseInclude, opens, lexed, parse] at round
          cases round
        | ok result =>
          obtain ⟨parsed, rest, st⟩ := result
          simp only [parseInclude, opens, lexed, parse] at round
          cases round
          exact .inr ⟨text, tokens, parsed, rest, st, rfl, lexed, parse, rfl⟩

theorem loopStep_cases (quiet : QuietOpts opts) {loop loop' : Loop}
    (round : loopStep sys opts (.running loop) = some (.running loop')) :
    ∃ f, loop.shared.includes[loop.idx]? = some f ∧
      ((Unreadable sys f.name ∧ ∃ err, loop' =
          ⟨{ loop.shared with handler := loop.shared.handler.map (·.add err) }, loop.idx + 1,
            loop.config ++ [none]⟩) ∨
        (∃ st parsed stmts, ReadsFile sys opts f.name stmts ∧
          Numbers (sys.env opts f.name) parsed stmts { loop.shared with parsing := ⟨.ok, []⟩ } st ∧
          loop' = ⟨st, loop.idx + 1,
            loop.config ++ [some ⟨f.name, st.parsing, parsed⟩]⟩)) := by
  obtain ⟨f, current, unread | ⟨text, tokens, parsed, rest, st, opens, lexed, parse, same⟩⟩ :=
    round_cases round
  · exact ⟨f, current, .inl unread⟩
  · obtain ⟨stmts, reads, numbers⟩ := parseTokens_numbers (quiet.env sys f.name) parse
    exact ⟨f, current, .inr ⟨st, parsed, stmts, ⟨text, tokens, rest, opens, lexed, reads⟩, numbers,
      same⟩⟩

/-! ## What holds along a run -/

/-- The statements of an entry have the places of their names for indices. -/
def Numbered (sys : System) (opts : ParseOpts) (names : List Text) (parsing : ParsingContext) :
    Prop :=
  ∃ before stmts after, ReadsFile sys opts parsing.file stmts ∧
    names = before ++ includeNames (sys.env opts parsing.file) stmts ++ after ∧
    parsing.parsed = number (sys.env opts parsing.file) before.length stmts

structure Consistent (sys : System) (opts : ParseOpts) (loop : Loop) : Prop where
  idx_eq : loop.idx = loop.config.length
  bounded : loop.config.length ≤ (Shared.names loop.shared).length
  entries : ∀ (i : Nat) (entry : Option ParsingContext), loop.config[i]? = some entry →
    ∃ name, (Shared.names loop.shared)[i]? = some name ∧ EntryOf sys name entry
  numbered : ∀ parsing, some parsing ∈ loop.config →
    Numbered sys opts (Shared.names loop.shared) parsing
  handed : loop.config.flatMap entryIndices =
    List.range' 1 ((Shared.names loop.shared).length - 1)
  reports : ∃ r, loop.shared.handler = some r ∧ Honest r ∧
    ∀ parsing, some parsing ∈ loop.config →
      Honest parsing.report ∧ parsing.report.errors.Sublist r.errors

theorem consistent_start (table : Directives) (filename : Text) :
    Consistent sys opts (firstLoop table filename) where
  idx_eq := rfl
  bounded := Nat.zero_le _
  entries := by
    intro i entry found
    cases found
  numbered := by
    intro parsing mem
    cases mem
  handed := rfl
  reports := by
    refine ⟨⟨.ok, []⟩, rfl, by simp [Honest], ?_⟩
    intro parsing mem
    cases mem

theorem Numbered.grow {names : List Text} {parsing : ParsingContext}
    (numbered : Numbered sys opts names parsing) (more : List Text) :
    Numbered sys opts (names ++ more) parsing := by
  obtain ⟨before, stmts, after, reads, rfl, same⟩ := numbered
  exact ⟨before, stmts, after ++ more, reads, by simp only [List.append_assoc], same⟩

theorem entries_grow {loop : Loop} {f : FileCtx} {entry : Option ParsingContext}
    (consistent : Consistent sys opts loop)
    (current : loop.shared.includes[loop.idx]? = some f) (holds : EntryOf sys f.name entry)
    (more : List Text) (i : Nat) (entry' : Option ParsingContext)
    (found : (loop.config ++ [entry])[i]? = some entry') :
    ∃ name, (Shared.names loop.shared ++ more)[i]? = some name ∧ EntryOf sys name entry' := by
  have here : (Shared.names loop.shared)[loop.config.length]? = some f.name := by
    rw [← consistent.idx_eq, Shared.names, List.getElem?_map, current]
    rfl
  rw [List.getElem?_append] at found
  split at found
  · obtain ⟨name, place, old⟩ := consistent.entries i entry' found
    have bound := (List.getElem?_eq_some_iff.mp place).1
    exact ⟨name, (List.getElem?_append_left bound).trans place, old⟩
  · have last : i = loop.config.length ∧ entry' = entry := by
      obtain ⟨bound, same⟩ := List.getElem?_eq_some_iff.mp found
      rw [List.length_singleton] at bound
      refine ⟨by omega, ?_⟩
      rw [← same]
      simp
    obtain ⟨rfl, rfl⟩ := last
    have bound := (List.getElem?_eq_some_iff.mp here).1
    exact ⟨f.name, (List.getElem?_append_left bound).trans here, holds⟩

theorem bounded_grow {loop : Loop} {f : FileCtx} (consistent : Consistent sys opts loop)
    (current : loop.shared.includes[loop.idx]? = some f) (entry : Option ParsingContext)
    (more : List Text) :
    (loop.config ++ [entry]).length ≤ (Shared.names loop.shared ++ more).length := by
  have bound := (List.getElem?_eq_some_iff.mp current).1
  rw [consistent.idx_eq, ← length_names] at bound
  rw [List.length_append, List.length_append, List.length_singleton]
  omega

theorem mem_append_some {config : List (Option ParsingContext)} {entry : Option ParsingContext}
    {parsing : ParsingContext} (mem : some parsing ∈ config ++ [entry]) :
    some parsing ∈ config ∨ entry = some parsing := by
  rcases List.mem_append.mp mem with old | new
  · exact .inl old
  · exact .inr (List.mem_singleton.mp new).symm

/-- What a round adds: names to the work list, errors to the handler, and an entry that fits. -/
structure Adds (sys : System) (opts : ParseOpts) (loop : Loop) (name : Text) (st : Shared)
    (entry : Option ParsingContext) (more : List Text) (errors : List ConfigError) : Prop where
  names : Shared.names st = Shared.names loop.shared ++ more
  handler : st.handler = loop.shared.handler.map (addAll · errors)
  holds : EntryOf sys name entry
  handed : entryIndices entry = List.range' (Shared.names loop.shared).length more.length
  numbered : ∀ parsing, entry = some parsing → Numbered sys opts (Shared.names st) parsing
  reports : ∀ parsing, entry = some parsing →
    Honest parsing.report ∧ parsing.report.errors = errors

theorem round_adds (quiet : QuietOpts opts) {loop loop' : Loop}
    (round : loopStep sys opts (.running loop) = some (.running loop')) :
    ∃ f st entry more errors, loop.shared.includes[loop.idx]? = some f ∧
      Adds sys opts loop f.name st entry more errors ∧
      loop' = ⟨st, loop.idx + 1, loop.config ++ [entry]⟩ := by
  obtain ⟨f, current, ⟨unreadable, err, rfl⟩ | ⟨st, parsed, stmts, reads, numbers, rfl⟩⟩ :=
    loopStep_cases quiet round
  · refine ⟨f, _, none, [], [err], current, ?_, rfl⟩
    exact
      { names := (List.append_nil _).symm
        handler := rfl
        holds := unreadable
        handed := rfl
        numbered := fun parsing none => by cases none
        reports := fun parsing none => by cases none }
  · obtain ⟨errors, parsing_eq, handler_eq⟩ := numbers.reports
    have names : Shared.names st =
        Shared.names loop.shared ++ includeNames (sys.env opts f.name) stmts := numbers.names_eq
    have parsed_eq : parsed =
        number (sys.env opts f.name) (Shared.names loop.shared).length stmts := by
      rw [length_names]
      exact numbers.parsed_eq
    refine ⟨f, st, _, includeNames (sys.env opts f.name) stmts, errors, current, ?_, rfl⟩
    constructor
    · exact names
    · exact handler_eq
    · exact ⟨reads.readable, rfl⟩
    · rw [entryIndices, parsed_eq, indices_number]
    · rintro parsing ⟨⟩
      rw [names]
      exact ⟨Shared.names loop.shared, stmts, [], reads, (List.append_nil _).symm, parsed_eq⟩
    · rintro parsing ⟨⟩
      rw [parsing_eq, errors_addAll]
      exact ⟨Honest.addAll (by simp [Honest]) errors, rfl⟩

theorem Consistent.grow {loop : Loop} {f : FileCtx} {st : Shared} {entry : Option ParsingContext}
    {more : List Text} {errors : List ConfigError} (consistent : Consistent sys opts loop)
    (current : loop.shared.includes[loop.idx]? = some f)
    (adds : Adds sys opts loop f.name st entry more errors) :
    Consistent sys opts ⟨st, loop.idx + 1, loop.config ++ [entry]⟩ := by
  obtain ⟨r, handler, honest, contexts⟩ := consistent.reports
  have started : 0 < (Shared.names loop.shared).length := by
    rw [length_names]
    exact Nat.lt_of_le_of_lt (Nat.zero_le _) (List.getElem?_eq_some_iff.mp current).1
  refine ⟨by simp [consistent.idx_eq], ?_, ?_, fun parsing mem => ?_, ?_, addAll r errors, ?_,
    honest.addAll errors, fun parsing mem => ?_⟩
  · rw [adds.names]
    exact bounded_grow consistent current _ _
  · simp only [adds.names]
    exact entries_grow consistent current adds.holds _
  · rcases mem_append_some mem with old | new
    · rw [adds.names]
      exact (consistent.numbered parsing old).grow _
    · exact adds.numbered parsing new
  · rw [List.flatMap_append, consistent.handed, List.flatMap_singleton, adds.handed, adds.names,
      List.length_append]
    exact range'_grow started
  · rw [adds.handler, handler, Option.map_some]
  · rw [errors_addAll]
    rcases mem_append_some mem with old | new
    · obtain ⟨own, sublist⟩ := contexts parsing old
      exact ⟨own, sublist.trans (List.sublist_append_left _ _)⟩
    · obtain ⟨own, same⟩ := adds.reports parsing new
      exact ⟨own, same ▸ List.sublist_append_right _ _⟩

theorem consistent_step (quiet : QuietOpts opts) {loop loop' : Loop}
    (consistent : Consistent sys opts loop)
    (round : loopStep sys opts (.running loop) = some (.running loop')) :
    Consistent sys opts loop' := by
  obtain ⟨f, st, entry, more, errors, current, adds, rfl⟩ := round_adds quiet round
  exact consistent.grow current adds

/-- What rounds keep, runs keep. -/
theorem run_induction {motive : Loop → Prop} {loop loop' : Loop} (start : motive loop)
    (rounds : ∀ before after, motive before →
      loopStep sys opts (.running before) = some (.running after) → motive after)
    (path : Reaches (loopStep sys opts) (.running loop) (.running loop')) : motive loop' := by
  generalize last : LoopState.running loop' = t at path
  induction path generalizing loop' with
  | refl =>
    cases last
    exact start
  | @tail s _ path round ih =>
    subst last
    cases s with
    | panicked fault => cases round
    | running before => exact rounds before loop' (ih rfl) round

theorem consistent_run (quiet : QuietOpts opts) {loop loop' : Loop}
    (path : Reaches (loopStep sys opts) (.running loop) (.running loop'))
    (consistent : Consistent sys opts loop) : Consistent sys opts loop' :=
  run_induction consistent (fun _ _ => consistent_step quiet) path

/-- `parse` has come to the end of its work list, without combining. -/
def Ends (sys : System) (opts : ParseOpts) (table : Directives) (filename : Text) (loop : Loop) :
    Prop :=
  Reaches (loopStep sys (optsFor opts filename)) (parseStart table filename) (.running loop) ∧
    loop.shared.includes[loop.idx]? = none

/-- The payload of a loop that has ended. -/
def Loop.payload (loop : Loop) : Payload := ⟨loop.shared.handler.getD ⟨.ok, []⟩, loop.config⟩

theorem parseReturns_iff_ends {table : Directives} {filename : Text} {payload : Payload} :
    ParseReturns sys opts table filename payload ↔
      ∃ loop, Ends sys opts table filename loop ∧ payload = Loop.payload loop := by
  simp only [parseReturns_iff, Ends, Loop.payload, and_assoc]

/-- The indices of a statement are the places of the files it names. -/
theorem Consistent.places {loop : Loop} (consistent : Consistent sys opts loop)
    {parsing : ParsingContext} (mem : some parsing ∈ loop.config) {stmt : Stmt}
    (occurs : Occurs stmt parsing.parsed) :
    stmt.includes.map (fun i => loop.shared.includes[i]?.map (·.name)) =
      (named (sys.env opts parsing.file) stmt.directive stmt.args).map some := by
  obtain ⟨before, stmts, after, -, names, same⟩ := consistent.numbered parsing mem
  rw [same] at occurs
  have designates := number_designates stmts before after occurs
  rw [← names] at designates
  rw [← designates]
  simp only [Shared.names, List.getElem?_map]

theorem places_bound {includes : List FileCtx} {places : List Nat} {names : List Text}
    (same : places.map (fun i => includes[i]?.map (·.name)) = names.map some) {i : Nat}
    (mem : i ∈ places) : i < includes.length := by
  have image := List.mem_map_of_mem (f := fun i => includes[i]?.map (·.name)) mem
  rw [same] at image
  obtain ⟨name, -, found⟩ := List.mem_map.mp image
  by_contra beyond
  rw [List.getElem?_eq_none (Nat.le_of_not_lt beyond)] at found
  cases found

/-- Every element of the work list has its entry in the payload, every index in a statement leads
to the entry of the file it was handed out for, and the reports fit together. -/
theorem payload_consistent (sys : System) (opts : ParseOpts) (quiet : QuietOpts opts)
    (table : Directives) (filename : Text) (loop : Loop)
    (ends : Ends sys opts table filename loop) :
    (Loop.payload loop).config.length = loop.shared.includes.length ∧
      (∀ (i : Nat) (f : FileCtx), loop.shared.includes[i]? = some f →
        ∃ entry, (Loop.payload loop).config[i]? = some entry ∧ EntryOf sys f.name entry) ∧
      (∀ parsing, some parsing ∈ (Loop.payload loop).config →
        ∀ stmt, Occurs stmt parsing.parsed →
          (∀ i ∈ stmt.includes, i < (Loop.payload loop).config.length) ∧
          stmt.includes.map (fun i => loop.shared.includes[i]?.map (·.name)) =
            (named (sys.env (optsFor opts filename) parsing.file) stmt.directive stmt.args).map
              some) ∧
      ((Loop.payload loop).report.status = .failed ↔ (Loop.payload loop).report.errors ≠ []) ∧
      ∀ parsing, some parsing ∈ (Loop.payload loop).config →
        (parsing.report.status = .failed ↔ parsing.report.errors ≠ []) ∧
          parsing.report.errors.Sublist (Loop.payload loop).report.errors := by
  obtain ⟨path, ended⟩ := ends
  have quiet' : QuietOpts (optsFor opts filename) := quiet
  have consistent := consistent_run quiet' path (consistent_start table filename)
  have bounded := consistent.bounded
  have past := List.getElem?_eq_none_iff.mp ended
  rw [consistent.idx_eq] at past
  rw [length_names] at bounded
  have length : loop.config.length = loop.shared.includes.length := by omega
  obtain ⟨r, handler, honest, contexts⟩ := consistent.reports
  have report : (Loop.payload loop).report = r := by simp [Loop.payload, handler]
  refine ⟨length, fun i f current => ?_, fun parsing mem stmt occurs => ?_, ?_, ?_⟩
  · have bound : i < loop.config.length := length ▸ (List.getElem?_eq_some_iff.mp current).1
    obtain ⟨name, place, holds⟩ := consistent.entries i _ (List.getElem?_eq_getElem bound)
    rw [Shared.names, List.getElem?_map, current] at place
    cases place
    exact ⟨_, List.getElem?_eq_getElem bound, holds⟩
  · have places := consistent.places mem occurs
    refine ⟨fun i mem' => length ▸ places_bound places mem', places⟩
  · rw [report]
    exact honest
  · rw [report]
    exact contexts

/-- No place is handed out twice, so that each entry but the first belongs to one occurrence of an
include. -/
theorem indices_nodup (quiet : QuietOpts opts) {table : Directives} {filename : Text} {loop : Loop}
    (ends : Ends sys opts table filename loop) :
    ((Loop.payload loop).config.flatMap entryIndices).Nodup := by
  have quiet' : QuietOpts (optsFor opts filename) := quiet
  have consistent := consistent_run quiet' ends.1 (consistent_start table filename)
  exact consistent.handed ▸ List.nodup_range'

private theorem treeSite_drains :
    Worklist.Drains (treeSite.includes (optsFor defaultParseOpts ['m'])) ['m'] [['m'], ['b']] := by
  obtain ⟨first, second⟩ := treeSite_includes
  refine .head (b := ⟨[['m']], [['b']]⟩) ?_ (.single ?_)
  · simp [Worklist.step, first]
  · simp [Worklist.step, second]

theorem payload_consistent_sample :
    ∃ loop, Ends treeSite.system defaultParseOpts directives ['m'] loop ∧
      (Loop.payload loop).files = [['m'], ['b']] ∧
      (Loop.payload loop).config.length = loop.shared.includes.length := by
  have safe : ∀ name ∈ [['m'], ['b']], treeSite.Safe (optsFor defaultParseOpts ['m']) name := by
    simp only [List.forall_mem_cons]
    unfold Site.Safe
    decide +kernel
  obtain ⟨payload, returns, files⟩ := (parse_drains_iff directives (fun _ => rfl)
    (by decide)).mpr ⟨treeSite_drains, safe⟩
  obtain ⟨loop, ends, rfl⟩ := parseReturns_iff_ends.mp returns
  exact ⟨loop, ends, files,
    (payload_consistent treeSite.system _ (fun _ => rfl) directives _ loop ends).1⟩

end PayloadIndices
