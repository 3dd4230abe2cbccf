import Vince.StringTemplate

/-!
# Rendering texts with variables (`values.go`)

`store` writes a text with variables as a template, in which two opening braces start an action
wherever they come from. So it goes wrong with a brace in front of a variable, with the names of
functions, which no template it makes knows, and with braces that the text already has.

Of templates it is assumed that text outside actions is copied, that a field is looked up, and
that undefined functions and malformed actions do not parse.
-/

namespace TemplateRendering

open GoText RequestVariables StringTemplate

variable {Loc : Type}

/-! ## What is assumed of templates -/

def fieldText (T : TextTemplate Loc) (m : Variables Loc) (k : Text) : Text :=
  ((m k).map T.print).getD T.noValue

def fieldAction (k : Text) : Text := ['{', '{', '.'] ++ k ++ ['}', '}']

def NoAction (s : Text) : Prop := ¬ ['{', '{'] <:+: s

instance (s : Text) : Decidable (NoAction s) := inferInstanceAs (Decidable (¬ _))

/-- Templates of text and fields, with what they render to. -/
inductive Rendered (T : TextTemplate Loc) : Text → (Variables Loc → Text) → Prop
  | text {s : Text} (plain : NoAction s) : Rendered T s (fun _ => s)
  | field {s k rest : Text} {f : Variables Loc → Text} (plain : NoAction (s ++ ['{']))
      (name : isField k = true) (tail : Rendered T rest f) :
      Rendered T (s ++ (fieldAction k ++ rest)) (fun m => s ++ (fieldText T m k ++ f m))

/-- Texts in which, after text and fields, an undefined function or a malformed action comes. -/
inductive Refused : Text → Prop
  | undefined {s name rest : Text} (plain : NoAction (s ++ ['{']))
      (func : isVariableFunc name = true) :
      Refused (s ++ (['{', '{'] ++ name ++ ['}', '}'] ++ rest))
  | malformed {s rest : Text} (plain : NoAction s) : Refused (s ++ '{' :: '{' :: '{' :: rest)
  | later {s k rest : Text} (plain : NoAction (s ++ ['{'])) (name : isField k = true)
      (tail : Refused rest) : Refused (s ++ (fieldAction k ++ rest))

structure Templates (Loc : Type) extends TextTemplate Loc where
  rendered : ∀ x f, Rendered toTextTemplate x f →
    ∃ t, parse x = some t ∧ ∀ m, execute t m = some (f m)
  refused : ∀ x, Refused x → parse x = none

theorem noAction_cons {c : Char} {s : Text} (plain : NoAction s)
    (apart : c = '{' → s.head? ≠ some '{') : NoAction (c :: s) := by
  intro found
  rcases List.infix_cons_iff.mp found with here | later
  · obtain ⟨rest, same⟩ := here
    obtain ⟨rfl, rfl⟩ := List.cons.inj same
    exact apart rfl rfl
  · exact plain later

theorem head?_append_ne {s rest : Text} (apart : (s ++ '{' :: rest).head? ≠ some '{')
    (more : Text) : (s ++ more).head? ≠ some '{' := by
  cases s with
  | nil => exact absurd rfl apart
  | cons c s => exact apart

/-- The same in front of an action. -/
theorem noAction_cons_before {c : Char} {s rest : Text} (plain : NoAction (s ++ ['{']))
    (apart : c = '{' → (s ++ '{' :: rest).head? ≠ some '{') : NoAction (c :: s ++ ['{']) :=
  noAction_cons plain fun brace => head?_append_ne (apart brace) ['{']

theorem Rendered.cons {T : TextTemplate Loc} {c : Char} {x : Text} {f : Variables Loc → Text}
    (rendered : Rendered T x f) (apart : c = '{' → x.head? ≠ some '{') :
    Rendered T (c :: x) (fun m => c :: f m) := by
  cases rendered with
  | text plain => exact .text (noAction_cons plain apart)
  | field plain name tail => exact .field (noAction_cons_before plain apart) name tail

theorem Refused.cons {c : Char} {x : Text} (refused : Refused x)
    (apart : c = '{' → x.head? ≠ some '{') : Refused (c :: x) := by
  cases refused with
  | undefined plain func => exact .undefined (noAction_cons_before plain apart) func
  | @malformed s rest plain =>
    have longer : NoAction (c :: s) :=
      noAction_cons plain fun brace => by simpa using head?_append_ne (apart brace) []
    exact .malformed longer
  | later plain name tail => exact .later (noAction_cons_before plain apart) name tail

/-! ## The text as it should be rendered -/

/-- The key under which a variable is looked up. -/
def keyOf (name : Text) : Text :=
  if name.head?.any Char.isDigit then ['n', '_'] ++ name else name

/-- The text with the variables replaced by their values and nothing else changed, the names of
functions included; the number counts characters of a variable that is already replaced. -/
def expectedFrom (T : TextTemplate Loc) (m : Variables Loc) : Nat → Text → Text
  | _, [] => []
  | skip + 1, _ :: rest => expectedFrom T m skip rest
  | 0, c :: rest =>
    match variableName (c :: rest) with
    | some name =>
      if isVariableFunc name then c :: expectedFrom T m 0 rest
      else fieldText T m (keyOf name) ++ expectedFrom T m name.length rest
    | none => c :: expectedFrom T m 0 rest

theorem variableName_eq_none {c : Char} (other : c ≠ '$') (rest : Text) :
    variableName (c :: rest) = none := by
  rw [variableName]
  rintro d rest' ⟨⟩
  exact other rfl

theorem expectedFrom_plain (T : TextTemplate Loc) (m : Variables Loc) {v : Text} (plain : '$' ∉ v) :
    expectedFrom T m 0 v = v := by
  induction v with
  | nil => rfl
  | cons c rest ih =>
    obtain ⟨other, later⟩ := not_or.mp (mt List.mem_cons.mpr plain)
    rw [expectedFrom, variableName_eq_none (Ne.symm other)]
    exact congrArg (c :: ·) (ih later)

/-! ## What can go wrong -/

inductive Trouble where
  /-- a variable whose name is that of a function -/
  | function
  /-- three opening braces in a row, those of a translated variable included -/
  | braces
  /-- two opening braces that stand in the text -/
  | ownAction
  deriving DecidableEq, Repr

/-- The translation of the text starts with a brace. -/
def opens (s : Text) : Bool := s.head? = some '{' || (variableName s).isSome

/-- The first trouble in a text. -/
def troubleFrom : Nat → Text → Option Trouble
  | _, [] => none
  | skip + 1, _ :: rest => troubleFrom skip rest
  | 0, c :: rest =>
    match variableName (c :: rest) with
    | some name => if isVariableFunc name then some .function else troubleFrom name.length rest
    | none =>
      if c = '{' && opens rest then
        if rest.head? = some '{' && !opens rest.tail then some .ownAction else some .braces
      else troubleFrom 0 rest

example : troubleFrom 0 "empty $1 \x7b\x7d".toList = none := by decide

example : troubleFrom 0 "\x7b$key\x7d".toList = some .braces := by decide

theorem replaceFrom_none {c : Char} {rest : Text} (none : variableName (c :: rest) = none) :
    replaceFrom 0 (c :: rest) = c :: replaceFrom 0 rest := by
  rw [replaceFrom, none]

theorem replaceFrom_some {c : Char} {rest name : Text}
    (found : variableName (c :: rest) = some name) :
    replaceFrom 0 (c :: rest) = templateAction name ++ replaceFrom name.length rest := by
  rw [replaceFrom, found]

/-- A variable is translated to an action. -/
theorem templateAction_braces (name : Text) :
    ∃ inner, templateAction name = '{' :: '{' :: inner := by
  rw [templateAction]
  split
  · exact ⟨_, rfl⟩
  · split <;> exact ⟨_, rfl⟩

theorem opens_iff (s : Text) : opens s = true ↔ (replaceFrom 0 s).head? = some '{' := by
  cases s with
  | nil => decide
  | cons c rest =>
    cases found : variableName (c :: rest) with
    | none => simp [opens, found, replaceFrom_none found]
    | some name =>
      obtain ⟨inner, same⟩ := templateAction_braces name
      simp [opens, found, replaceFrom_some found, same]

/-- A variable is a dollar sign with a name behind it that could stand alone. -/
theorem exists_name {c : Char} {rest name : Text} (found : variableName (c :: rest) = some name) :
    variableName ('$' :: name) = some name ∧
      ∃ d more, name = d :: more ∧ nameStart d = true ∧ more.all wordChar = true := by
  rw [variableName.eq_def] at found
  split at found
  · rename_i d rest' same
    split at found
    · rename_i start
      cases found
      have words : (rest'.takeWhile wordChar).all wordChar = true := List.all_takeWhile
      refine ⟨?_, d, _, rfl, start, words⟩
      rw [variableName, if_pos start, List.takeWhile_eq_self_iff.mpr (List.all_eq_true.mp words)]
    · cases found
  · cases found

theorem wordChar_of_isDigit {c : Char} (digit : c.isDigit = true) : wordChar c = true := by
  simp [wordChar, Char.isAlphanum, digit]

/-- A name that is no function is written as a field. -/
theorem templateAction_field {c : Char} {rest name : Text}
    (found : variableName (c :: rest) = some name) (plain : isVariableFunc name = false) :
    templateAction name = fieldAction (keyOf name) ∧ isField (keyOf name) = true := by
  obtain ⟨whole, d, more, rfl, start, words⟩ := exists_name found
  rw [templateAction, if_neg (by simp [plain]), keyOf, fieldAction]
  by_cases digit : (d :: more).head?.any Char.isDigit = true
  · rw [if_pos digit, if_pos digit]
    have first : wordChar d = true := wordChar_of_isDigit (by simpa using digit)
    refine ⟨by simp, ?_⟩
    simp only [List.cons_append, List.nil_append, isField, List.all_cons, first, words]
    decide
  · rw [if_neg digit, if_neg digit]
    exact ⟨rfl, isField_of_variable whole (by simpa using digit)⟩

/-- Without trouble the translation is a template that renders as it should. -/
theorem rendered_replaceFrom (T : TextTemplate Loc) (skip : Nat) (v : Text)
    (fine : troubleFrom skip v = none) :
    Rendered T (replaceFrom skip v) (fun m => expectedFrom T m skip v) := by
  induction v generalizing skip with
  | nil =>
    simp only [replaceFrom, expectedFrom]
    exact .text (by decide)
  | cons c rest ih =>
    cases skip with
    | succ skip => exact ih skip fine
    | zero =>
      rw [troubleFrom] at fine
      cases found : variableName (c :: rest) with
      | some name =>
        rw [found] at fine
        dsimp only at fine
        split at fine
        · cases fine
        · rename_i plain
          obtain ⟨action, name_ok⟩ := templateAction_field found (by simpa using plain)
          rw [replaceFrom_some found, action]
          simp only [expectedFrom, found, plain]
          exact .field (s := []) (by decide) name_ok (ih _ fine)
      | none =>
        rw [found] at fine
        dsimp only at fine
        split at fine
        · split at fine <;> cases fine
        · rename_i apart
          rw [replaceFrom_none found]
          simp only [expectedFrom, found]
          refine (ih 0 fine).cons fun brace => ?_
          rw [Ne, ← opens_iff]
          simpa [brace] using apart

theorem replaceFrom_braces {s : Text} (opened : opens s = true)
    (more : ¬ (s.head? = some '{' && !opens s.tail) = true) :
    ∃ after, replaceFrom 0 s = '{' :: '{' :: after := by
  cases s with
  | nil => cases opened
  | cons c rest =>
    cases found : variableName (c :: rest) with
    | some name =>
      obtain ⟨inner, same⟩ := templateAction_braces name
      exact ⟨inner ++ replaceFrom name.length rest, by rw [replaceFrom_some found, same]; rfl⟩
    | none =>
      obtain rfl : c = '{' := by simpa [opens, found] using opened
      have again : opens rest = true := by simpa using more
      obtain ⟨after, same⟩ := List.head?_eq_some_iff.mp ((opens_iff rest).mp again)
      exact ⟨after, by rw [replaceFrom_none found, same]⟩

/-- A function or three braces are refused. -/
theorem refused_replaceFrom (skip : Nat) (v : Text)
    (trouble : troubleFrom skip v = some .function ∨ troubleFrom skip v = some .braces) :
    Refused (replaceFrom skip v) := by
  induction v generalizing skip with
  | nil => rcases trouble with none | none <;> cases none
  | cons c rest ih =>
    cases skip with
    | succ skip => exact ih skip trouble
    | zero =>
      rw [troubleFrom] at trouble
      cases found : variableName (c :: rest) with
      | some name =>
        rw [found] at trouble
        dsimp only at trouble
        rw [replaceFrom_some found]
        by_cases func : isVariableFunc name = true
        · rw [templateAction, if_pos func]
          exact .undefined (s := []) (by decide) func
        · rw [if_neg func] at trouble
          obtain ⟨action, name_ok⟩ := templateAction_field found (by simpa using func)
          rw [action]
          exact .later (s := []) (by decide) name_ok (ih _ trouble)
      | none =>
        rw [found] at trouble
        dsimp only at trouble
        rw [replaceFrom_none found]
        by_cases brace : (c = '{' && opens rest) = true
        · rw [if_pos brace] at trouble
          obtain ⟨same, opened⟩ : c = '{' ∧ opens rest = true := by simpa using brace
          have more : ¬ (rest.head? = some '{' && !opens rest.tail) = true := by
            intro own
            rw [if_pos own] at trouble
            rcases trouble with other | other <;> cases other
          obtain ⟨after, shape⟩ := replaceFrom_braces opened more
          rw [same, shape]
          exact .malformed (s := []) (by decide)
        · rw [if_neg brace] at trouble
          refine (ih 0 trouble).cons fun same => ?_
          rw [Ne, ← opens_iff]
          simpa [same] using brace

/-! ## Which texts are rendered as they should -/

/-- The text is stored, and then rendered as it should in all variables. -/
def RendersRight (T : Templates Loc) (s : StringTemplateValue T.toTextTemplate) (v : Text) : Prop :=
  ∃ u, s.store v = some u ∧
    ∀ m, u.valueIn m = some (expectedFrom T.toTextTemplate m 0 v)

/-- What templates make of the translated text is what it should be. -/
def Reproduces (T : Templates Loc) (v : Text) : Prop :=
  ∃ t, T.parse (replaceFrom 0 v) = some t ∧
    ∀ m, T.execute t m = some (expectedFrom T.toTextTemplate m 0 v)

theorem rendersRight_plain (T : Templates Loc) (s : StringTemplateValue T.toTextTemplate) {v : Text}
    (plain : '$' ∉ v) :
    RendersRight T s v ↔ ∀ t, s.tpl = some t → ∀ m, T.execute t m = some v := by
  have stored : s.store v = some { s with set := true, value := v } := if_neg plain
  rw [RendersRight, stored]
  simp only [Option.some.injEq, exists_eq_left', expectedFrom_plain _ _ plain]
  cases held : s.tpl with
  | none => simp [StringTemplateValue.valueIn]
  | some t => simp [StringTemplateValue.valueIn]

theorem rendersRight_template (T : Templates Loc) (s : StringTemplateValue T.toTextTemplate)
    {v : Text} (dollar : '$' ∈ v) : RendersRight T s v ↔ Reproduces T v := by
  have stored : s.store v = (T.parse (replaceFrom 0 v)).map
      fun t => { s with tpl := some t, set := true } := if_pos dollar
  rw [RendersRight, Reproduces, stored]
  cases T.parse (replaceFrom 0 v) with
  | none => simp
  | some t => simp [StringTemplateValue.valueIn]

/-- On a function or three braces `store` panics. -/
theorem store_eq_none (T : Templates Loc) (s : StringTemplateValue T.toTextTemplate) {v : Text}
    (dollar : '$' ∈ v)
    (trouble : troubleFrom 0 v = some .function ∨ troubleFrom 0 v = some .braces) :
    s.store v = none := by
  rw [StringTemplateValue.store, if_pos dollar, T.refused _ (refused_replaceFrom 0 v trouble)]
  rfl

/-- Nothing goes wrong with a text without trouble. -/
theorem reproduces_of_no_trouble (T : Templates Loc) {v : Text} (fine : troubleFrom 0 v = none) :
    Reproduces T v :=
  T.rendered _ _ (rendered_replaceFrom _ 0 v fine)

/-- Where the first trouble is two braces of the text itself, it is up to what the template does;
with any other one nothing is stored. -/
theorem trouble_of_reproduces (T : Templates Loc) {v : Text} (dollar : '$' ∈ v)
    (reproduces : Reproduces T v) :
    troubleFrom 0 v = none ∨ troubleFrom 0 v = some .ownAction := by
  cases trouble : troubleFrom 0 v with
  | none => exact .inl rfl
  | some kind =>
    have panics (bad : kind = .function ∨ kind = .braces) : False := by
      rw [← rendersRight_template T {} dollar] at reproduces
      obtain ⟨u, stored, -⟩ := reproduces
      rw [store_eq_none T {} dollar (by simpa [trouble] using bad)] at stored
      cases stored
    cases kind with
    | function => exact (panics (.inl rfl)).elim
    | braces => exact (panics (.inr rfl)).elim
    | ownAction => exact .inr rfl

/-- A text is rendered as it should if it has no variables and no earlier template is left over,
or if nothing goes wrong in its translation. If it is rendered as it should, then one of these is
the case, or the first thing that could go wrong is an action of its own. -/
theorem store_renders (T : Templates Loc) (s : StringTemplateValue T.toTextTemplate) (v : Text) :
    (('$' ∉ v ∧ ∀ t, s.tpl = some t → ∀ m, T.execute t m = some v) ∨
        ('$' ∈ v ∧ troubleFrom 0 v = none) →
      RendersRight T s v) ∧
    (RendersRight T s v →
      ('$' ∉ v ∧ ∀ t, s.tpl = some t → ∀ m, T.execute t m = some v) ∨
        ('$' ∈ v ∧ (troubleFrom 0 v = none ∨ troubleFrom 0 v = some .ownAction))) := by
  by_cases dollar : '$' ∈ v
  · rw [rendersRight_template T s dollar]
    simp only [dollar, not_true_eq_false, false_and, false_or, true_and]
    exact ⟨reproduces_of_no_trouble T, trouble_of_reproduces T dollar⟩
  · rw [rendersRight_plain T s dollar]
    simp [dollar]

/-! ## The part of templates with text and fields only -/

private inductive Item where
  | char (c : Char)
  | field (k : Text)

/-- A field behind two braces, with what follows it. -/
private def fieldAt : Text → Option (Text × Text)
  | '.' :: inner =>
    match inner.dropWhile wordChar with
    | '}' :: '}' :: rest =>
      if isField (inner.takeWhile wordChar) then some (inner.takeWhile wordChar, rest) else none
    | _ => none
  | _ => none

private def readItems : Nat → Text → Option (List Item)
  | 0, _ => none
  | _ + 1, [] => some []
  | fuel + 1, c :: rest =>
    if c = '{' ∧ rest.head? = some '{' then
      match fieldAt rest.tail with
      | none => none
      | some (k, rest) => (readItems fuel rest).map (.field k :: ·)
    else (readItems fuel rest).map (.char c :: ·)

private def printItem (print : Value Unit → Text) (noValue : Text) (m : Variables Unit) :
    Item → Text
  | .char c => [c]
  | .field k => ((m k).map print).getD noValue

private theorem wordChars_of_isField {k : Text} (name : isField k = true) :
    ∀ c ∈ k, wordChar c = true := by
  cases k with
  | nil => cases name
  | cons c rest =>
    obtain ⟨first, others⟩ := Bool.and_eq_true_iff.mp name
    refine List.forall_mem_cons.mpr ⟨?_, List.all_eq_true.mp others⟩
    rcases Bool.or_eq_true_iff.mp first with letter | underscore
    · simp [wordChar, Char.isAlphanum, letter]
    · simp [wordChar, of_decide_eq_true underscore]

private theorem fieldAt_field {k : Text} (name : isField k = true) (rest : Text) :
    fieldAt ('.' :: (k ++ '}' :: '}' :: rest)) = some (k, rest) := by
  have words := wordChars_of_isField name
  have taken : (k ++ '}' :: '}' :: rest).takeWhile wordChar = k := by
    rw [List.takeWhile_append_of_pos words]
    simp [wordChar]
  have left : (k ++ '}' :: '}' :: rest).dropWhile wordChar = '}' :: '}' :: rest := by
    rw [List.dropWhile_append_of_pos words]
    simp [wordChar]
  simp [fieldAt, taken, left, name]

private theorem noAction_tail {c : Char} {s : Text} (plain : NoAction (c :: s)) :
    NoAction s ∧ ¬ (c = '{' ∧ s.head? = some '{') := by
  refine ⟨fun found => plain (List.infix_cons_iff.mpr (.inr found)), ?_⟩
  rintro ⟨rfl, second⟩
  obtain ⟨rest, rfl⟩ := List.head?_eq_some_iff.mp second
  exact plain (List.infix_cons_iff.mpr (.inl ⟨rest, rfl⟩))

private theorem head?_append_take (s y : Text) : (s ++ y.take 1).head? = (s ++ y).head? := by
  cases s with
  | nil => cases y <;> rfl
  | cons c s => rfl

/-- Text in which no action starts is read character by character. -/
private theorem readItems_chars (s y : Text) (plain : NoAction (s ++ y.take 1)) (fuel : Nat) :
    readItems (fuel + s.length) (s ++ y) = (readItems fuel y).map (s.map .char ++ ·) := by
  induction s with
  | nil => simp
  | cons c s ih =>
    rw [List.cons_append] at plain
    obtain ⟨later, apart⟩ := noAction_tail plain
    rw [head?_append_take] at apart
    rw [List.length_cons, ← Nat.add_assoc, List.cons_append, readItems, if_neg apart, ih later,
      Option.map_map]
    rfl

private theorem readItems_refused (s y : Text) (plain : NoAction (s ++ y.take 1))
    (refused : ∀ fuel, readItems fuel y = none) (fuel : Nat) : readItems fuel (s ++ y) = none := by
  induction s generalizing fuel with
  | nil => exact refused fuel
  | cons c s ih =>
    rw [List.cons_append] at plain
    obtain ⟨later, apart⟩ := noAction_tail plain
    rw [head?_append_take] at apart
    cases fuel with
    | zero => rfl
    | succ fuel => rw [List.cons_append, readItems, if_neg apart, ih later, Option.map_none]

private theorem readItems_field {k : Text} (name : isField k = true) (rest : Text) (fuel : Nat) :
    readItems (fuel + 1) (fieldAction k ++ rest) = (readItems fuel rest).map (.field k :: ·) := by
  have shape : fieldAction k ++ rest = '{' :: '{' :: '.' :: (k ++ '}' :: '}' :: rest) := by
    simp [fieldAction]
  rw [shape, readItems, if_pos ⟨rfl, rfl⟩, List.tail_cons, fieldAt_field name]

private theorem readItems_action {inner : Text} (other : fieldAt inner = none) (fuel : Nat) :
    readItems fuel ('{' :: '{' :: inner) = none := by
  cases fuel with
  | zero => rfl
  | succ fuel => rw [readItems, if_pos ⟨rfl, rfl⟩, List.tail_cons, other]

private theorem readItems_braces (s rest : Text) (plain : NoAction s) (fuel : Nat) :
    readItems fuel (s ++ '{' :: '{' :: '{' :: rest) = none := by
  induction s generalizing fuel with
  | nil => exact readItems_action rfl fuel
  | cons c s ih =>
    obtain ⟨later, apart⟩ := noAction_tail plain
    cases fuel with
    | zero => rfl
    | succ fuel =>
      rw [List.cons_append, readItems]
      split
      · rename_i both
        -- the brace in front belongs to the action, which then starts with a brace all the same
        cases s with
        | nil => rfl
        | cons d s => exact absurd both apart
      · rw [ih later, Option.map_none]

private theorem readItems_of_refused {x : Text} (refused : Refused x) :
    ∀ fuel, readItems fuel x = none := by
  induction refused with
  | @undefined s name rest plain func =>
    refine readItems_refused s _ plain fun fuel => ?_
    have listed : name ∈ variableFuncs := of_decide_eq_true func
    simp only [variableFuncs, List.mem_cons, List.not_mem_nil, or_false] at listed
    rcases listed with rfl | rfl | rfl | rfl <;> exact readItems_action rfl fuel
  | malformed plain => exact readItems_braces _ _ plain
  | @later s k rest plain name tail ih =>
    refine readItems_refused s _ plain fun fuel => ?_
    cases fuel with
    | zero => rfl
    | succ fuel => rw [readItems_field name, ih, Option.map_none]

private theorem printItem_chars (print : Value Unit → Text) (noValue : Text) (m : Variables Unit)
    (s : Text) : (s.map Item.char).flatMap (printItem print noValue m) = s := by
  rw [List.flatMap_map]
  exact List.flatMap_singleton' s

private theorem readItems_of_rendered {T : TextTemplate Unit} {x : Text}
    {f : Variables Unit → Text} (rendered : Rendered T x f) :
    ∀ fuel, x.length < fuel → ∃ items, readItems fuel x = some items ∧
      ∀ m, items.flatMap (printItem T.print T.noValue m) = f m := by
  induction rendered with
  | @text s plain =>
    intro fuel enough
    obtain ⟨extra, rfl⟩ : ∃ extra, fuel = extra + 1 + s.length := ⟨fuel - s.length - 1, by omega⟩
    refine ⟨s.map .char, ?_, fun m => printItem_chars _ _ m s⟩
    have read := readItems_chars s [] (by simpa using plain) (extra + 1)
    simpa [readItems] using read
  | @field s k rest f plain name tail ih =>
    intro fuel enough
    rw [List.length_append, List.length_append] at enough
    obtain ⟨extra, rfl⟩ : ∃ extra, fuel = extra + 1 + s.length := ⟨fuel - s.length - 1, by omega⟩
    obtain ⟨items, read, shown⟩ := ih extra (by simp [fieldAction] at enough; omega)
    refine ⟨s.map .char ++ .field k :: items, ?_, fun m => ?_⟩
    · rw [readItems_chars s (fieldAction k ++ rest) plain, readItems_field name, read]
      rfl
    · rw [List.flatMap_append, printItem_chars, List.flatMap_cons, shown]
      rfl

private def printStr : Value Unit → Text
  | .str s => s
  | _ => []

/-- Templates of text and fields, in which no other action parses. -/
def fieldTemplates : Templates Unit where
  Tpl := List Item
  parse x := readItems (x.length + 1) x
  execute items m := some (items.flatMap (printItem printStr "<no value>".toList m))
  print := printStr
  noValue := "<no value>".toList
  field k name := by
    refine ⟨[.field k], ?_, fun m => ?_⟩
    · have read := readItems_field name [] (fieldAction k).length
      have long : (fieldAction k).length = k.length + 5 := by simp [fieldAction]
      rw [List.append_nil] at read
      exact read.trans (by rw [long]; rfl)
    · simp [printItem]
  rendered x f shown := by
    obtain ⟨items, read, rendered⟩ := readItems_of_rendered shown _ (Nat.lt_succ_self _)
    exact ⟨items, read, fun m => congrArg some (rendered m)⟩
  refused x bad := readItems_of_refused bad _

/-- The default format of the access log. -/
def defaultLogFormat : Text :=
  ("$remote_addr - $remote_user [$time_local] \"$request\" $status $body_bytes_sent " ++
    "\"$http_referer\" \"$http_user_agent\"").toList

/-- `$time_local` is written as a call of a function that the template does not know. -/
theorem default_log_format_panics :
    ({} : StringTemplateValue fieldTemplates.toTextTemplate).store defaultLogFormat = none ∧
      ¬ RendersRight fieldTemplates {} defaultLogFormat := by
  have panics : ({} : StringTemplateValue fieldTemplates.toTextTemplate).store defaultLogFormat =
      none := store_eq_none _ _ (by decide +kernel) (.inl (by decide +kernel))
  refine ⟨panics, ?_⟩
  rintro ⟨u, stored, -⟩
  rw [panics] at stored
  cases stored

end TemplateRendering
