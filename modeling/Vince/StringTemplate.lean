import Mathlib.Data.List.TakeWhile
import Vince.RequestVariables

/-!
# Texts with variables (`values.go`)

A configured text with variables is turned into a template, whose fields are then looked up in the
variables of a request. Templates themselves are those of the standard library; all that is
assumed of them is what a single field renders to.
-/

namespace StringTemplate

open GoText RequestVariables

variable {Loc : Type}

/-! ## Variables in a text -/

def wordChar (c : Char) : Bool := c.isAlphanum || c = '_'

def nameStart (c : Char) : Bool := c.isLower || c = '_' || c.isDigit

/-- `variableRegexp` at the start of a text: the name behind the dollar sign. -/
def variableName : Text → Option Text
  | '$' :: c :: rest => if nameStart c then some (c :: rest.takeWhile wordChar) else none
  | _ => none

def variableFuncs : List Text :=
  ["date_gmt".toList, "date_local".toList, "time_iso8601".toList, "time_local".toList]

def isVariableFunc (name : Text) : Bool := name ∈ variableFuncs

/-- What a variable is replaced by. -/
def templateAction (name : Text) : Text :=
  if isVariableFunc name then ['{', '{'] ++ name ++ ['}', '}']
  else if name.head?.any Char.isDigit then ['{', '{', '.', 'n', '_'] ++ name ++ ['}', '}']
  else ['{', '{', '.'] ++ name ++ ['}', '}']

/-- `ReplaceAllFunc`; the number counts characters of a variable that is already replaced. -/
def replaceFrom : Nat → Text → Text
  | _, [] => []
  | skip + 1, _ :: rest => replaceFrom skip rest
  | 0, c :: rest =>
    match variableName (c :: rest) with
    | some name => templateAction name ++ replaceFrom name.length rest
    | none => c :: replaceFrom 0 rest

/-! ## Templates -/

/-- The names that can stand behind the dot of a field. -/
def isField : Text → Bool
  | [] => false
  | c :: rest => (c.isAlpha || c = '_') && rest.all wordChar

/-- The package `text/template`: a text that does not parse and an execution that fails have no
result. -/
structure TextTemplate (Loc : Type) where
  Tpl : Type
  parse : Text → Option Tpl
  execute : Tpl → Variables Loc → Option Text
  print : Value Loc → Text
  noValue : Text
  /-- A field renders the entry of the map under its name, or the marker. -/
  field : ∀ k, isField k = true → ∃ t, parse (['{', '{', '.'] ++ k ++ ['}', '}']) = some t ∧
    ∀ m, execute t m = some (((m k).map print).getD noValue)

structure StringTemplateValue (T : TextTemplate Loc) where
  value : Text := []
  set : Bool := false
  tpl : Option T.Tpl := none

namespace StringTemplateValue

variable {T : TextTemplate Loc}

/-- `template.Must` panics on a text that does not parse. -/
def store (s : StringTemplateValue T) (v : Text) : Option (StringTemplateValue T) :=
  if '$' ∈ v then
    (T.parse (replaceFrom 0 v)).map fun t => { s with tpl := some t, set := true }
  else some { s with set := true, value := v }

/-- The method `Value`, which panics when the execution fails. -/
def valueIn (s : StringTemplateValue T) (ctx : Variables Loc) : Option Text :=
  match s.tpl with
  | none => some s.value
  | some t => T.execute t ctx

end StringTemplateValue

/-! ## A text that is one variable -/

theorem replaceFrom_length (s : Text) : replaceFrom s.length s = [] := by
  induction s with
  | nil => rfl
  | cons c rest ih => simpa [replaceFrom] using ih

theorem replaceFrom_variable {n : Text} (whole : variableName ('$' :: n) = some n) :
    replaceFrom 0 ('$' :: n) = templateAction n := by
  simp [replaceFrom, whole, replaceFrom_length]

/-- A name that starts with no digit is a field as it stands. -/
theorem isField_of_variable {n : Text} (whole : variableName ('$' :: n) = some n)
    (notDigit : n.head?.any Char.isDigit = false) : isField n = true := by
  cases n with
  | nil => simp [variableName] at whole
  | cons c rest =>
    simp only [variableName] at whole
    split at whole
    · rename_i start
      simp only [Option.some.injEq, List.cons.injEq, true_and] at whole
      have word : rest.all wordChar = true :=
        List.all_eq_true.mpr (List.takeWhile_eq_self_iff.mp whole)
      have letter : (c.isAlpha || c = '_') = true := by
        simp only [List.head?_cons, Option.any_some] at notDigit
        simp only [nameStart, notDigit, Bool.or_false, Bool.or_eq_true] at start
        rcases start with lower | underscore
        · have alpha : c.isAlpha = (c.isUpper || c.isLower) := rfl
          rw [alpha, lower, Bool.or_true, Bool.true_or]
        · simp [underscore]
      rw [isField, letter, word, Bool.and_self]
    · cases whole

/-- What a text of one variable renders to, when the variable is a field of that name. -/
theorem field_rendered (T : TextTemplate Loc) (s : StringTemplateValue T) {n : Text}
    (whole : variableName ('$' :: n) = some n) (notFunc : isVariableFunc n = false)
    (notDigit : n.head?.any Char.isDigit = false) :
    ∃ t, s.store ('$' :: n) = some t ∧
      ∀ m, t.valueIn m = some (((m n).map T.print).getD T.noValue) := by
  obtain ⟨tpl, parsed, rendered⟩ := T.field n (isField_of_variable whole notDigit)
  refine ⟨{ s with tpl := some tpl, set := true }, ?_, rendered⟩
  have action : templateAction n = ['{', '{', '.'] ++ n ++ ['}', '}'] := by
    simp [templateAction, notFunc, notDigit]
  rw [StringTemplateValue.store, if_pos List.mem_cons_self, replaceFrom_variable whole, action,
    parsed, Option.map_some]

/-! ## Writers and readers -/

/-- Names that no request binds with a dollar sign. -/
def reserved : List Text := vRequestMatchKind :: variableFuncs

theorem stem_not_reserved (f : Family) : ∀ name ∈ reserved, ¬ f.stem.tail <+: name := by
  cases f <;> decide

theorem plain_of_binds {net : NetHTTP} {r : Request} {n : Text} (binds : Binds net r ('$' :: n)) :
    n ∉ reserved ∧ n.head?.any Char.isDigit = false := by
  obtain ⟨name, same, fixed | ⟨f, k, ending⟩⟩ := binds.name
  · obtain rfl := List.tail_eq_of_cons_eq same
    have plain : ∀ f ∈ fixedNames.map List.tail,
        f ∉ reserved ∧ f.head?.any Char.isDigit = false := by decide
    exact plain n fixed
  · obtain rfl := List.tail_eq_of_cons_eq same
    constructor
    · intro listed
      exact stem_not_reserved f n listed ⟨_, ending.symm⟩
    · rw [ending]
      cases f <;> rfl

/-- Of the names without a dollar sign only one is ever bound. -/
theorem unbound_name (net : NetHTTP) (history : List (Event Loc)) (hostname : Text) (r : Request)
    {n : Text} (noDollar : n.head? ≠ some '$') (notKind : n ≠ vRequestMatchKind) :
    setRequestVariables net hostname (variablesAfter net history) r n = none := by
  have notBound : ∀ q : Request, ¬ Binds net q n := by
    intro q binds
    obtain ⟨name, rfl, -⟩ := binds.name
    exact noDollar rfl
  rw [(setRequestVariables_assigns net hostname r).kept n (notBound r)]
  by_contra bound
  obtain ⟨e, -, leaves⟩ := (variablesAfter_bound_iff net history n).mp bound
  cases e with
  | accept id =>
    exact noDollar (by rw [show n = vRequestID from leaves]; decide)
  | serve v =>
    rcases leaves with binds | ⟨-, kind | ⟨-, time⟩⟩
    · exact notBound v.request binds
    · exact notKind kind
    · exact noDollar (by rw [time]; decide)

/-- The text `$n` is rendered as the value `v`. -/
def Renders (T : TextTemplate Loc) (s : StringTemplateValue T) (n : Text) (m : Variables Loc)
    (v : Value Loc) : Prop :=
  ∃ t, s.store ('$' :: n) = some t ∧ t.valueIn m = some (T.print v)

/-- The variables are bound with their dollar sign and looked up without it. -/
theorem bound_value_rendered_iff (T : TextTemplate Loc) (s : StringTemplateValue T)
    (net : NetHTTP) (history : List (Event Loc)) (hostname : Text) (r : Request) {n : Text}
    {v : Value Loc} (whole : variableName ('$' :: n) = some n)
    (bound : setRequestVariables net hostname Footprint.empty r ('$' :: n) = some v) :
    setRequestVariables net hostname (variablesAfter net history) r ('$' :: n) = some v ∧
    (Renders T s n (setRequestVariables net hostname (variablesAfter net history) r) v ↔
      T.print v = T.noValue) := by
  have own : Footprint.Assigns (fun m : Variables Loc => setRequestVariables net hostname m r) _ :=
    setRequestVariables_assigns net hostname r
  have binds : Binds net r ('$' :: n) :=
    (own.bound_iff _).mp (by rw [bound]; exact Option.some_ne_none v)
  obtain ⟨notReserved, notDigit⟩ := plain_of_binds binds
  have notFunc : isVariableFunc n = false :=
    decide_eq_false fun listed => notReserved (List.mem_cons_of_mem _ listed)
  have notKind : n ≠ vRequestMatchKind := fun same => notReserved (same ▸ List.mem_cons_self)
  have noDollar : n.head? ≠ some '$' := by
    intro dollar
    obtain ⟨rest, rfl⟩ := List.head?_eq_some_iff.mp dollar
    simp [variableName, nameStart] at whole
  obtain ⟨t, stored, rendered⟩ := field_rendered T s whole notFunc notDigit
  constructor
  · rw [← bound]
    exact (own.fresh_iff _ _).mpr (Or.inl binds)
  · have marker : t.valueIn (setRequestVariables net hostname (variablesAfter net history) r) =
        some T.noValue := by
      rw [rendered, unbound_name net history hostname r noDollar notKind]
      rfl
    constructor
    · rintro ⟨u, storedToo, shown⟩
      obtain rfl : t = u := Option.some.inj (stored.symm.trans storedToo)
      exact (Option.some.inj (marker.symm.trans shown)).symm
    · intro same
      exact ⟨t, stored, by rw [marker, same]⟩

private def printText : Value Unit → Text
  | .str s => s
  | _ => []

/-- The part of `text/template` that renders one field. -/
private def fieldsOnly : TextTemplate Unit where
  Tpl := Text
  parse s := some ((s.drop 3).take (s.length - 5))
  execute k m := some (((m k).map printText).getD "<no value>".toList)
  print := printText
  noValue := "<no value>".toList
  field k _ := ⟨k, by simp, fun _ => rfl⟩

private def noNames : NetHTTP where
  query _ := []
  cookies _ := []

private def argsRequest : Request :=
  { url := ⟨"a=1".toList, "/?a=1".toList⟩, host := "h".toList, header := [], ctx := {} }

theorem bound_value_rendered_sample :
    setRequestVariables noNames [] (variablesAfter noNames []) argsRequest
      ('$' :: "args".toList) = some (Value.str "a=1".toList : Value Unit) ∧
    (Renders fieldsOnly {} "args".toList
        (setRequestVariables noNames [] (variablesAfter noNames []) argsRequest)
        (.str "a=1".toList) ↔
      fieldsOnly.print (.str "a=1".toList) = fieldsOnly.noValue) :=
  bound_value_rendered_iff fieldsOnly {} noNames [] [] argsRequest (by decide) (by decide +kernel)

/-- `$args` is bound to the query and rendered as a missing value. -/
theorem args_not_rendered :
    let m : Variables Unit := setRequestVariables noNames [] Footprint.empty argsRequest
    m ('$' :: "args".toList) = some (.str "a=1".toList) ∧
    (∃ t, ({} : StringTemplateValue fieldsOnly).store ('$' :: "args".toList) = some t ∧
      t.valueIn m = some "<no value>".toList) ∧
    ¬ Renders fieldsOnly {} "args".toList m (.str "a=1".toList) := by
  intro m
  have stored : ({} : StringTemplateValue fieldsOnly).store ('$' :: "args".toList) =
      some { set := true, tpl := some "args".toList } := by rfl
  have shown : fieldsOnly.execute "args".toList m = some "<no value>".toList := by rfl
  refine ⟨by rfl, ⟨_, stored, shown⟩, ?_⟩
  rintro ⟨t, storedToo, rendered⟩
  obtain rfl := Option.some.inj (stored.symm.trans storedToo)
  have same : "<no value>".toList = "a=1".toList := Option.some.inj (shown.symm.trans rendered)
  exact absurd same (by decide)

end StringTemplate
