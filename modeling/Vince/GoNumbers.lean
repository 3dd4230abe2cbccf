import Vince.Binary64
import Vince.Effects
import Vince.GoText

/-!
# Numbers and durations in texts

`strconv.Atoi` where an `int` has 64 bits, and `time.ParseDuration` and `Duration.Seconds`, after
the Go 1.13 standard library. What is computed there in floating point is rounded here as well.
-/

namespace GoNumbers

open GoText
open Effects (bind_eq_ok)

def isDigit (c : Char) : Bool := '0' ≤ c && c ≤ '9'

def digit (c : Char) : ℕ := c.toNat - '0'.toNat

/-! ## `strconv.Atoi` -/

inductive NumError where
  | invalidSyntax
  | outOfRange
  deriving DecidableEq

/-- The loop of `ParseUint`, with the number so far. -/
def parseUint : ℕ → Text → Except NumError ℕ
  | n, [] => .ok n
  | n, c :: s =>
    if !isDigit c then .error .invalidSyntax
    else if 2 ^ 64 ≤ 10 * n + digit c then .error .outOfRange
    else parseUint (10 * n + digit c) s

def unsigned (s : Text) : Except NumError ℕ :=
  if s = [] then .error .invalidSyntax else parseUint 0 s

def atoi : Text → Except NumError ℤ
  | '-' :: s => do
    let n ← unsigned s
    if 2 ^ 63 < n then .error .outOfRange else .ok (-n)
  | '+' :: s => do
    let n ← unsigned s
    if 2 ^ 63 ≤ n then .error .outOfRange else .ok n
  | s => do
    let n ← unsigned s
    if 2 ^ 63 ≤ n then .error .outOfRange else .ok n

example : atoi "-17".toList = .ok (-17) := by decide

theorem parseUint_digits {n m : ℕ} {s : Text} (parsed : parseUint n s = .ok m) :
    s.all isDigit = true := by
  induction s generalizing n with
  | nil => rfl
  | cons c s ih =>
    rw [parseUint] at parsed
    split at parsed
    · cases parsed
    · rename_i digit
      split at parsed
      · cases parsed
      · rw [List.all_cons, ih parsed, Bool.and_true]
        simpa using digit

theorem unsigned_digits {n : ℕ} {s : Text} (parsed : unsigned s = .ok n) :
    s ≠ [] ∧ s.all isDigit = true := by
  rw [unsigned] at parsed
  split at parsed
  · cases parsed
  · exact ⟨‹s ≠ []›, parseUint_digits parsed⟩

/-- What `Atoi` accepts ends in a digit. -/
theorem atoi_last {s : Text} {v : ℤ} (parsed : atoi s = .ok v) :
    ∃ c, s.getLast? = some c ∧ isDigit c = true := by
  have last {t : Text} {n : ℕ} (front : Text) (digits : unsigned t = .ok n) :
      ∃ c, (front ++ t).getLast? = some c ∧ isDigit c = true := by
    obtain ⟨nonempty, all⟩ := unsigned_digits digits
    refine ⟨t.getLast nonempty, ?_, ?_⟩
    · rw [List.getLast?_append_of_ne_nil _ nonempty, List.getLast?_eq_some_getLast nonempty]
    · exact List.all_eq_true.mp all _ (List.getLast_mem nonempty)
  rw [atoi.eq_def] at parsed
  split at parsed
  · obtain ⟨n, digits, -⟩ := bind_eq_ok parsed
    exact last ['-'] digits
  · obtain ⟨n, digits, -⟩ := bind_eq_ok parsed
    exact last ['+'] digits
  · obtain ⟨n, digits, -⟩ := bind_eq_ok parsed
    exact last [] digits

/-! ## `time.ParseDuration` -/

inductive DurationError where
  | invalid
  | missingUnit
  | unknownUnit (unit : Text)
  deriving DecidableEq

/-- `unitMap`, in nanoseconds. -/
def units : List (Text × ℕ) := [
  ("ns".toList, 1),
  ("us".toList, 10 ^ 3),
  ("µs".toList, 10 ^ 3),
  ("μs".toList, 10 ^ 3),
  ("ms".toList, 10 ^ 6),
  ("s".toList, 10 ^ 9),
  ("m".toList, 60 * 10 ^ 9),
  ("h".toList, 3600 * 10 ^ 9)]

def leadingInt : ℕ → Text → Option (ℕ × Text)
  | x, [] => some (x, [])
  | x, c :: s =>
    if !isDigit c then some (x, c :: s)
    else if 2 ^ 63 ≤ 10 * x + digit c then none
    else leadingInt (10 * x + digit c) s

/-- Digits that do not fit are skipped. The scale is a floating-point number. -/
def leadingFraction : ℕ → ℚ → Bool → Text → ℕ × ℚ × Text
  | x, scale, _, [] => (x, scale, [])
  | x, scale, overflow, c :: s =>
    if !isDigit c then (x, scale, c :: s)
    else if overflow || 2 ^ 63 ≤ 10 * x + digit c then leadingFraction x scale true s
    else leadingFraction (10 * x + digit c) (Binary64.round (scale * 10)) false s

/-- What stands after a period: its digits, their scale, whether there are any, and the rest. -/
structure Fraction where
  digits : ℕ
  scale : ℚ
  any : Bool
  rest : Text

def fraction : Text → Fraction
  | '.' :: s =>
    let read := leadingFraction 0 1 false s
    ⟨read.1, read.2.1, read.2.2.length ≠ s.length, read.2.2⟩
  | s => ⟨0, 1, false, s⟩

def inNumber (c : Char) : Bool := c = '.' || isDigit c

/-- The nanoseconds of the digits after a period. -/
def fractionOf (unit f : ℕ) (scale : ℚ) : ℕ :=
  if f > 0 then
    (Binary64.trunc (Binary64.round (Binary64.round f * Binary64.round (unit / scale)))).toNat
  else 0

/-- The nanoseconds of a number with a unit. -/
def scaled (v f : ℕ) (scale : ℚ) (unit : ℕ) : Except DurationError ℕ :=
  if 2 ^ 63 ≤ v * unit then .error .invalid
  else if 2 ^ 63 ≤ v * unit + fractionOf unit f scale then .error .invalid
  else .ok (v * unit + fractionOf unit f scale)

/-- A unit, and the rest. -/
def unit (s : Text) : Except DurationError (ℕ × Text) :=
  let u := s.takeWhile fun c => !inNumber c
  if u = [] then .error .missingUnit
  else match units.lookup u with
    | none => .error (.unknownUnit u)
    | some n => .ok (n, s.dropWhile fun c => !inNumber c)

/-- One round of the loop: a number with its unit, and the rest. -/
def component (s : Text) : Except DurationError (ℕ × Text) :=
  if !(s.take 1).all inNumber then .error .invalid
  else match leadingInt 0 s with
    | none => .error .invalid
    | some (v, rest) =>
      let part := fraction rest
      if rest.length = s.length && !part.any then .error .invalid
      else do
        let (unit, rest) ← unit part.rest
        let n ← scaled v part.digits part.scale unit
        .ok (n, rest)

def components : ℕ → ℕ → Text → Option (Except DurationError ℕ)
  | _, d, [] => some (.ok d)
  | 0, _, _ :: _ => none
  | fuel + 1, d, s => match component s with
    | .error e => some (.error e)
    | .ok (v, rest) =>
      if 2 ^ 63 ≤ d + v then some (.error .invalid) else components fuel (d + v) rest

theorem leadingInt_length {x v : ℕ} {s rest : Text} (read : leadingInt x s = some (v, rest)) :
    rest.length ≤ s.length := by
  induction s generalizing x with
  | nil =>
    cases read
    exact le_rfl
  | cons c s ih =>
    rw [leadingInt] at read
    split at read
    · cases read
      exact le_rfl
    · split at read
      · cases read
      · have shorter := ih read
        rw [List.length_cons]
        omega

theorem leadingFraction_length (x : ℕ) (scale : ℚ) (overflow : Bool) (s : Text) :
    (leadingFraction x scale overflow s).2.2.length ≤ s.length := by
  induction s generalizing x scale overflow with
  | nil => exact le_rfl
  | cons c s ih =>
    rw [leadingFraction]
    split
    · exact le_rfl
    · split
      · exact (ih ..).trans (Nat.le_succ _)
      · exact (ih ..).trans (Nat.le_succ _)

theorem fraction_length (s : Text) : (fraction s).rest.length ≤ s.length := by
  rw [fraction.eq_def]
  split
  · exact (leadingFraction_length ..).trans (Nat.le_succ _)
  · exact le_rfl

theorem units_pos {u : Text} {n : ℕ} (found : units.lookup u = some n) : 0 < n := by
  have all : ∀ entry ∈ units, 0 < entry.2 := by decide
  obtain ⟨before, after, same, -⟩ := List.lookup_eq_some_iff.mp found
  exact all (u, n) (by simp [same])

theorem unit_ok {s rest : Text} {n : ℕ} (read : unit s = .ok (n, rest)) :
    0 < n ∧ rest.length < s.length := by
  rw [unit] at read
  split at read
  · cases read
  · rename_i nonempty
    split at read
    · cases read
    · rename_i n found
      cases read
      refine ⟨units_pos found, ?_⟩
      have whole := congrArg List.length
        (List.takeWhile_append_dropWhile (p := fun c => !inNumber c) (l := s))
      have some := List.length_pos_of_ne_nil nonempty
      rw [List.length_append] at whole
      omega

/-- What a round reads. -/
theorem component_ok {s rest : Text} {n : ℕ} (read : component s = .ok (n, rest)) :
    ∃ v after unit, leadingInt 0 s = some (v, after) ∧ 0 < unit ∧
      rest.length < after.length ∧
      scaled v (fraction after).digits (fraction after).scale unit = .ok n := by
  rw [component] at read
  split at read
  · cases read
  · split at read
    · cases read
    · rename_i v after lead
      dsimp only at read
      split at read
      · cases read
      · obtain ⟨⟨unit, rest'⟩, named, read⟩ := bind_eq_ok read
        obtain ⟨m, value, read⟩ := bind_eq_ok read
        cases read
        obtain ⟨pos, shorter⟩ := unit_ok named
        have within := fraction_length after
        exact ⟨v, after, unit, lead, pos, Nat.lt_of_lt_of_le shorter within, value⟩

theorem component_shorter {s rest : Text} {n : ℕ} (read : component s = .ok (n, rest)) :
    rest.length < s.length := by
  obtain ⟨v, after, unit, lead, -, shorter, -⟩ := component_ok read
  have within := leadingInt_length lead
  omega

/-- The loop ends before it has made as many rounds as there are characters. -/
theorem components_isSome {fuel : ℕ} {s : Text} (enough : s.length ≤ fuel) (d : ℕ) :
    (components fuel d s).isSome = true := by
  induction fuel generalizing d s with
  | zero =>
    rw [List.length_eq_zero_iff.mp (Nat.le_zero.mp enough), components]
    rfl
  | succ fuel ih =>
    cases s with
    | nil => rfl
    | cons c s =>
      simp only [components]
      split
      · rfl
      · rename_i v rest read
        have shorter := component_shorter read
        split
        · rfl
        · exact ih (by omega) _

/-- A duration without its sign. -/
def nonnegative (s : Text) : Except DurationError ℕ :=
  if s = ['0'] then .ok 0
  else if s = [] then .error .invalid
  else (components s.length 0 s).get (components_isSome le_rfl 0)

def parseDuration : Text → Except DurationError ℤ
  | '-' :: s => (nonnegative s).map fun d => -(d : ℤ)
  | '+' :: s => (nonnegative s).map Nat.cast
  | s => (nonnegative s).map Nat.cast

example : parseDuration "1h30m".toList = .ok (5400 * 10 ^ 9) := by decide

def second : ℤ := 10 ^ 9

/-- A whole number of seconds and a fraction, added up in floating point. -/
def seconds (d : ℤ) : ℚ :=
  Binary64.round (Binary64.round (d.tdiv second) +
    Binary64.round (Binary64.round (d.tmod second) / Binary64.round second))

/-- The conversion of the seconds to an integer. -/
def wholeSeconds (d : ℤ) : ℤ := Binary64.trunc (seconds d)

section Seconds

variable {d : ℤ}

end Seconds

end GoNumbers
