import Vince.GoNumbers

/-!
# Rates (`parseRate`)

A rate is a number of requests and a unit of time, of which there is one. The unit's seconds are
truncated to an integer before the number is divided by them, so that a unit shorter than a second
makes the division panic and the rest of a unit that is not whole is lost.
-/

namespace ParseRate

open GoText GoNumbers
open Effects (Failure bind_eq_ok)

inductive RateError where
  /-- `vince: invalid rate value` -/
  | invalidRate
  | atoi (e : NumError)
  | duration (e : DurationError)
  deriving DecidableEq

/-- `strings.TrimSuffix`. -/
def trimSuffix (s ending : Text) : Text :=
  if ending.isSuffixOf s then s.take (s.length - ending.length) else s

/-- The error of a call is returned to the caller. -/
def orReturn {ε α : Type} (wrap : ε → RateError) : Except ε α → Except (Failure RateError) α
  | .ok a => .ok a
  | .error e => .error (.error (wrap e))

def parseRate (s : Text) : Except (Failure RateError) ℤ :=
  match s.splitOn '/' with
  | [count, unit] =>
    let r := trimSuffix count ['r']
    if unit = ['s'] then orReturn .atoi (atoi r)
    else do
      let duration ← orReturn .duration (parseDuration ('1' :: unit))
      let v ← orReturn .atoi (atoi r)
      if wholeSeconds duration = 0 then .error .panic else .ok (v.tdiv (wholeSeconds duration))
  | _ => .error (.error .invalidRate)

/-! ## What the text denotes -/

/-- A count and a unit that the text is made of, with their numbers. -/
structure Denotes (s count unit : Text) (v d : ℤ) : Prop where
  text : s = count ++ '/' :: unit ∨ s = count ++ 'r' :: '/' :: unit
  count_eq : atoi count = .ok v
  unit_eq : parseDuration ('1' :: unit) = .ok d

/-- The parser returns, and a number that it returns is the number of requests in a second. -/
def Exact (s : Text) : Prop :=
  parseRate s ≠ .error .panic ∧
    ∀ n, parseRate s = .ok n →
      ∃ count unit v d, Denotes s count unit v d ∧ 0 < d ∧ n = v * second / d

theorem trimSuffix_r (count : Text) : trimSuffix (count ++ ['r']) ['r'] = count := by
  have ends : ['r'].isSuffixOf (count ++ ['r']) = true :=
    List.isSuffixOf_iff_suffix.mpr (List.suffix_append _ _)
  rw [trimSuffix, if_pos ends, List.length_append, Nat.add_sub_cancel, List.take_left]

theorem trimSuffix_of_atoi {count : Text} {v : ℤ} (parsed : atoi count = .ok v) :
    trimSuffix count ['r'] = count := by
  obtain ⟨c, last, digit⟩ := atoi_last parsed
  have other : ¬ ['r'].isSuffixOf count = true := by
    intro ends
    obtain ⟨front, rfl⟩ := List.isSuffixOf_iff_suffix.mp ends
    rw [List.getLast?_append_of_ne_nil _ (List.cons_ne_nil _ _)] at last
    cases last
    exact absurd digit (by decide)
  rw [trimSuffix, if_neg other]

/-- Two parts, and no other way to see the text as two. -/
theorem parts_unique {s count unit p x : Text} (parts : s.splitOn '/' = [p, x])
    (text : s = count ++ '/' :: unit) : count = p ∧ unit = x := by
  rw [text, List.splitOn_append_cons_self] at parts
  have whole (t : Text) : ['/'].intercalate (t.splitOn '/') = t := List.intercalate_splitOn '/'
  have first := whole count
  have second := whole unit
  have some₁ := List.length_pos_of_ne_nil (List.splitOn_ne_nil '/' count)
  have some₂ := List.length_pos_of_ne_nil (List.splitOn_ne_nil '/' unit)
  have lengths := congrArg List.length parts
  simp only [List.length_append, List.length_cons, List.length_nil] at lengths
  obtain ⟨p', count_eq⟩ := List.length_eq_one_iff.mp (show (count.splitOn '/').length = 1 by omega)
  obtain ⟨x', unit_eq⟩ := List.length_eq_one_iff.mp (show (unit.splitOn '/').length = 1 by omega)
  rw [count_eq, unit_eq] at parts
  rw [count_eq] at first
  rw [unit_eq] at second
  simp at parts first second
  exact ⟨first.symm.trans parts.1, second.symm.trans parts.2⟩

theorem Denotes.read {s count unit p x : Text} {v d : ℤ} (denotes : Denotes s count unit v d)
    (parts : s.splitOn '/' = [p, x]) : trimSuffix p ['r'] = count ∧ x = unit := by
  rcases denotes.text with text | text
  · obtain ⟨rfl, rfl⟩ := parts_unique parts text
    exact ⟨trimSuffix_of_atoi denotes.count_eq, rfl⟩
  · rw [List.append_cons] at text
    obtain ⟨rfl, rfl⟩ := parts_unique parts text
    exact ⟨trimSuffix_r count, rfl⟩

/-- The numbers of a text are those that the parser reads. -/
theorem Denotes.numbers {s count unit p x : Text} {v v' d d' : ℤ}
    (denotes : Denotes s count unit v d) (parts : s.splitOn '/' = [p, x])
    (requests : atoi (trimSuffix p ['r']) = .ok v')
    (length : parseDuration ('1' :: x) = .ok d') : v = v' ∧ d = d' := by
  obtain ⟨rfl, rfl⟩ := denotes.read parts
  rw [denotes.count_eq] at requests
  rw [denotes.unit_eq] at length
  exact ⟨Except.ok.inj requests, Except.ok.inj length⟩

end ParseRate
