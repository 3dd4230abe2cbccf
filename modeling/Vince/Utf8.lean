import Mathlib.Data.Nat.Notation

/-!
# UTF-8 and its repair

Which byte strings are characters, how a decoder finds the one at the start of some bytes, and what
becomes of bytes when each one that starts no character is replaced by U+FFFD. That leaves them as
they are iff they are a sequence of characters.
-/

namespace Utf8

abbrev Bytes := List (Fin 256)

def isTail (b : Fin 256) : Bool := 0x80 ≤ b.val && b.val ≤ 0xBF

/-- The encodings of single characters, with the rows of the table that fixes them. -/
def isChar : Bytes → Bool
  | [a] => a.val ≤ 0x7F
  | [a, b] => 0xC2 ≤ a.val && a.val ≤ 0xDF && isTail b
  | [a, b, c] =>
    (a.val = 0xE0 && 0xA0 ≤ b.val && b.val ≤ 0xBF ||
      0xE1 ≤ a.val && a.val ≤ 0xEC && isTail b ||
      a.val = 0xED && 0x80 ≤ b.val && b.val ≤ 0x9F ||
      0xEE ≤ a.val && a.val ≤ 0xEF && isTail b) && isTail c
  | [a, b, c, d] =>
    (a.val = 0xF0 && 0x90 ≤ b.val && b.val ≤ 0xBF ||
      0xF1 ≤ a.val && a.val ≤ 0xF3 && isTail b ||
      a.val = 0xF4 && 0x80 ≤ b.val && b.val ≤ 0x8F) && isTail c && isTail d
  | _ => false

inductive Valid : Bytes → Prop
  | nil : Valid []
  | char {c rest : Bytes} (char : isChar c = true) (tail : Valid rest) : Valid (c ++ rest)

/-- The length of the character that the bytes start with. -/
def charLen (s : Bytes) : Option ℕ := [1, 2, 3, 4].find? fun n => isChar (s.take n)

/-- U+FFFD -/
def replacement : Bytes := [⟨0xEF, by decide⟩, ⟨0xBF, by decide⟩, ⟨0xBD, by decide⟩]

/-- The number counts bytes of a character that is being copied. -/
def sanitizeFrom : ℕ → Bytes → Bytes
  | _, [] => []
  | copied + 1, b :: rest => b :: sanitizeFrom copied rest
  | 0, b :: rest =>
    match charLen (b :: rest) with
    | some n => b :: sanitizeFrom (n - 1) rest
    | none => replacement ++ sanitizeFrom 0 rest

def sanitize (s : Bytes) : Bytes := sanitizeFrom 0 s

/-! ## The character at the start -/

/-- How many bytes a character has, by its first one. -/
def lead (a : Fin 256) : ℕ :=
  if a.val ≤ 0x7F then 1 else if a.val ≤ 0xDF then 2 else if a.val ≤ 0xEF then 3 else 4

theorem length_of_isChar {a : Fin 256} {s : Bytes} (char : isChar (a :: s) = true) :
    (a :: s).length = lead a := by
  unfold lead
  match s with
  | [] =>
    simp only [isChar, decide_eq_true_eq] at char
    rw [if_pos char]
    rfl
  | [b] =>
    simp only [isChar, Bool.and_eq_true, decide_eq_true_eq] at char
    rw [if_neg (by omega), if_pos (by omega)]
    rfl
  | [b, c] =>
    simp only [isChar, Bool.and_eq_true, Bool.or_eq_true, decide_eq_true_eq] at char
    rw [if_neg (by omega), if_neg (by omega), if_pos (by omega)]
    rfl
  | [b, c, d] =>
    simp only [isChar, Bool.and_eq_true, Bool.or_eq_true, decide_eq_true_eq] at char
    rw [if_neg (by omega), if_neg (by omega), if_neg (by omega)]
    rfl
  | b :: c :: d :: e :: rest => cases char

theorem exists_cons_of_isChar {c : Bytes} (char : isChar c = true) : ∃ a s, c = a :: s := by
  cases c with
  | nil => cases char
  | cons a s => exact ⟨a, s, rfl⟩

/-- A character is found whatever comes after it. -/
theorem charLen_append {c : Bytes} (char : isChar c = true) (rest : Bytes) :
    charLen (c ++ rest) = some c.length := by
  obtain ⟨a, s, rfl⟩ := exists_cons_of_isChar char
  have length := length_of_isChar char
  have here : isChar ((a :: s ++ rest).take (a :: s).length) = true := by
    rw [List.take_left]
    exact char
  -- what is shorter starts with the same byte, which tells the length
  have shorter : ∀ n, 0 < n → n < (a :: s).length → isChar ((a :: s ++ rest).take n) = false := by
    intro n positive below
    obtain ⟨n, rfl⟩ : ∃ k, n = k + 1 := ⟨n - 1, by omega⟩
    rw [List.cons_append, List.take_succ_cons]
    cases other : isChar (a :: (s ++ rest).take n) with
    | false => rfl
    | true =>
      have same := length_of_isChar other
      rw [← length, List.length_cons, List.length_take, List.length_append] at same
      rw [List.length_cons] at same below
      omega
  have bounds : (a :: s).length = 1 ∨ (a :: s).length = 2 ∨ (a :: s).length = 3 ∨
      (a :: s).length = 4 := by
    rw [length, lead]
    split
    · omega
    · split
      · omega
      · split <;> omega
  rw [charLen]
  generalize a :: s ++ rest = whole at here shorter
  rcases bounds with one | two | three | four
  · rw [one] at here ⊢
    simp [here]
  · rw [two] at here shorter ⊢
    simp [here, shorter 1]
  · rw [three] at here shorter ⊢
    simp [here, shorter 1, shorter 2]
  · rw [four] at here shorter ⊢
    simp [here, shorter 1, shorter 2, shorter 3]

/-- Bytes are read as characters and as single bytes that start none. -/
theorem chars_induction {motive : Bytes → Prop} (nil : motive [])
    (char : ∀ c rest, isChar c = true → motive rest → motive (c ++ rest))
    (invalid : ∀ b rest, charLen (b :: rest) = none → motive rest → motive (b :: rest))
    (s : Bytes) : motive s := by
  induction length : s.length using Nat.strongRecOn generalizing s with
  | ind k ih =>
    cases s with
    | nil => exact nil
    | cons b rest =>
      rw [List.length_cons] at length
      cases found : charLen (b :: rest) with
      | none => exact invalid b rest found (ih rest.length (by omega) rest rfl)
      | some n =>
        have listed := List.mem_of_find?_eq_some found
        have positive : 0 < n := by
          simp only [List.mem_cons, List.not_mem_nil, or_false] at listed
          omega
        have first : isChar ((b :: rest).take n) = true := by
          have holds := List.find?_some found
          exact holds
        rw [← List.take_append_drop n (b :: rest)]
        refine char _ _ first (ih _ ?_ _ rfl)
        rw [List.length_drop, List.length_cons]
        omega

/-! ## What is replaced -/

theorem sanitizeFrom_append (s rest : Bytes) :
    sanitizeFrom s.length (s ++ rest) = s ++ sanitizeFrom 0 rest := by
  induction s with
  | nil => rfl
  | cons b s ih =>
    rw [List.length_cons, List.cons_append, sanitizeFrom, ih]
    rfl

theorem sanitize_char {c : Bytes} (char : isChar c = true) (rest : Bytes) :
    sanitize (c ++ rest) = c ++ sanitize rest := by
  have found := charLen_append char rest
  obtain ⟨a, s, rfl⟩ := exists_cons_of_isChar char
  rw [List.cons_append] at found
  rw [sanitize, List.cons_append, sanitizeFrom, found]
  dsimp only
  rw [List.length_cons, Nat.add_sub_cancel, sanitizeFrom_append]
  rfl

theorem sanitize_invalid {b : Fin 256} {rest : Bytes} (none : charLen (b :: rest) = none) :
    sanitize (b :: rest) = replacement ++ sanitize rest := by
  rw [sanitize, sanitizeFrom, none]
  rfl

theorem length_le_sanitize (s : Bytes) : s.length ≤ (sanitize s).length := by
  induction s using chars_induction with
  | nil => exact Nat.le_refl _
  | char c rest char ih =>
    rw [sanitize_char char, List.length_append, List.length_append]
    omega
  | invalid b rest none ih =>
    rw [sanitize_invalid none, List.length_append, List.length_cons]
    have three : replacement.length = 3 := rfl
    omega

theorem sanitize_eq_iff (s : Bytes) : sanitize s = s ↔ Valid s := by
  constructor
  · intro same
    induction s using chars_induction with
    | nil => exact .nil
    | char c rest char ih =>
      rw [sanitize_char char] at same
      exact .char char (ih (List.append_cancel_left same))
    | invalid b rest none ih =>
      rw [sanitize_invalid none] at same
      have lengths := congrArg List.length same
      have longer := length_le_sanitize rest
      have three : replacement.length = 3 := rfl
      rw [List.length_append, List.length_cons] at lengths
      omega
  · intro valid
    induction valid with
    | nil => rfl
    | char char tail ih => rw [sanitize_char char, ih]

theorem valid_sanitize (s : Bytes) : Valid (sanitize s) := by
  induction s using chars_induction with
  | nil => exact .nil
  | char c rest char ih =>
    rw [sanitize_char char]
    exact .char char ih
  | invalid b rest none ih =>
    rw [sanitize_invalid none]
    exact .char (by decide) ih

end Utf8
