import Mathlib.Data.List.SplitOn
import Mathlib.Data.List.Sort

/-!
# Texts as the Go program handles them

A text is the sequence of runes that `bufio.Reader.ReadRune` and `range` over a
string deliver, so invalid bytes have already become U+FFFD. The functions below
follow the Go 1.13 standard library. `strconv.IsPrint` is a Unicode table and stays
a parameter; nothing is assumed about it.
-/

namespace GoText

abbrev Text := List Char

instance : LawfulBEq Text := inferInstance

/-- `unicode.IsSpace`: the code points with the White_Space property. -/
def isSpace (c : Char) : Bool :=
  let n := c.toNat
  (9 ≤ n && n ≤ 13) || n == 0x20 || n == 0x85 || n == 0xA0 || n == 0x1680 ||
    (0x2000 ≤ n && n ≤ 0x200A) || n == 0x2028 || n == 0x2029 || n == 0x202F ||
    n == 0x205F || n == 0x3000

/-- The zero rune, which `Next` returns together with an error. -/
def nul : Char := Char.ofNat 0

/-- `fmt`'s and `strconv`'s lower case digits. -/
def lowerhex (n : Nat) : Char := ("0123456789abcdef".toList).getD (n % 16) '0'

def hexDigits : Nat → Nat → Text
  | 0, _ => []
  | width + 1, n => hexDigits width (n / 16) ++ [lowerhex n]

/-- One rune of `strconv.Quote` (`appendEscapedRune` with the double quote). -/
def quoteRune (isPrint : Char → Bool) (c : Char) : Text :=
  if c = '"' ∨ c = '\\' then ['\\', c]
  else if isPrint c then [c]
  else match c.toNat with
    | 7 => "\\a".toList
    | 8 => "\\b".toList
    | 12 => "\\f".toList
    | 10 => "\\n".toList
    | 13 => "\\r".toList
    | 9 => "\\t".toList
    | 11 => "\\v".toList
    | n =>
      if n < 0x20 then "\\x".toList ++ hexDigits 2 n
      else if n < 0x10000 then "\\u".toList ++ hexDigits 4 n
      else "\\U".toList ++ hexDigits 8 n

def quote (isPrint : Char → Bool) (s : Text) : Text :=
  '"' :: s.flatMap (quoteRune isPrint) ++ ['"']

/-- `strings.Join`. -/
def join (sep : Text) : List Text → Text
  | [] => []
  | [s] => s
  | s :: rest => s ++ sep ++ join sep rest

/-- `strings.TrimLeft` and `strings.TrimRight` with a single character. -/
def trimLeft (c : Char) (s : Text) : Text := s.dropWhile (· = c)

def trimRight (c : Char) (s : Text) : Text := (s.reverse.dropWhile (· = c)).reverse

/-- `<` on strings. -/
def less (a b : Text) : Bool := List.lex a b fun x y => x.toNat < y.toNat

/-- `sort.Strings`. Byte order and code point order agree on UTF-8. -/
def sortStrings (names : List Text) : List Text :=
  names.insertionSort fun a b => List.lex b a (fun x y => x.toNat < y.toNat) = false

/-- The loop of `filepath.Clean` over the path elements; the stack is reversed. -/
def cleanElems (rooted : Bool) : List Text → List Text → List Text
  | stack, [] => stack
  | stack, elem :: elems =>
    if elem = [] ∨ elem = ['.'] then cleanElems rooted stack elems
    else if elem = ['.', '.'] then
      match stack with
      | top :: below =>
        if top = ['.', '.'] then cleanElems rooted (elem :: stack) elems
        else cleanElems rooted below elems
      | [] => if rooted then cleanElems rooted [] elems else cleanElems rooted [elem] elems
    else cleanElems rooted (elem :: stack) elems

namespace Filepath

def clean (path : Text) : Text :=
  let rooted := path.head? = some '/'
  let cleaned := join ['/'] (cleanElems rooted [] (path.splitOn '/')).reverse
  if rooted then '/' :: cleaned else if cleaned = [] then ['.'] else cleaned

def joinPath (dir name : Text) : Text :=
  if dir ≠ [] then clean (dir ++ '/' :: name) else if name ≠ [] then clean name else []

def dir (path : Text) : Text := clean (path.reverse.dropWhile (· ≠ '/')).reverse

def isAbs (path : Text) : Bool := path.head? = some '/'

end Filepath

example : Filepath.dir "/etc/nginx/nginx.conf".toList = "/etc/nginx".toList := by decide

example : Filepath.joinPath "conf".toList "../sites/./a.conf".toList = "sites/a.conf".toList := by
  decide

theorem less_nil (a : Text) : less a [] = false := by
  cases a <;> rfl

theorem less_cons (x y : Char) (a b : Text) : less (x :: a) (y :: b) = true ↔
    x.toNat < y.toNat ∨ x = y ∧ less a b = true := by
  simp [less, List.lex]

theorem less_irrefl (a : Text) : less a a = false := by
  induction a with
  | nil => rfl
  | cons x a ih =>
    rw [← Bool.not_eq_true, less_cons, not_or, not_and]
    exact ⟨Nat.lt_irrefl _, fun _ => by simp [ih]⟩

theorem less_trans {a b c : Text} (first : less a b = true) (second : less b c = true) :
    less a c = true := by
  induction a generalizing b c with
  | nil =>
    cases c with
    | nil =>
      rw [less_nil] at second
      cases second
    | cons z c => rfl
  | cons x a ih =>
    cases b with
    | nil =>
      rw [less_nil] at first
      cases first
    | cons y b =>
      cases c with
      | nil =>
        rw [less_nil] at second
        cases second
      | cons z c =>
        rw [less_cons] at first second ⊢
        rcases first with first | ⟨rfl, first⟩ <;> rcases second with second | ⟨rfl, second⟩
        · exact .inl (first.trans second)
        · exact .inl first
        · exact .inl second
        · exact .inr ⟨rfl, ih first second⟩

theorem eq_of_not_less {a b : Text} (first : less a b = false) (second : less b a = false) :
    a = b := by
  induction a generalizing b with
  | nil =>
    cases b with
    | nil => rfl
    | cons y b => cases first
  | cons x a ih =>
    cases b with
    | nil => cases second
    | cons y b =>
      rw [← Bool.not_eq_true, less_cons, not_or, not_and] at first second
      have same : x = y := Char.toNat_inj.mp (by omega)
      subst same
      have rest := ih (by simpa using first.2 rfl) (by simpa using second.2 rfl)
      rw [rest]

end GoText
