import Vince.LexProgress

/-!
# The lexer and the text of its input

Of a text without quotes, comments, escapes and expansions every rune but whitespace goes to a
token or to the pending word. The pending word is emitted by what ends it; the end of the file
does not.
-/

namespace LexText

open GoText ConfigLex LexTermination LexProgress Transitions StateTransition Relation

variable {s : LexState} {c : Char}

/-- The runes that do not stand for themselves in a word. -/
def marks : Text := ['"', '\'', '\\', '#', '$']

/-- A token ends with its last rune. -/
def Closes (text : Text) : Prop := ∀ last ∈ text.getLast?, isSpace last = true ∨ last ∈ terminals

theorem closes_concat (text : Text) (c : Char) :
    Closes (text ++ [c]) ↔ isSpace c = true ∨ c ∈ terminals := by
  simp [Closes]

def unspaced (text : Text) : Text := text.filter (!isSpace ·)

theorem unspaced_concat (text : Text) (c : Char) :
    unspaced (text ++ [c]) = unspaced text ++ (if isSpace c then [] else [c]) := by
  cases space : isSpace c <;> simp [unspaced, space]

/-- What has been read of a text without marks is in the tokens and in the pending word. -/
structure Kept (read : Text) (s : LexState) : Prop where
  text_eq : s.lexer.tokens.flatMap (·.text) ++ s.lexer.token = unspaced read
  point : s.point = .again ∨ s.point = .spaces ∧ s.lexer.token = []
  noDollar : '$' ∉ s.lexer.token
  pending : s.lexer.token = [] ↔ Closes read

theorem Kept.dispatch {read : Text} (kept : Kept read s) (unmarked : c ∉ marks)
    (word : isSpace c = false) (line : Nat) (iter : LineCounter) :
    Kept (read ++ [c]) ⟨(dispatch s.lexer ⟨c, line, false⟩).1, iter,
      (dispatch s.lexer ⟨c, line, false⟩).2⟩ := by
  have text := kept.text_eq
  have dollar : c ≠ '$' := fun same => unmarked (by simp [same, marks])
  have grown : unspaced (read ++ [c]) = unspaced read ++ [c] := by
    simp [unspaced_concat, word]
  by_cases pending : s.lexer.token = []
  · rw [dispatch_nil pending]
    have others : c ≠ '#' ∧ c ≠ '\\' ∧ ¬ (c = '"' ∨ c = '\'') := by
      simp [marks] at unmarked
      tauto
    rw [if_neg others.1, if_neg others.2.1, if_neg others.2.2]
    rw [pending, List.append_nil] at text
    by_cases stop : c ∈ terminals
    · rw [if_pos stop]
      refine ⟨?_, .inl rfl, by simp [pending], ?_⟩
      · simp [grown, pending, text]
      · simp [closes_concat, stop, pending]
    · rw [if_neg stop]
      refine ⟨?_, .inl rfl, by simpa using dollar.symm, ?_⟩
      · simp [grown, text]
      · simp [closes_concat, word, stop]
  · have slash : c ≠ '\\' := fun same => unmarked (by simp [same, marks])
    have noExpansion : ¬ (s.lexer.token.getLast? = some '$' ∧ c = '{') :=
      fun both => kept.noDollar (List.mem_of_getLast? both.1)
    rw [dispatch_pending pending, if_neg slash, if_neg noExpansion, plain_pending pending]
    by_cases stop : c ∈ terminals
    · rw [if_pos stop]
      refine ⟨?_, .inl rfl, by simp, ?_⟩
      · simp [grown, ← text]
      · simp [closes_concat, stop]
    · rw [if_neg stop]
      refine ⟨?_, .inl rfl, ?_, ?_⟩
      · simp [grown, ← text, Lexer.push]
      · simpa [Lexer.push, dollar.symm] using kept.noDollar
      · simp [closes_concat, word, stop, Lexer.push]

/-- One rune: everything is still kept, or a Lua directive was emitted. -/
theorem Kept.read {read rest : Text} (kept : Kept read s) (unmarked : c ∉ marks)
    (here : s.iter.input = c :: rest) :
    ∃ t, step s = some t ∧ t.iter.input = rest ∧
      (Kept (read ++ [c]) t ∨ HasLua t.lexer.tokens) := by
  obtain ⟨lx, ⟨input, line⟩, p⟩ := s
  dsimp only at here
  subst here
  have live : ∀ err, p ≠ .returned err := by
    rcases kept.point with same | ⟨same, -⟩ <;> dsimp only at same <;> simp [same]
  refine ⟨_, step_read live, rfl, ?_⟩
  cases space : isSpace c with
  | false =>
    left
    have dispatched := kept.dispatch unmarked space (countLine line c) ⟨rest, countLine line c⟩
    rcases kept.point with same | ⟨same, -⟩ <;> dsimp only at same <;> subst same <;>
      simpa [proceed, space] using dispatched
  | true =>
    have same : unspaced (read ++ [c]) = unspaced read := by simp [unspaced_concat, space]
    by_cases pending : lx.token = []
    · left
      have stays : proceed lx ⟨c, countLine line c, false⟩ p = (lx, .spaces) := by
        rcases kept.point with point | ⟨point, -⟩ <;> dsimp only at point <;>
          simp [point, proceed, space, afterWord, pending]
      rw [stays]
      exact ⟨same ▸ kept.text_eq, .inr ⟨rfl, pending⟩, kept.noDollar,
        iff_of_true pending ((closes_concat _ _).mpr (.inl space))⟩
    · have again : p = .again := kept.point.resolve_right fun both => pending both.2
      subst again
      have ends : proceed lx ⟨c, countLine line c, false⟩ .again = afterWord lx := by
        simp [proceed, space]
      rw [ends, afterWord, if_pos pending]
      dsimp only
      by_cases custom : (lx.emit lx.token lx.line false).custom = true
      · rw [if_pos custom]
        exact .inr (hasLua_luaEnter custom)
      · left
        rw [if_neg custom]
        refine ⟨?_, .inr ⟨rfl, rfl⟩, by simp, ?_⟩
        · simpa [same, Lexer.emit] using kept.text_eq
        · exact iff_of_true rfl ((closes_concat _ _).mpr (.inl space))

theorem kept_run {read rest : Text} (unmarked : ∀ c ∈ rest, c ∉ marks) (kept : Kept read s)
    (here : s.iter.input = rest) :
    Leads step s fun t => t.iter.input = [] ∧ Kept (read ++ rest) t ∨ HasLua t.lexer.tokens := by
  induction rest generalizing read s with
  | nil => exact .here (.inl ⟨here, by rwa [List.append_nil]⟩)
  | cons c rest ih =>
    obtain ⟨first, others⟩ := List.forall_mem_cons.mp unmarked
    obtain ⟨t, edge, after, keeps | lua⟩ := kept.read first here
    · have run := ih others keeps after
      rw [List.append_assoc, List.singleton_append] at run
      exact .next edge run
    · exact .next edge (.here (.inr lua))

/-- On a text of words, whitespace and terminals the tokens spell the text without its whitespace
exactly if its last rune ends a token: a word at the end of the file is dropped. -/
theorem no_text_lost_iff (input : Text) (tokens : List Token)
    (unmarked : ∀ c ∈ input, c ∉ marks) (returns : Returns input none tokens)
    (noLua : ∀ token ∈ tokens, token.text ∉ luaDirectives) :
    tokens.flatMap (·.text) = unspaced input ↔ Closes input := by
  have begun : Kept [] (start input) :=
    ⟨rfl, .inl rfl, by simp [start], by simp [start, Closes]⟩
  obtain ⟨t, path, ⟨ended, kept⟩ | ⟨token, emitted, lua⟩⟩ := kept_run unmarked begun rfl
  · have same := (returns_tokens returns path).2 ended
    rw [List.nil_append] at kept
    rw [← kept.pending, ← kept.text_eq, same]
    exact List.self_eq_append_right
  · exact absurd lua (noLua token ((returns_tokens returns path).1.subset emitted))

/-- `user www;` and a newline. -/
theorem no_text_lost_sample :
    ([⟨"user".toList, 1, false⟩, ⟨"www".toList, 1, false⟩, ⟨[';'], 1, false⟩] :
      List Token).flatMap (·.text) = unspaced "user www;\n".toList :=
  (no_text_lost_iff "user www;\n".toList _ (by simp [marks])
    ⟨run step 12 (start "user www;\n".toList), reaches_run _ _, rfl, rfl⟩ (by decide)).mpr
    (fun last found => .inl (by obtain rfl := Option.mem_some.mp found; decide))

/-- `user www` without a newline behind it gives one token. -/
theorem last_word_lost :
    ¬ ∀ (input : Text) (tokens : List Token), (∀ c ∈ input, c ∉ marks) →
      Returns input none tokens → (∀ token ∈ tokens, token.text ∉ luaDirectives) →
      tokens.flatMap (·.text) = unspaced input := by
  intro spelled
  have same := spelled "user www".toList [⟨"user".toList, 1, false⟩] (by simp [marks])
    ⟨run step 10 (start "user www".toList), reaches_run _ _, rfl, rfl⟩ (by decide)
  revert same
  decide

end LexText
