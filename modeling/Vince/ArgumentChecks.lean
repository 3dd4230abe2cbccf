import Mathlib.Algebra.Ring.Nat
import Mathlib.Data.Nat.Bitwise
import Mathlib.Data.Multiset.Defs
import Vince.ConfigAnalyze

/-!
# What the argument check accepts

Every call of `analyze` that comes to the argument check reverses the masks of its directive in
the table that all calls share. The masks of a directive, without their order, are therefore what
a history of calls keeps, and the verdict depends on nothing else of them. `Admits` says what a
mask accepts in terms of the flags; the shift of the source agrees with it for every number of
arguments.
-/

namespace ArgumentChecks

open GoText ConfigLex DirectiveTable ConfigAnalyze

/-! ## What a mask admits -/

def Has (mask flag : Mask) : Prop := mask &&& flag ≠ 0

instance (mask flag : Mask) : Decidable (Has mask flag) := inferInstanceAs (Decidable (_ ≠ _))

/-- The flag for exactly `n` arguments, at position `n`. -/
def takeFlags : List Mask :=
  [ngxConfNoArgs, ngxConfTake1, ngxConfTake2, ngxConfTake3, ngxConfTake4, ngxConfTake5,
    ngxConfTake6, ngxConfTake7]

/-- The word, each of its letters small or capital. -/
def AnyCase (value word : Text) : Prop :=
  List.Forall₂ (fun c letter => c = letter ∨ c = letter.toUpper) value word

def IsFlagValue (value : Text) : Prop :=
  AnyCase value "on".toList ∨ AnyCase value "off".toList

def AdmitsTerm (mask : Mask) (term : Text) : Prop :=
  (Has mask ngxConfBlock ∧ term = ['{']) ∨ (¬ Has mask ngxConfBlock ∧ term = [';'])

def AdmitsCount (mask : Mask) (args : List Text) : Prop :=
  (∃ flag ∈ takeFlags[args.length]?, Has mask flag) ∨
    (Has mask ngxConfFlag ∧ ∃ value, args = [value] ∧ IsFlagValue value) ∨
    Has mask ngxConfAny ∨
    (Has mask ngxConf1More ∧ 1 ≤ args.length) ∨
    (Has mask ngxConf2More ∧ 2 ≤ args.length)

def Admits (mask : Mask) (args : List Text) (term : Text) : Prop :=
  AdmitsTerm mask term ∧ AdmitsCount mask args

variable {mask : Mask} {masks : List Mask} {args : List Text} {term value : Text}

theorem takeFlags_eq (n : Nat) : takeFlags[n]? = if n ≤ 7 then some (2 ^ n) else none := by
  have powers : ∀ n ≤ 7, takeFlags[n]? = some (2 ^ n) := by decide
  by_cases small : n ≤ 7
  · rw [if_pos small, powers n small]
  · rw [if_neg small, List.getElem?_eq_none]
    change 8 ≤ n
    omega

/-- The shift selects the flag for `n` arguments, and the guard keeps it off the other bits. -/
theorem shift_iff (n : Nat) :
    (mask >>> n &&& 1 ≠ 0 ∧ n ≤ 7) ↔ ∃ flag ∈ takeFlags[n]?, Has mask flag := by
  have bit : mask >>> n &&& 1 ≠ 0 ↔ Has mask (2 ^ n) := by
    rw [Has, Nat.and_two_pow, Nat.and_comm, ← bne_iff_ne]
    change mask.testBit n = true ↔ _
    cases mask.testBit n <;> simp
  rw [takeFlags_eq, bit]
  by_cases small : n ≤ 7
  · simp [small]
  · simp [small]

theorem toNat_toLower (c : Char) :
    c.toLower.toNat = if 65 ≤ c.toNat ∧ c.toNat ≤ 90 then c.toNat + 32 else c.toNat := by
  have bounds : c.val ≥ 'A'.val ∧ c.val ≤ 'Z'.val ↔ 65 ≤ c.toNat ∧ c.toNat ≤ 90 := Iff.rfl
  delta Char.toLower
  split
  · rename_i capital
    have small := (bounds.mp capital).2
    rw [if_pos (bounds.mp capital)]
    change (c.val + 32).toNat = c.val.toNat + 32
    rw [UInt32.toNat_add, Nat.mod_eq_of_lt]
    · rfl
    · change c.toNat + 32 < _
      omega
  · rename_i other
    rw [if_neg (mt bounds.mpr other)]

theorem toNat_toUpper {letter : Char} (lower : 97 ≤ letter.toNat ∧ letter.toNat ≤ 122) :
    letter.toUpper.toNat + 32 = letter.toNat := by
  have bounds : 'a'.val ≤ letter.val ∧ letter.val ≤ 'z'.val := lower
  delta Char.toUpper
  rw [dif_pos bounds]
  change (letter.val + _).toNat + 32 = letter.val.toNat
  rw [UInt32.toNat_add]
  change (letter.toNat + 4294967264) % 4294967296 + 32 = letter.toNat
  omega

theorem toLower_eq_iff {c letter : Char} (lower : 97 ≤ letter.toNat ∧ letter.toNat ≤ 122) :
    c.toLower = letter ↔ c = letter ∨ c = letter.toUpper := by
  have upper := toNat_toUpper lower
  simp only [← Char.toNat_inj, toNat_toLower]
  split <;> omega

theorem map_toLower_iff {word : Text}
    (lower : ∀ letter ∈ word, 97 ≤ letter.toNat ∧ letter.toNat ≤ 122) :
    value.map Char.toLower = word ↔ AnyCase value word := by
  induction value generalizing word with
  | nil =>
    cases word with
    | nil => simp [AnyCase]
    | cons letter word => simp [AnyCase]
  | cons c value ih =>
    cases word with
    | nil => simp [AnyCase]
    | cons letter word =>
      have rest := ih fun letter mem => lower letter (List.mem_cons_of_mem _ mem)
      rw [List.map_cons, List.cons.injEq, toLower_eq_iff (lower letter List.mem_cons_self), rest,
        AnyCase, AnyCase, List.forall₂_cons]

theorem validFlag_iff : validFlag value = true ↔ IsFlagValue value := by
  have on : ∀ letter ∈ "on".toList, 97 ≤ letter.toNat ∧ letter.toNat ≤ 122 := by simp
  have off : ∀ letter ∈ "off".toList, 97 ≤ letter.toNat ∧ letter.toNat ≤ 122 := by simp
  rw [validFlag, IsFlagValue, ← map_toLower_iff on, ← map_toLower_iff off]
  simp

theorem admitsArgs_iff : admitsArgs mask args = true ↔ AdmitsCount mask args := by
  have flag : (args.length = 1 ∧ validFlag (args.headD []) = true) ↔
      ∃ value, args = [value] ∧ IsFlagValue value := by
    constructor
    · rintro ⟨one, valid⟩
      obtain ⟨value, rfl⟩ := List.length_eq_one_iff.mp one
      exact ⟨value, rfl, validFlag_iff.mp valid⟩
    · rintro ⟨value, rfl, valid⟩
      exact ⟨rfl, validFlag_iff.mpr valid⟩
  rw [AdmitsCount, ← shift_iff, ← flag]
  simp only [admitsArgs, Has, Bool.or_eq_true, Bool.and_eq_true, decide_eq_true_eq, or_assoc,
    and_assoc, ge_iff_le]

/-! ## The loop over the masks -/

theorem map_cons_ne {reason : Text} {found : Option (List Text)} :
    found.map (reason :: ·) ≠ some [] := by
  cases found <;> simp

theorem map_cons_none {reason : Text} {found : Option (List Text)} :
    found.map (reason :: ·) = none ↔ found = none := by
  cases found <;> simp

/-- One mask: it is admitted and ends the loop, or it leaves a reason. -/
theorem reasons_cons (mask : Mask) (masks : List Mask) (args : List Text) (term : Text) :
    (Admits mask args term ∧ reasons args term (mask :: masks) = none) ∨
      (¬ Admits mask args term ∧ ∃ reason, reasons args term (mask :: masks) =
        (reasons args term masks).map (reason :: ·)) := by
  rw [reasons, Admits, AdmitsTerm, ← admitsArgs_iff, Has]
  split
  · rename_i unopened
    exact .inr ⟨fun admitted => by tauto, _, rfl⟩
  split
  · rename_i unended
    exact .inr ⟨fun admitted => by tauto, _, rfl⟩
  rename_i opened ended
  split
  · rename_i counted
    exact .inl ⟨⟨by tauto, counted⟩, rfl⟩
  rename_i uncounted
  split
  · exact .inr ⟨fun admitted => uncounted admitted.2, _, rfl⟩
  · exact .inr ⟨fun admitted => uncounted admitted.2, _, rfl⟩

theorem reasons_none_iff :
    reasons args term masks = none ↔ ∃ mask ∈ masks, Admits mask args term := by
  induction masks with
  | nil => simp [reasons]
  | cons mask masks ih =>
    rcases reasons_cons mask masks args term with ⟨admitted, done⟩ | ⟨refused, reason, left⟩
    · exact iff_of_true done ⟨mask, List.mem_cons_self, admitted⟩
    · rw [left, map_cons_none, ih]
      simp only [List.exists_mem_cons_iff, refused, false_or]

theorem reasons_some_nil_iff (args : List Text) (term : Text) :
    reasons args term masks = some [] ↔ masks = [] := by
  cases masks with
  | nil => simp [reasons]
  | cons mask masks =>
    rcases reasons_cons mask masks args term with ⟨-, done⟩ | ⟨-, reason, left⟩
    · simp [done]
    · simp only [left, map_cons_ne, reduceCtorEq]

/-! ## Calls and the table they share -/

/-- The arguments of one call of `analyze`. -/
structure Call where
  filename : Text
  stmt : Stmt
  term : Text
  ctx : List Text
  checks : Checks

variable (sprintf : Text → Text → Text) (table : Directives) (call : Call)

def Call.run : Option ConfigError × Directives :=
  analyze sprintf table call.filename call.stmt call.term call.ctx call.checks

def tableAfter (calls : List Call) : Directives :=
  calls.foldl (fun table call => (call.run sprintf table).2) table

/-- The masks of a directive, whatever their order. -/
def masksOf (name : String) : Option (Multiset Mask) :=
  (table.lookup name).map Multiset.ofList

theorem masksOf_cons (entry : String × List Mask) (name : String) :
    masksOf (entry :: table) name =
      if name = entry.1 then some (.ofList entry.2) else masksOf table name := by
  rw [masksOf, masksOf, List.lookup_cons]
  by_cases same : name = entry.1
  · rw [if_pos same, beq_iff_eq.mpr same]
    rfl
  · rw [if_neg same, beq_eq_false_iff_ne.mpr same]

theorem masksOf_reverseMasks (directive : Text) (name : String) :
    masksOf (reverseMasks directive table) name = masksOf table name := by
  induction table with
  | nil => rfl
  | cons entry table ih =>
    have same : Multiset.ofList (if entry.1 = String.ofList directive then entry.2.reverse
        else entry.2) = .ofList entry.2 := by
      split
      · exact Multiset.coe_reverse entry.2
      · rfl
    rw [reverseMasks, List.map_cons, masksOf_cons, masksOf_cons, same]
    exact if_congr Iff.rfl rfl ih

theorem allowedHere_true (masks : List Mask) (ctxMask : Mask) :
    allowedHere masks ctxMask = true := by
  rw [allowedHere]
  induction masks with
  | nil => rfl
  | cons mask masks ih => rwa [List.foldl_cons, ite_self]

/-- The verdict on a known directive in a known context with its arguments checked, in terms of
its masks in any order. A directive without masks passes. -/
theorem run_checked {present masks : List Mask} (same : present.Perm masks)
    (known : table.lookup (String.ofList call.stmt.directive) = some present)
    (inContext : (contexts.lookup (toCtx call.ctx)).isSome = true)
    (checked : call.checks.checkArgs = true) :
    (call.run sprintf table).1 = none ↔
      masks = [] ∨ ∃ mask ∈ masks, Admits mask call.stmt.args call.term := by
  obtain ⟨ctxMask, context⟩ := Option.isSome_iff_exists.mp inContext
  have perm : present.reverse.Perm masks := (List.reverse_perm present).trans same
  have empty : masks = [] ↔ present.reverse = [] := ⟨fun h => (h ▸ perm).eq_nil,
    fun h => (h ▸ perm.symm).eq_nil⟩
  simp only [Call.run, analyze, known, context, checked, allowedHere_true, Option.isNone_some,
    Bool.and_false, Bool.not_true, Bool.false_eq_true, if_false, ← perm.mem_iff]
  rw [empty, ← reasons_none_iff, ← reasons_some_nil_iff call.stmt.args call.term]
  split
  · rename_i admitted
    simp only [admitted, or_true]
  · rename_i unmasked
    simp only [unmasked, true_or]
  · rename_i found nonempty refused
    simp only [refused, Option.some.injEq, reduceCtorEq, or_false]
    exact iff_of_false id nonempty

/-- Without the argument check a known directive passes in every context. -/
theorem run_unchecked {present : List Mask}
    (known : table.lookup (String.ofList call.stmt.directive) = some present)
    (unchecked : call.checks.checkArgs = false) : (call.run sprintf table).1 = none := by
  simp only [Call.run, analyze, known, Option.isNone_some, Bool.and_false, Bool.false_eq_true,
    if_false]
  cases contexts.lookup (toCtx call.ctx) with
  | none => rfl
  | some ctxMask =>
    simp only [allowedHere_true, unchecked, Bool.not_true, Bool.and_false, Bool.false_eq_true,
      if_false, Bool.not_false, if_true]

theorem run_table : (call.run sprintf table).2 = table ∨
    (call.run sprintf table).2 = reverseMasks call.stmt.directive table := by
  rw [Call.run, analyze]
  split
  · exact .inl rfl
  split
  · split
    · exact .inl rfl
    split
    · exact .inl rfl
    split
    · exact .inr rfl
    · exact .inr rfl
    · exact .inr rfl
  · exact .inl rfl

theorem masksOf_tableAfter (calls : List Call) (name : String) :
    masksOf (tableAfter sprintf table calls) name = masksOf table name := by
  induction calls generalizing table with
  | nil => rfl
  | cons call calls ih =>
    rw [tableAfter, List.foldl_cons]
    refine (ih _).trans ?_
    rcases run_table sprintf table call with kept | reversed
    · rw [kept]
    · rw [reversed, masksOf_reverseMasks]

theorem lookup_tableAfter {masks : List Mask} {name : String}
    (known : table.lookup name = some masks) (calls : List Call) :
    ∃ present, (tableAfter sprintf table calls).lookup name = some present ∧
      present.Perm masks := by
  have kept := masksOf_tableAfter sprintf table calls name
  rw [masksOf, masksOf, known, Option.map_some, Option.map_eq_some_iff] at kept
  obtain ⟨present, found, same⟩ := kept
  exact ⟨present, found, Multiset.coe_eq_coe.mp same⟩

/-! ## The check after any history -/

/-- After any calls, a call that checks the arguments of a known directive in a known context
returns nil exactly if the table starts with no mask for the directive or with one that admits
them. -/
theorem argument_check_exact (calls : List Call) (call : Call) (masks : List Mask)
    (known : directives.lookup (String.ofList call.stmt.directive) = some masks)
    (inContext : (contexts.lookup (toCtx call.ctx)).isSome = true)
    (checked : call.checks.checkArgs = true) :
    (call.run sprintf (tableAfter sprintf directives calls)).1 = none ↔
      masks = [] ∨ ∃ mask ∈ masks, Admits mask call.stmt.args call.term := by
  obtain ⟨present, found, same⟩ := lookup_tableAfter sprintf directives known calls
  exact run_checked sprintf _ call same found inContext checked

private def sampleCall (directive : Text) (args : List Text) (term : Text) : Call :=
  ⟨[], ⟨directive, [], 1, args, [], [], none⟩, term, ["http".toList], ⟨true, true, true⟩⟩

/-- `access_log off;`, after the same call has turned its two masks around. -/
theorem argument_check_sample :
    let call := sampleCall "access_log".toList ["off".toList] [';']
    (call.run (fun format _ => format)
      (tableAfter (fun format _ => format) directives [call])).1 = none :=
  (argument_check_exact _ _ (sampleCall "access_log".toList ["off".toList] [';'])
    [ngxHttpMainConf ||| ngxHttpSrvConf ||| ngxHttpLocConf ||| ngxHttpLifConf |||
      ngxHttpLmtConf ||| ngxConf1More, ngxStreamMainConf ||| ngxStreamSrvConf ||| ngxConf1More]
    (by decide +kernel) (by decide +kernel) rfl).mpr
    (.inr ⟨_, List.mem_cons_self, .inr ⟨by decide, rfl⟩,
      .inr (.inr (.inr (.inl ⟨by decide, by decide⟩)))⟩)

/-- The directives of the OAuth2 server stand in the table with an empty list of masks:
`oauth2_token_type` passes whatever follows it, and no mask admits it. -/
theorem unmasked_directive_passes :
    ¬ ∀ (calls : List Call) (call : Call) (masks : List Mask),
      directives.lookup (String.ofList call.stmt.directive) = some masks →
      (contexts.lookup (toCtx call.ctx)).isSome = true → call.checks.checkArgs = true →
      ((call.run (fun format _ => format)
          (tableAfter (fun format _ => format) directives calls)).1 = none ↔
        ∃ mask ∈ masks, Admits mask call.stmt.args call.term) := by
  intro exact
  obtain ⟨mask, mem, -⟩ := (exact [] (sampleCall "oauth2_token_type".toList [] ['}']) []
    (by decide +kernel) (by decide +kernel) rfl).mp (by decide +kernel)
  cases mem

/-! ## The place of a directive -/

/-- What the context check is for: a directive none of whose masks has the bit of the context is
refused, and one that passes the argument check too has a mask with both the bit and the
arguments. -/
def RefusesMisplaced (masks : List Mask) (ctxMask : Mask) : Prop :=
  ((∀ mask ∈ masks, ¬ Has mask ctxMask) → (call.run sprintf table).1 ≠ none) ∧
    (call.checks.checkArgs = true → (call.run sprintf table).1 = none →
      ∃ mask ∈ masks, Has mask ctxMask ∧ Admits mask call.stmt.args call.term)

/-- After any calls: the context check has no effect, so a misplaced directive is refused only
where the argument check refuses it. -/
theorem refuses_misplaced_iff (calls : List Call) (call : Call) (masks : List Mask)
    (ctxMask : Mask)
    (known : directives.lookup (String.ofList call.stmt.directive) = some masks)
    (context : contexts.lookup (toCtx call.ctx) = some ctxMask)
    (_placed : call.checks.checkCtx = true) :
    RefusesMisplaced sprintf (tableAfter sprintf directives calls) call masks ctxMask ↔
      (∃ mask ∈ masks, Has mask ctxMask ∧
        (call.checks.checkArgs = true → Admits mask call.stmt.args call.term)) ∨
      (call.checks.checkArgs = true ∧ masks ≠ [] ∧
        ∀ mask ∈ masks, ¬ Admits mask call.stmt.args call.term) := by
  obtain ⟨present, found, same⟩ := lookup_tableAfter sprintf directives known calls
  rw [RefusesMisplaced]
  cases checked : call.checks.checkArgs with
  | false =>
    have passes := run_unchecked sprintf _ call found checked
    simp [passes]
  | true =>
    have inContext : (contexts.lookup (toCtx call.ctx)).isSome = true := by rw [context]; rfl
    rw [ne_eq, run_checked sprintf _ call same found inContext checked]
    constructor
    · rintro ⟨-, together⟩
      by_cases passes : masks = [] ∨ ∃ mask ∈ masks, Admits mask call.stmt.args call.term
      · obtain ⟨mask, mem, bit, admitted⟩ := together rfl passes
        exact .inl ⟨mask, mem, bit, fun _ => admitted⟩
      · rw [not_or, not_exists] at passes
        exact .inr ⟨rfl, passes.1, fun mask mem admitted => passes.2 mask ⟨mem, admitted⟩⟩
    · rintro (⟨mask, mem, bit, admitted⟩ | ⟨-, masked, refused⟩)
      · exact ⟨fun none => absurd bit (none mask mem), fun _ _ => ⟨mask, mem, bit, admitted rfl⟩⟩
      · have stops : ¬ (masks = [] ∨ ∃ mask ∈ masks, Admits mask call.stmt.args call.term) := by
          rintro (empty | ⟨mask, mem, admitted⟩)
          · exact masked empty
          · exact refused mask mem admitted
        exact ⟨fun _ => stops, fun _ passes => absurd passes stops⟩

/-- `access_log off;` stands where one of its masks allows it. -/
theorem refuses_misplaced_sample :
    let call := sampleCall "access_log".toList ["off".toList] [';']
    let masks := [ngxHttpMainConf ||| ngxHttpSrvConf ||| ngxHttpLocConf ||| ngxHttpLifConf |||
      ngxHttpLmtConf ||| ngxConf1More, ngxStreamMainConf ||| ngxStreamSrvConf ||| ngxConf1More]
    RefusesMisplaced (fun format _ => format)
      (tableAfter (fun format _ => format) directives [call]) call masks ngxHttpMainConf :=
  (refuses_misplaced_iff _ _ (sampleCall "access_log".toList ["off".toList] [';']) _ _
    (by decide +kernel) (by decide +kernel) rfl).mpr
    (.inl ⟨_, List.mem_cons_self, by decide, fun _ => ⟨.inr ⟨by decide, rfl⟩,
      .inr (.inr (.inr (.inl ⟨by decide, by decide⟩)))⟩⟩)

/-- `worker_processes 4;` belongs to the top level; in `http` it passes both checks. -/
theorem misplaced_directive_passes :
    ¬ ∀ (calls : List Call) (call : Call) (masks : List Mask) (ctxMask : Mask),
      directives.lookup (String.ofList call.stmt.directive) = some masks →
      contexts.lookup (toCtx call.ctx) = some ctxMask → call.checks.checkCtx = true →
      RefusesMisplaced (fun format _ => format)
        (tableAfter (fun format _ => format) directives calls) call masks ctxMask := by
  intro refuses
  have refused := (refuses [] (sampleCall "worker_processes".toList ["4".toList] [';'])
    [ngxMainConf ||| ngxDirectConf ||| ngxConfTake1] ngxHttpMainConf
    (by decide +kernel) (by decide +kernel) rfl).1
  exact refused (by decide) (by decide +kernel)

end ArgumentChecks
