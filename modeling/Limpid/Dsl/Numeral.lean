import Limpid.Dsl.Parser

/-!
# Numerals as expressions

What the grammar and `dsl/parser.rs` make of the decimal text of an integer.  A run of digits is an
integer literal.  The grammar admits a sign in a literal, but `unary_expr` takes a `-` for the
operator before a literal is tried: the text of a negative number is a negation (`expr_negative`).

Each rule on the way from `expr` to `integer_lit` has a lemma for digits (`integerLit_digits` up to
`unaryExpr_digits`).  A float literal is tried before an integer and fails, as no dot comes
(`floatLit_fails`).  The pairs are then read by the functions of `Limpid.Dsl.Parser`, and a text has
one reading only (`ParsesTo.det`).
-/

namespace Limpid.Dsl.Numeral

open Peg (Pattern Pair Outcome Atomicity Derives)
open Rule

/-! ## What does not begin a numeral -/

section Failures

variable {mode : Atomicity}

/-- A character with which neither space nor a comment begins. -/
def IsSolid (c : Char) : Prop := c ∉ [' ', '\t', '\n', '\r', ';', '/']

theorem lit_fails {s : String} {c : Char} (hs : s.toList.head? = some c) {input : List Char}
    (h : ∀ d ∈ input.head?, c ≠ d) : Derives grammar mode (lit s) input none := by
  refine .textFail mode fun hprefix => ?_
  obtain ⟨rest, rfl⟩ := hprefix
  cases htext : s.toList with
  | nil => rw [htext] at hs; exact nomatch hs
  | cons c' more =>
      rw [htext] at hs h
      obtain rfl := Option.some.inj hs
      exact h c' rfl rfl

theorem choice_fails {first second : Pattern Rule} {input : List Char}
    (h : Derives grammar mode first input none) (h' : Derives grammar mode second input none) :
    Derives grammar mode (.choice first second) input none :=
  .choiceSecond h h'

theorem star_stops {p : Pattern Rule} {input : List Char} (h : Derives grammar mode p input none) :
    Derives grammar mode (.star p) input (some ([], input)) :=
  .starStop h

/-- No space is skipped before a solid character or at the end. -/
theorem skip_solid {input : List Char} (h : ∀ c ∈ input.head?, IsSolid c) :
    Derives grammar .nonAtomic .skip input (some ([], input)) := by
  have hne : ∀ c ∈ [' ', '\t', '\n', '\r', ';', '/'], ∀ d ∈ input.head?, c ≠ d :=
    fun c hc d hd heq => h d hd (heq ▸ hc)
  have hspace : Derives grammar .atomic whitespace input none := by
    refine choice_fails (lit_fails rfl (hne ' ' (by decide))) ?_
    refine choice_fails (lit_fails rfl (hne '\t' (by decide))) ?_
    refine choice_fails ?_ (lit_fails rfl (hne ';' (by decide)))
    refine choice_fails (lit_fails rfl (hne '\n' (by decide))) ?_
    exact choice_fails (lit_fails rfl (hne '\r' (by decide)))
      (lit_fails rfl (hne '\r' (by decide)))
  have hcomment : Derives grammar .atomic (.cat comment (.star whitespace)) input none :=
    .catFail (.catFail (lit_fails rfl (hne '/' (by decide))))
  exact .skip (.cat (star_stops hspace) (star_stops hcomment))

end Failures

/-! ## Digits -/

section Digits

variable {d : Char} {rest : List Char}

theorem ne_of_isDigit (hd : d.isDigit = true) {c : Char} (hc : c.isDigit = false) :
    ∀ d' ∈ (d :: rest).head?, c ≠ d' := by
  rintro _ ⟨⟩ rfl
  rw [hd] at hc
  exact nomatch hc

theorem isSolid_of_isDigit (hd : d.isDigit = true) : IsSolid d := by
  intro hmem
  have hall : ∀ c ∈ [' ', '\t', '\n', '\r', ';', '/'], c.isDigit = false := by decide
  rw [hall d hmem] at hd
  exact nomatch hd

theorem toNat_of_isAlpha (h : d.isAlpha = true) :
    65 ≤ d.toNat ∧ d.toNat ≤ 90 ∨ 97 ≤ d.toNat ∧ d.toNat ≤ 122 := by
  change (decide (d.val ≥ 'A'.val ∧ d.val ≤ 'Z'.val) ||
    (decide (d.val ≥ 'a'.val) && decide (d.val ≤ 'z'.val))) = true at h
  simp only [Bool.or_eq_true, Bool.and_eq_true, decide_eq_true_eq, ge_iff_le,
    UInt32.le_iff_toNat_le] at h
  exact h

theorem identStart_of_isDigit (hd : d.isDigit = true) : identStart d = false := by
  have hbounds : 48 ≤ d.toNat ∧ d.toNat ≤ 57 := by
    simpa [Char.isDigit, UInt32.le_iff_toNat_le] using hd
  have hne : d ≠ '_' := by
    rintro rfl
    exact absurd hbounds (by decide)
  have halpha : d.isAlpha = false := by
    rw [Bool.eq_false_iff]
    intro h
    have hletter := toNat_of_isAlpha h
    omega
  simp [identStart, halpha, hne]

theorem ident_fails (hd : d.isDigit = true) :
    Derives grammar .nonAtomic (.call ident) (d :: rest) none :=
  .callFail (.seqFail (.oneFail .atomic rest (identStart_of_isDigit hd)))

theorem empty_skip {mode : Atomicity} (hmode : mode ≠ .nonAtomic) (input : List Char) :
    Derives grammar mode .skip input (some ([], input)) :=
  .noSkip input hmode

theorem digits_taken {digits : List Char} (hd : d.isDigit = true)
    (hdigits : ∀ c ∈ digits, c.isDigit = true) :
    Derives grammar .atomic (.many1 digit) (d :: digits) (some ([], [])) := by
  have hmany : Derives grammar .atomic (.many digit) (digits ++ []) (some ([], [])) :=
    .manyOne hdigits (by simp)
  rw [List.append_nil] at hmany
  exact .seq (.one .atomic digits hd) (empty_skip (by decide) digits) hmany

theorem sign_absent (hd : d.isDigit = true) :
    Derives grammar .atomic (.opt (lit "-")) (d :: rest) (some ([], d :: rest)) :=
  .optNone (lit_fails rfl (ne_of_isDigit hd (by decide)))

theorem integerLit_digits {digits : List Char} (hd : d.isDigit = true)
    (hdigits : ∀ c ∈ digits, c.isDigit = true) :
    Derives grammar .nonAtomic (.call integerLit) (d :: digits)
      (some ([.node integerLit (d :: digits) []], [])) :=
  .callWhole (by decide)
    (.seq (sign_absent hd) (empty_skip (by decide) _) (digits_taken hd hdigits))

/-- A run of digits with no point after it is no float. -/
theorem floatLit_fails {digits : List Char} (hd : d.isDigit = true)
    (hdigits : ∀ c ∈ digits, c.isDigit = true) :
    Derives grammar .nonAtomic (.call floatLit) (d :: digits) none := by
  have hpoint : Derives grammar .atomic (.seq (lit ".") (.many1 digit)) [] none :=
    .seqFail (lit_fails rfl (by simp))
  exact .callFail (.seq (sign_absent hd) (empty_skip (by decide) _)
    (.seq (digits_taken hd hdigits) (empty_skip (by decide) _) hpoint))

theorem atom_digits {digits : List Char} (hd : d.isDigit = true)
    (hdigits : ∀ c ∈ digits, c.isDigit = true) :
    Derives grammar .nonAtomic (.call atom) (d :: digits)
      (some ([.node atom (d :: digits) [.node integerLit (d :: digits) []]], [])) := by
  have hfails : ∀ {s : String} {c : Char}, s.toList.head? = some c → c.isDigit = false →
      Derives grammar .nonAtomic (lit s) (d :: digits) none := fun hs hc =>
    lit_fails hs (ne_of_isDigit hd hc)
  refine .callWhole (by decide) ?_
  refine .choiceSecond (.seqFail (hfails rfl (by decide))) ?_
  refine .choiceSecond (.callFail (.seqFail (.callFail (hfails rfl (by decide))))) ?_
  refine .choiceSecond (.callFail (.seqFail (hfails rfl (by decide)))) ?_
  refine .choiceSecond (.callFail (.seqFail (hfails rfl (by decide)))) ?_
  refine .choiceSecond (.callFail (choice_fails (.seqFail (ident_fails hd))
    (.seqFail (ident_fails hd)))) ?_
  refine .choiceSecond (floatLit_fails hd hdigits) ?_
  exact .choiceFirst (integerLit_digits hd hdigits)

/-- The pair of `unary_expr` for a run of digits. -/
def digitsPair (digits : List Char) : Pair Rule :=
  .node unaryExpr digits
    [.node postfixExpr digits [.node atom digits [.node integerLit digits []]]]

theorem unaryExpr_digits {digits : List Char} (hd : d.isDigit = true)
    (hdigits : ∀ c ∈ digits, c.isDigit = true) :
    Derives grammar .nonAtomic (.call unaryExpr) (d :: digits)
      (some ([digitsPair (d :: digits)], [])) := by
  have hop : Derives grammar .nonAtomic (.call unaryOp) (d :: digits) none :=
    .callFail (choice_fails (.callFail (lit_fails rfl (ne_of_isDigit hd (by decide))))
      (lit_fails rfl (ne_of_isDigit hd (by decide))))
  have hpostfix : Derives grammar .nonAtomic (.call postfixExpr) (d :: digits)
      (some ([.node postfixExpr (d :: digits)
        [.node atom (d :: digits) [.node integerLit (d :: digits) []]]], [])) :=
    .callWhole (by decide) (.seq (atom_digits hd hdigits) (skip_solid (by simp))
      (.manyNone (.seqFail (lit_fails rfl (by simp)))))
  exact .callWhole (by decide) (.choiceSecond (.seqFail hop) hpostfix)

/-- A sign is taken for the operator. -/
theorem unaryExpr_negative {digits : List Char} (hd : d.isDigit = true)
    (hdigits : ∀ c ∈ digits, c.isDigit = true) :
    Derives grammar .nonAtomic (.call unaryExpr) ('-' :: d :: digits)
      (some ([.node unaryExpr ('-' :: d :: digits)
        [.node unaryOp ['-'] [], digitsPair (d :: digits)]], [])) := by
  have hop : Derives grammar .nonAtomic (.call unaryOp) (['-'] ++ d :: digits)
      (some ([.node unaryOp ['-'] []], d :: digits)) :=
    .callTaken (by decide) (.choiceSecond (.callFail (lit_fails rfl (by simp; decide)))
      (.text .nonAtomic ['-'] (d :: digits)))
  have hskip : Derives grammar .nonAtomic .skip (d :: digits) (some ([], d :: digits)) := by
    refine skip_solid ?_
    rintro _ ⟨⟩
    exact isSolid_of_isDigit hd
  exact .callWhole (by decide) (.choiceFirst (.seq hop hskip (unaryExpr_digits hd hdigits)))

/-- One operand is an expression. -/
theorem expr_of_unaryExpr {input : List Char} {pair : Pair Rule}
    (h : Derives grammar .nonAtomic (.call unaryExpr) input (some ([pair], []))) :
    Derives grammar .nonAtomic (.call expr) input
      (some ([.node expr input [.node binExpr input [pair]]], [])) := by
  have hlit : ∀ {s : String} {c : Char}, s.toList.head? = some c →
      Derives grammar .nonAtomic (lit s) [] none := fun hs => lit_fails hs (by simp)
  have hop : Derives grammar .nonAtomic (.call binOp) [] none := by
    refine .callFail ?_
    refine choice_fails (hlit rfl) <| choice_fails (hlit rfl) <| choice_fails (hlit rfl) <|
      choice_fails (hlit rfl) <| choice_fails (hlit rfl) <| choice_fails (hlit rfl) <| ?_
    refine choice_fails (.callFail (hlit rfl)) <| choice_fails (.callFail (hlit rfl)) <| ?_
    exact choice_fails (hlit rfl) <| choice_fails (hlit rfl) <| choice_fails (hlit rfl) <|
      choice_fails (hlit rfl) (hlit rfl)
  have hbin : Derives grammar .nonAtomic (.call binExpr) input
      (some ([.node binExpr input [pair]], [])) :=
    .callWhole (by decide) (.seq h (skip_solid (by simp)) (.manyNone (.seqFail hop)))
  exact .callWhole (by decide) (.seq hbin (skip_solid (by simp))
    (.manyNone (.seqFail (hlit rfl))))

end Digits

/-! ## The expression of a number -/

section Numbers

variable (rt : Runtime)

/-- The text is an expression, and parsing it ends so. -/
def ParsesTo (text : List Char) (result : Except String Expr) : Prop :=
  ∃ pair, Derives grammar .nonAtomic (.call expr) text (some ([pair], [])) ∧
    Parser.parseExpr rt pair = result

/-- The decimal text of an integer. -/
def formatInt (n : ℤ) : List Char :=
  if n < 0 then '-' :: Decimal.formatNat n.natAbs else Decimal.formatNat n.natAbs

variable {rt}

theorem ParsesTo.det {text : List Char} {result other : Except String Expr}
    (h : ParsesTo rt text result) (h' : ParsesTo rt text other) : result = other := by
  obtain ⟨pair, hpair, rfl⟩ := h
  obtain ⟨pair', hpair', rfl⟩ := h'
  have hsame : pair = pair' := by simpa using hpair.det hpair'
  rw [hsame]

theorem formatNat_cons (m : ℕ) : ∃ d digits, Decimal.formatNat m = d :: digits ∧
    d.isDigit = true ∧ ∀ c ∈ digits, c.isDigit = true := by
  cases hformat : Decimal.formatNat m with
  | nil => exact absurd hformat (Decimal.formatNat_ne_nil m)
  | cons d digits =>
      have hall : ∀ c ∈ d :: digits, c.isDigit = true := fun c hc =>
        Decimal.isDigit_of_mem_formatNat (hformat ▸ hc)
      obtain ⟨hd, hdigits⟩ := List.forall_mem_cons.mp hall
      exact ⟨d, digits, rfl, hd, hdigits⟩

theorem parseInt64_formatNat (m : ℕ) : Parser.parseInt64 (Decimal.formatNat m) =
    if Int64.maxValue.toInt < m then .error "number too large to fit in target type"
    else .ok (Int64.ofInt m) := by
  obtain ⟨d, digits, hformat, hd, -⟩ := formatNat_cons m
  have hsign : d ≠ '-' := by
    rintro rfl
    exact absurd hd (by decide)
  have hread : Parser.parseInt64 (Decimal.formatNat m) =
      if Int64.maxValue.toInt < m then .error "number too large to fit in target type"
      else if (m : ℤ) < Int64.minValue.toInt then .error "number too small to fit in target type"
      else .ok (Int64.ofInt m) := by
    have hnat := Decimal.parseUnsigned_formatNat m
    rw [hformat] at hnat ⊢
    unfold Parser.parseInt64
    split
    · next hcons => exact absurd (List.cons.inj hcons).1 hsign
    · rw [hnat]
      rfl
  have hmin : ¬ (m : ℤ) < Int64.minValue.toInt := by
    have hvalue : Int64.minValue.toInt = -2 ^ 63 := rfl
    omega
  rw [hread, if_neg hmin]

theorem parseAtomOrUnary_digitsPair (digits : List Char) :
    Parser.parseAtomOrUnary rt (digitsPair digits) =
      (Parser.parseInt64 digits).map .intLit := by
  have htext : (Parser.textOf (.node integerLit digits [])).toList = digits :=
    String.toList_ofList
  simp only [digitsPair, Parser.parseAtomOrUnary, Parser.parsePostfix, Parser.parseAtom,
    Parser.ruleOf, htext]
  cases Parser.parseInt64 digits <;> rfl

theorem parsesTo_formatNat (m : ℕ) : ParsesTo rt (Decimal.formatNat m)
    ((Parser.parseInt64 (Decimal.formatNat m)).map .intLit) := by
  obtain ⟨d, digits, hformat, hd, hdigits⟩ := formatNat_cons m
  rw [hformat]
  refine ⟨_, expr_of_unaryExpr (unaryExpr_digits hd hdigits), ?_⟩
  rw [Parser.parseExpr, Parser.parseBinExpr, parseAtomOrUnary_digitsPair]
  cases Parser.parseInt64 (d :: digits) <;> rfl

/-- **The text of a negative number is a negation.** -/
theorem parsesTo_negative (m : ℕ) : ParsesTo rt ('-' :: Decimal.formatNat m)
    ((Parser.parseInt64 (Decimal.formatNat m)).map fun n => .unaryOp .neg (.intLit n)) := by
  obtain ⟨d, digits, hformat, hd, hdigits⟩ := formatNat_cons m
  rw [hformat]
  refine ⟨_, expr_of_unaryExpr (unaryExpr_negative hd hdigits), ?_⟩
  rw [Parser.parseExpr, Parser.parseBinExpr, Parser.parseAtomOrUnary, parseAtomOrUnary_digitsPair]
  cases Parser.parseInt64 (d :: digits) <;> rfl

end Numbers

end Limpid.Dsl.Numeral
