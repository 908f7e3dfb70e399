import NormalOrder.Bounded.Refusal
import NormalOrder.Proofs.NumeralSize
import NormalOrder.Proofs.Outcomes
import NormalOrder.Proofs.Printing

/-!
# Numerals and their digits

A numeral stands for a number as a term and, in a source or a printed text, as a run of digits.

* As terms, `Term.numeral` writes numbers and `Term.numeral?` reads them: exactly the numerals are
  read, each as its number (`Term.numeral?_eq_none_iff`).
* As text, a run of digits is a program by itself, which means the numeral of its decimal value
  (`parseWithin_digits`); and a numeral is printed in decimal notation (`prettyWithin_numeral`).
  Neither depends on how large the number is, so that no level is needed for it.

The decimal notation of the value of some digits is these digits without their leading zeros
(`toDigits_ofDigitChars`).  Together: `numeral_codec`.
-/

namespace NormalOrder

open Grammar

/-! ### Leading zeros -/

/-- The digits without their leading zeros; of zeros alone, one is left. -/
def significant (digits : List Char) : List Char :=
  match digits.dropWhile (· = '0') with
  | [] => ['0']
  | digit :: further => digit :: further

/-- The text of a number without leading zeros. -/
def withoutLeadingZeros (digits : String) : String := String.ofList (significant digits.toList)

theorem significant_zero_cons (digits : List Char) :
    significant ('0' :: digits) = significant digits := by
  rw [significant, List.dropWhile_cons_of_pos (by decide)]
  rfl

theorem significant_cons {digit : Char} (h : digit ≠ '0') (digits : List Char) :
    significant (digit :: digits) = digit :: digits := by
  rw [significant, List.dropWhile_cons_of_neg (by simpa using h)]

theorem digitValue_lt {c : Char} (h : c.isDigit = true) : c.toNat - '0'.toNat < 10 := by
  have hhi := (Char.isDigit_iff_toNat.1 h).2
  have hzero : '0'.toNat = 48 := rfl
  have hnine : '9'.toNat = 57 := rfl
  omega

theorem digitValue_pos {c : Char} (h : c.isDigit = true) (hzero : c ≠ '0') :
    0 < c.toNat - '0'.toNat := by
  have hlo := (Char.isDigit_iff_toNat.1 h).1
  have hne : c.toNat ≠ '0'.toNat := mt Char.toNat_inj.1 hzero
  omega

theorem toDigits_digitValue {c : Char} (h : c.isDigit = true) :
    Nat.toDigits 10 (c.toNat - '0'.toNat) = [c] := by
  have hlo := (Char.isDigit_iff_toNat.1 h).1
  have hchar : Nat.digitChar (c.toNat - '0'.toNat) = c := by
    apply Char.toNat_inj.1
    rw [Nat.toNat_digitChar_of_lt_ten (digitValue_lt h)]
    have hzero : '0'.toNat = 48 := rfl
    omega
  rw [Nat.toDigits_of_lt_base (digitValue_lt h), hchar]

/-- Digits that are read after a number other than zero stay behind it. -/
theorem toDigits_ofDigitChars_of_pos {digits : List Char} (h : ∀ c ∈ digits, c.isDigit = true)
    {before : Nat} (hbefore : 0 < before) :
    Nat.toDigits 10 (Nat.ofDigitChars 10 digits before) = Nat.toDigits 10 before ++ digits := by
  induction digits generalizing before with
  | nil => rw [Nat.ofDigitChars_nil, List.append_nil]
  | cons c digits ih =>
    obtain ⟨hc, hdigits⟩ := List.forall_mem_cons.1 h
    have hlast := Nat.toDigits_append_toDigits (b := 10) (by decide) hbefore (digitValue_lt hc)
    rw [toDigits_digitValue hc] at hlast
    rw [Nat.ofDigitChars_cons, ih hdigits (by omega), ← hlast, List.append_assoc,
      List.singleton_append]

/-- **The decimal notation of the value of some digits is the digits without leading zeros.** -/
theorem toDigits_ofDigitChars {digits : List Char} (h : ∀ c ∈ digits, c.isDigit = true) :
    Nat.toDigits 10 (Nat.ofDigitChars 10 digits 0) = significant digits := by
  induction digits with
  | nil => rfl
  | cons c digits ih =>
    obtain ⟨hc, hdigits⟩ := List.forall_mem_cons.1 h
    rw [Nat.ofDigitChars_cons, Nat.mul_zero, Nat.zero_add]
    by_cases hzero : c = '0'
    · subst hzero
      rw [significant_zero_cons, ← ih hdigits]
      rfl
    · -- From the first digit other than zero on, all digits count.
      rw [toDigits_ofDigitChars_of_pos hdigits (digitValue_pos hc hzero), toDigits_digitValue hc,
        significant_cons hzero, List.singleton_append]

theorem toString_decimalValue {digits : String} (h : ∀ c ∈ digits.toList, c.isDigit = true) :
    toString (decimalValue digits) = withoutLeadingZeros digits := by
  rw [decimalValue, ← ofDigitChars_eq_ofDigits, Nat.toString_eq_ofList_toDigits,
    toDigits_ofDigitChars h, withoutLeadingZeros]

/-! ### Numerals as terms -/

namespace Term

theorem numeral?_eq_none_iff {t : Term} : t.numeral? = none ↔ ∀ n, ¬t.Alike (numeral n) := by
  rw [Option.eq_none_iff_forall_ne_some]
  exact forall_congr' fun n => not_congr numeral?_eq_some_iff

end Term

open Term

/-! ### Numerals as text -/

/-- A run of digits is a program by itself, and takes no more levels than a name. -/
theorem parseWithin_digits {digits : String} (h : TokenKind.Spells .natural digits.toList)
    (hlength : digits.length ≤ Text.Integer.maxDigits) {levels : Nat} (hlevels : 3 ≤ levels) :
    parseWithin levels digits = .ok (numeral (decimalValue digits)) := by
  let d : Derivation .term := .ofAtom (.natural ⟨⟨.natural, digits, 0⟩, rfl⟩)
  have hfit : NumbersFit d.tokens := List.forall_mem_singleton.2 fun _ => hlength
  have hprogram : program levels [] d.tokens = .ok (d.meaning [], []) :=
    program_of_derivation d hlevels hfit []
  rw [parseWithin, tokenize_of_spells h]
  show parseTokens levels digits.length d.tokens = _
  rw [parseTokens, hprogram]
  rfl

theorem prettyWithin_numeral {t : Term} {n : Nat} (h : t.numeral? = some n) (levels : Nat) :
    prettyWithin levels t true = .ok (toString n) := by
  have hnumber : Printer.asNumber? true t = some n := h
  obtain ⟨hint, hint', rfl⟩ := eq_abs_of_numeral? h
  unfold prettyWithin Printer.renderWithin
  simp only [hnumber]

/-- **Numerals are an exact codec, as terms and as text.**  The number `n` is encoded by the
numeral `n`, and is what exactly the terms alike to this numeral are read as.  A run of digits is a
program that means the numeral of its decimal value, which is printed as these digits without
leading zeros; and none of this needs more levels than there are by default. -/
theorem numeral_codec :
    (∀ n : Nat, Term.encode (.integer n) = .ok (numeral n)) ∧
    (∀ (t : Term) (n : Nat), t.numeral? = some n ↔ t.Alike (numeral n)) ∧
    (∀ t : Term, t.numeral? = none ↔ ∀ n, ¬t.Alike (numeral n)) ∧
    ∀ digits : String, digits ≠ "" → (∀ c ∈ digits.toList, c.isDigit = true) →
      digits.length ≤ Text.Integer.maxDigits →
      parse digits = .ok (numeral (decimalValue digits)) ∧
      parseWithin Limits.levels digits = .ok (numeral (decimalValue digits)) ∧
      (numeral (decimalValue digits)).numeral? = some (decimalValue digits) ∧
      pretty (numeral (decimalValue digits)) true = .ok (withoutLeadingZeros digits) ∧
      prettyWithin Limits.levels (numeral (decimalValue digits)) true =
        .ok (withoutLeadingZeros digits) ∧
      (decimalValue digits = 0 → withoutLeadingZeros digits = "0") := by
  refine ⟨fun n => rfl, fun t n => numeral?_eq_some_iff, fun t => numeral?_eq_none_iff, ?_⟩
  intro digits hne hdigits hlength
  have hspells : TokenKind.Spells .natural digits.toList := ⟨by simpa using hne, hdigits⟩
  have hparse : parseWithin Limits.levels digits = .ok (numeral (decimalValue digits)) :=
    parseWithin_digits hspells hlength (by decide)
  have hread : (numeral (decimalValue digits)).numeral? = some (decimalValue digits) :=
    numeral?_eq_some_iff.2 rfl
  have hpretty := prettyWithin_numeral hread Limits.levels
  rw [toString_decimalValue hdigits] at hpretty
  refine ⟨parse_of_parseWithin hparse, hparse, hread, (follows_prettyWithin _ _ _).eq_ok hpretty,
    hpretty, ?_⟩
  intro hzero
  rw [← toString_decimalValue hdigits, hzero]
  rfl

/-- Leading zeros are read and not printed again, the last zero is kept. -/
theorem numeral_codec_leading_zeros :
    "00420" ≠ "" ∧ (∀ c ∈ "00420".toList, c.isDigit = true) ∧
      "00420".length ≤ Text.Integer.maxDigits ∧ parse "00420" = .ok (numeral 420) ∧
      (numeral 420).numeral? = some 420 ∧ pretty (numeral 420) true = .ok "420" := by
  have hdigits : ∀ c ∈ "00420".toList, c.isDigit = true := by simp
  have hlength : "00420".length ≤ Text.Integer.maxDigits := by decide
  have hvalue : decimalValue "00420" = 420 := by decide
  obtain ⟨hparse, -, hread, hpretty, -⟩ :=
    numeral_codec.2.2.2 "00420" (by decide) hdigits hlength
  rw [hvalue] at hparse hread hpretty
  exact ⟨by decide, hdigits, hlength, hparse, hread, hpretty⟩

end NormalOrder
