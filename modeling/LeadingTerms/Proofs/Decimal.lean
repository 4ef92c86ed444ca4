import LeadingTerms.Numeral.Decimal
import LeadingTerms.Text.Encoding
import LeadingTerms.Text.Space
import LeadingTerms.Proofs.Literal

/-!
# Decimal numerals

The bytes of a numeral are digits (`mem_decimal`), and the number can be read off them (`decimalValue?_decimal`).

What is written as a decimal numeral can be read as an integer literal: the digits of a positive number begin with another
digit than `0`, so that the base is ten, and the single digit of zero spells zero in any base
(`exists_numeral_signedDecimal`). So the numeral of a signed 64-bit number is a typed literal that denotes the number
(`Literal.exists_of_signedDecimal`), and a space behind it does not extend it (`Literal.push?_of_isSpace`).
-/

namespace LeadingTerms

/-! ## The bytes of a numeral -/

/-- A digit is the single byte of its code point. -/
theorem encodeChar_of_isDigit {c : Char} (h : c.isDigit = true) :
    String.utf8EncodeChar c = [UInt8.ofNat c.toNat] ∧ 0x30 ≤ c.toNat ∧ c.toNat ≤ 0x39 := by
  have hrange : 0x30 ≤ c.toNat ∧ c.toNat ≤ 0x39 := by
    simp only [Char.isDigit, Bool.and_eq_true, decide_eq_true_eq, ge_iff_le, UInt32.le_iff_toNat_le] at h
    exact h
  refine ⟨?_, hrange⟩
  have hencoded := encodeChar_ofNat (n := c.toNat) (by omega)
  rw [Char.ofNat_toNat, if_pos (by omega)] at hencoded
  exact hencoded

/-- The bytes of a numeral are digits. -/
theorem mem_decimal {n : Nat} {b : UInt8} (h : b ∈ decimal n) : 0x30 ≤ b.toNat ∧ b.toNat ≤ 0x39 := by
  obtain ⟨c, hc, hb⟩ := List.mem_flatMap.mp h
  obtain ⟨hencoded, hlo, hhi⟩ := encodeChar_of_isDigit (Nat.isDigit_of_mem_toDigits (by decide) (by decide) hc)
  rw [hencoded, List.mem_singleton] at hb
  rw [hb, toNat_ofNat_byte (by omega)]
  exact ⟨hlo, hhi⟩

/-- In front of a negative number there is a minus sign. -/
theorem mem_signedDecimal {z : Int} {b : UInt8} (h : b ∈ signedDecimal z) : b = 0x2D ∨ 0x30 ≤ b.toNat ∧ b.toNat ≤ 0x39 := by
  cases z with
  | ofNat n => exact Or.inr (mem_decimal h)
  | negSucc n =>
    rcases List.mem_append.mp h with hsign | hdigit
    · exact Or.inl (List.mem_singleton.mp hsign)
    · exact Or.inr (mem_decimal hdigit)

/-- The number that a decimal numeral stands for. -/
def decimalValue? (text : Bytes) : Option Nat :=
  let digits := text.map fun b => Char.ofNat b.toNat
  if digits ≠ [] ∧ digits.all Char.isDigit then some (Nat.ofDigitChars 10 digits 0) else none

/-- Digits are read off their bytes. -/
theorem map_encode_of_isDigit {cs : List Char} (h : ∀ c ∈ cs, c.isDigit = true) :
    (encode cs).map (fun b => Char.ofNat b.toNat) = cs := by
  induction cs with
  | nil => rfl
  | cons c cs ih =>
    obtain ⟨hencoded, hlo, hhi⟩ := encodeChar_of_isDigit (h c (by simp))
    have hcons : encode (c :: cs) = UInt8.ofNat c.toNat :: encode cs := by
      rw [encode, List.flatMap_cons, hencoded]
      rfl
    rw [hcons, List.map_cons, toNat_ofNat_byte (by omega), Char.ofNat_toNat, ih fun c' hc' => h c' (by simp [hc'])]

/-- The numeral of a number stands for the number. -/
theorem decimalValue?_decimal (n : Nat) : decimalValue? (decimal n) = some n := by
  have hdigits : ∀ c ∈ Nat.toDigits 10 n, c.isDigit = true :=
    fun c hc => Nat.isDigit_of_mem_toDigits (by decide) (by decide) hc
  have hread : (decimal n).map (fun b => Char.ofNat b.toNat) = Nat.toDigits 10 n := map_encode_of_isDigit hdigits
  have hnumeral : Nat.toDigits 10 n ≠ [] ∧ (Nat.toDigits 10 n).all Char.isDigit = true :=
    ⟨Nat.toDigits_ne_nil, List.all_eq_true.mpr hdigits⟩
  unfold decimalValue?
  simp only [hread]
  rw [if_pos hnumeral, Nat.ofDigitChars_ten_toDigits]

/-- Different numbers have different numerals. -/
theorem decimal_injective {m n : Nat} (h : decimal m = decimal n) : m = n := by
  have hvalue := decimalValue?_decimal m
  rw [h, decimalValue?_decimal] at hvalue
  exact (Option.some.inj hvalue).symm

/-- Different integers have different numerals. -/
theorem signedDecimal_injective {y z : Int} (h : signedDecimal y = signedDecimal z) : y = z := by
  have hsign : ∀ m n : Nat, decimal m ≠ encode ['-'] ++ decimal n := by
    intro m n heq
    have hminus : (0x2D : UInt8) ∈ decimal m := by
      rw [heq]
      exact List.mem_append_left _ (by decide)
    exact absurd (mem_decimal hminus).1 (by decide)
  cases y with
  | ofNat m =>
    cases z with
    | ofNat n => rw [decimal_injective h]
    | negSucc n => exact absurd h (hsign m (n + 1))
  | negSucc m =>
    cases z with
    | ofNat n => exact absurd h.symm (hsign n (m + 1))
    | negSucc n => rw [Nat.succ.inj (decimal_injective (List.append_cancel_left h))]

/-! ## The digits of a number -/

/-- A digit behind digits. -/
theorem Digits.concat {base : Nat} {c : Char} {d : Nat} {cs : List Char} {ds : List Nat} (h : Digits base cs ds)
    (hd : DigitOf base c d) : Digits base (cs ++ [c]) (ds ++ [d]) := by
  induction h with
  | nil => exact .digit hd .nil
  | digit hfirst _ ih => exact .digit hfirst ih
  | separated hfirst _ ih => exact .separated hfirst ih

/-- The digits of a positive number begin with one that is not zero, and they spell the number. -/
theorem exists_digits_toDigits (n : Nat) (hn : 0 < n) :
    ∃ c d cs ds, Nat.toDigits 10 n = c :: cs ∧ DigitOf 10 c d ∧ d ≠ 0 ∧ Digits 10 cs ds ∧
      Nat.ofDigits 10 (d :: ds).reverse = n := by
  induction n using Nat.strongRecOn with
  | ind n ih =>
    by_cases hlt : n < 10
    · refine ⟨n.digitChar, n, [], [], Nat.toDigits_of_lt_base hlt, ⟨hlt, Or.inl rfl⟩, by omega, .nil, ?_⟩
      simp
    · -- The last digit is the remainder; the digits in front of it are those of the quotient.
      obtain ⟨c, d, cs, ds, hcs, hd, hd0, hds, hvalue⟩ := ih (n / 10) (by omega) (by omega)
      have hlast : DigitOf 10 (n % 10).digitChar (n % 10) := ⟨Nat.mod_lt n (by decide), Or.inl rfl⟩
      refine ⟨c, d, cs ++ [(n % 10).digitChar], ds ++ [n % 10], ?_, hd, hd0, hds.concat hlast, ?_⟩
      · rw [Nat.toDigits_of_base_le (by decide) (by omega), hcs]
        rfl
      · rw [← List.cons_append, List.reverse_append, List.reverse_singleton, List.singleton_append, Nat.ofDigits_cons,
          hvalue]
        exact Nat.mod_add_div n 10

/-- The digits of a number are a numeral that spells the number. -/
theorem exists_numeral_toDigits (n : Nat) :
    ∃ base digits, Numeral (Nat.toDigits 10 n) base digits ∧ Nat.ofDigits base digits.reverse = n := by
  by_cases hn : n = 0
  · rw [hn, Nat.toDigits_zero]
    exact ⟨8, [], .zero .nil, rfl⟩
  · obtain ⟨c, d, cs, ds, hcs, hd, hd0, hds, hvalue⟩ := exists_digits_toDigits n (by omega)
    rw [hcs]
    exact ⟨10, d :: ds, .plain hd hd0 hds, hvalue⟩

/-- The decimal numeral of an integer is a sign or none and a numeral, which together spell the integer. -/
theorem exists_numeral_signedDecimal (z : Int) :
    ∃ sign numeral base digits, signedDecimal z = encode ((sign.map Sign.toChar).toList ++ numeral) ∧
      Numeral numeral base digits ∧ Literal.signedNumber sign base digits = z := by
  cases z with
  | ofNat n =>
    obtain ⟨base, digits, hnumeral, hvalue⟩ := exists_numeral_toDigits n
    refine ⟨none, _, base, digits, rfl, hnumeral, ?_⟩
    rw [Literal.signedNumber, hvalue]
    rfl
  | negSucc n =>
    obtain ⟨base, digits, hnumeral, hvalue⟩ := exists_numeral_toDigits (n + 1)
    refine ⟨some .minus, _, base, digits, (encode_append ['-'] _).symm, hnumeral, ?_⟩
    rw [Literal.signedNumber, hvalue]
    rfl

/-! ## Literals that numerals are -/

namespace Literal

/-- The decimal numeral of a signed 64-bit number is a typed literal that denotes the number. -/
theorem exists_of_signedDecimal (v : Int64) :
    ∃ l : Literal, l.Typed ∧ l.value = .ok v ∧ encode l.chars = signedDecimal v.toInt := by
  obtain ⟨sign, numeral, base, digits, hdecimal, hnumeral, hvalue⟩ := exists_numeral_signedDecimal v.toInt
  obtain ⟨l, ht, hw, rfl, rfl, rfl, rfl⟩ := exists_of_numeral hnumeral sign
  refine ⟨l, ht, ?_, ?_⟩
  · rw [value_eq_ok_iff, signedValue_eq]
    exact ⟨hw, hvalue⟩
  · rw [hdecimal, chars, List.append_assoc]

/-- A space extends no literal. -/
theorem push?_of_isSpace (l : Literal) {c : Char} (h : isSpace c = true) : l.push? c = none := by
  have hdigit : ∀ d, ¬DigitOf 16 c d := by
    rintro d ⟨hd, rfl | rfl⟩ <;> interval_cases d <;> exact absurd h (by decide)
  rw [push?_eq_none_iff, Radix.ofLetter?_eq_none_iff]
  constructor
  · rintro (rfl | hcontinues)
    · exact absurd h (by decide)
    · obtain ⟨d, hd, hc⟩ := (Radix.isDigit_iff _ c).mp hcontinues
      have hbase := l.opening.radix.base_le
      exact hdigit d ⟨by omega, hc⟩
  · rintro - hletter
    simp only [List.mem_cons, List.not_mem_nil, or_false] at hletter
    rcases hletter with rfl | rfl | rfl | rfl | rfl | rfl <;> exact absurd h (by decide)

end Literal

end LeadingTerms
