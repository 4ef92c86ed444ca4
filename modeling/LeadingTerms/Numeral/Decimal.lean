import LeadingTerms.Text.Bytes

/-!
# Decimal numerals

Numbers are written in base ten without leading zeros, a minus sign in front of a negative one.
-/

namespace LeadingTerms

/-- The decimal numeral of a natural number. -/
def decimal (n : Nat) : Bytes := encode (Nat.toDigits 10 n)

/-- The decimal numeral of an integer. -/
def signedDecimal : Int → Bytes
  | .ofNat n => decimal n
  | .negSucc n => encode ['-'] ++ decimal (n + 1)

end LeadingTerms
