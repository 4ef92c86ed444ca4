import LeadingTerms.Text.Space
import LeadingTerms.Text.Symbol

/-!
# Names up to letter case

Names of algorithms, levels and settings are plain small letters (and `_`), and are compared after lower-casing. Of the
characters outside the one-byte range exactly two have a lower-case form inside it, so the lower-casing here is right for
every comparison with such a name: any other character is left as it is, and differs from every letter of the name both
before and after lower-casing.
-/

namespace LeadingTerms

/-- The lower-case form of a character where that form is one byte long, and else the character. The dotted capital `İ`
becomes a plain `i` and the Kelvin sign a plain `k`. -/
def lowerChar (c : Char) : Char :=
  if c.isUpper then Char.ofNat (c.toNat + 32)
  else if c.toNat = 0x130 then 'i'
  else if c.toNat = 0x212A then 'k'
  else c

namespace Symbol

/-- Lower-cases a character; a stray byte has no case. -/
def lower : Symbol → Symbol
  | char c => char (lowerChar c)
  | stray b => stray b

/-- Whether a symbol is a space character. -/
def isSpace : Symbol → Bool
  | char c => LeadingTerms.isSpace c
  | stray _ => false

end Symbol

/-- Whether the symbols spell the name once lower-cased. -/
def spells (name : String) (symbols : List Symbol) : Bool :=
  symbols.map Symbol.lower == name.toList.map Symbol.char

/-- The symbols without the spaces at both ends. -/
def trimmed (symbols : List Symbol) : List Symbol :=
  ((symbols.dropWhile Symbol.isSpace).reverse.dropWhile Symbol.isSpace).reverse

end LeadingTerms
