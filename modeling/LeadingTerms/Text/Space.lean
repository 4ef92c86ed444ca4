/-!
# Space characters

The characters that may stand around a name and in front of a number: those with the Unicode property `White_Space`.
-/

namespace LeadingTerms

/-- Tab to carriage return, the blank, and the spaces and separators outside the one-byte range. Zero-width characters
are no spaces. -/
def isSpace (c : Char) : Bool :=
  let n := c.toNat
  (0x09 ≤ n && n ≤ 0x0D) || n == 0x20 || n == 0x85 || n == 0xA0 || n == 0x1680 || (0x2000 ≤ n && n ≤ 0x200A) ||
    n == 0x2028 || n == 0x2029 || n == 0x202F || n == 0x205F || n == 0x3000

end LeadingTerms
