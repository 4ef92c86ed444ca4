import LeadingTerms.Text.Printable
import LeadingTerms.Text.Symbol

/-!
# Quoted texts

Foreign text is shown between quotes, on one line and in visible characters only. Printable characters stand for
themselves, the quote and the backslash take a backslash, seven controls have a letter, and everything else is written as
the number of its code point, or of its byte when it is part of no character. `quoteText` uses double quotes,
`quoteChar` single ones.
-/

namespace LeadingTerms

/-- The last `width` digits of a number in base sixteen, in small letters. -/
def hexDigits : (width : Nat) → Nat → Bytes
  | 0, _ => []
  | k + 1, n => hexDigits k (n / 16) ++ encode [Nat.digitChar (n % 16)]

namespace Quoted

/-- The letter that stands for a control behind a backslash. -/
def letter? (c : Char) : Option Char :=
  match c.toNat with
  | 0x07 => some 'a'
  | 0x08 => some 'b'
  | 0x09 => some 't'
  | 0x0A => some 'n'
  | 0x0B => some 'v'
  | 0x0C => some 'f'
  | 0x0D => some 'r'
  | _ => none

/-- A character between quotes of the given kind. -/
def char (quote c : Char) : Bytes :=
  if c = quote ∨ c = '\\' then encode ['\\', c]
  else if isPrintable c then encode [c]
  else match letter? c with
    | some l => encode ['\\', l]
    | none =>
      let n := c.toNat
      if n < 0x80 then utf8 "\\x" ++ hexDigits 2 n
      else if n < 0x10000 then utf8 "\\u" ++ hexDigits 4 n
      else utf8 "\\U" ++ hexDigits 8 n

theorem utf8_byteEscape : utf8 "\\x" = encode ['\\', 'x'] := utf8_ofList _

theorem utf8_shortEscape : utf8 "\\u" = encode ['\\', 'u'] := utf8_ofList _

theorem utf8_longEscape : utf8 "\\U" = encode ['\\', 'U'] := utf8_ofList _

/-- A symbol between quotes of the given kind. -/
def symbol (quote : Char) : Symbol → Bytes
  | .char c => char quote c
  | .stray b => utf8 "\\x" ++ hexDigits 2 b.toNat

end Quoted

theorem utf8_doubleQuote : utf8 "\"" = encode ['\x22'] := utf8_ofList _

/-- A byte text between double quotes. -/
def quoteText (text : Bytes) : Bytes :=
  utf8 "\"" ++ (decode text).flatMap (Quoted.symbol '\x22') ++ utf8 "\""

/-- A character between single quotes. -/
def quoteChar (c : Char) : Bytes :=
  utf8 "'" ++ Quoted.char '\x27' c ++ utf8 "'"

end LeadingTerms
