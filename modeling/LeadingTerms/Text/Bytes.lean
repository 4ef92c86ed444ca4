/-!
# Byte texts

Everything the program reads and writes is a list of bytes, because names, arguments and input need not be valid UTF-8.
Fixed texts are written as strings and turned into bytes by `utf8`.
-/

namespace LeadingTerms

/-- A text as the bytes that carry it. -/
abbrev Bytes := List UInt8

/-- The UTF-8 encoding of a string. -/
def utf8 (s : String) : Bytes := s.toByteArray.data.toList

/-- The UTF-8 encoding of a list of characters. -/
def encode (cs : List Char) : Bytes := cs.flatMap String.utf8EncodeChar

/-- Encoding a string is encoding its characters. -/
theorem utf8_ofList (cs : List Char) : utf8 (String.ofList cs) = encode cs := by
  simp [utf8, encode, List.utf8Encode]

/-- Encoding respects concatenation of strings. -/
theorem utf8_append (s t : String) : utf8 (s ++ t) = utf8 s ++ utf8 t := by
  simp [utf8]

/-- Encoding respects concatenation of character lists. -/
theorem encode_append (cs ds : List Char) : encode (cs ++ ds) = encode cs ++ encode ds := by
  simp [encode]

end LeadingTerms
