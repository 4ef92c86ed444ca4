import LeadingTerms.Numeral.Binary64

/-!
# Configured values

A setting may be given any kind of value, and is read as text. Lists and tables have no text form, so all that is kept of
them is what they are.
-/

namespace LeadingTerms

/-- A configured value. -/
inductive Value where
  /-- The absence of a value; a setting given this counts as not given. -/
  | null
  | boolean (b : Bool)
  | integer (n : Int64)
  | real (x : Binary64)
  | text (t : Bytes)
  | list
  | table
deriving DecidableEq

namespace Value

/-- The text form of a value. -/
def toText : Value → Bytes
  | null => []
  | boolean b => utf8 (if b then "true" else "false")
  | integer n => signedDecimal n.toInt
  | real x => x.render
  | text t => t
  | list => []
  | table => []

/-- A value other than the absence of one. -/
def present : Value → Bool
  | null => false
  | _ => true

end Value

end LeadingTerms
