import LeadingTerms.Text.Bytes

/-!
# Integer literals

An integer is typed with an optional sign, in base ten, or after a leading `0` in the base that the `0` and a letter
behind it announce. An underscore may stand between two digits and between the announcement and a digit.

A literal is held as it was typed, character by character; it may be unfinished or ill-formed. `Literal.start?` and
`Literal.push?` say which character can come next, and `Literal.value` reads the number off, or says what is wrong: too
large a magnitude comes before ill-formed, and ill-formed before a value out of the range of signed 64-bit integers.
-/

namespace LeadingTerms

/-- A sign in front of a number. -/
inductive Sign where
  | plus
  | minus
deriving DecidableEq

namespace Sign

/-- The sign a character is. -/
def ofChar? : Char → Option Sign
  | '+' => some plus
  | '-' => some minus
  | _ => none

/-- The character of a sign. -/
def toChar : Sign → Char
  | plus => '+'
  | minus => '-'

end Sign

/-- The bases a literal can be written in. -/
inductive Radix where
  | binary
  | octal
  | decimal
  | hexadecimal
deriving DecidableEq

namespace Radix

/-- The base as a number. -/
def base : Radix → Nat
  | binary => 2
  | octal => 8
  | decimal => 10
  | hexadecimal => 16

/-- The value of a character as a digit, letters of either case counting from ten. -/
def digitValue? (c : Char) : Option Nat :=
  if '0' ≤ c ∧ c ≤ '9' then some (c.toNat - 48)
  else if 'a' ≤ c ∧ c ≤ 'f' then some (c.toNat - 87)
  else if 'A' ≤ c ∧ c ≤ 'F' then some (c.toNat - 55)
  else none

/-- Whether a character is a digit of the base. -/
def isDigit (r : Radix) (c : Char) : Bool :=
  match digitValue? c with
  | some d => d < r.base
  | none => false

/-- The base that a letter behind a leading `0` announces. -/
def ofLetter? : Char → Option Radix
  | 'b' => some binary
  | 'B' => some binary
  | 'o' => some octal
  | 'O' => some octal
  | 'x' => some hexadecimal
  | 'X' => some hexadecimal
  | _ => none

end Radix

/-- How the digits of a literal are announced. -/
inductive Opening where
  /-- Not at all: base ten. -/
  | plain
  /-- By a leading `0` alone: base eight. The `0` is itself a digit. -/
  | zero
  /-- By a leading `0` and a letter. -/
  | marked (letter : Char) (radix : Radix)
deriving DecidableEq

namespace Opening

/-- The base announced. -/
def radix : Opening → Radix
  | plain => .decimal
  | zero => .octal
  | marked _ r => r

/-- The characters of the announcement. -/
def chars : Opening → List Char
  | plain => []
  | zero => ['0']
  | marked l _ => ['0', l]

end Opening

/-- An integer literal as typed so far. -/
structure Literal where
  sign : Option Sign
  opening : Opening
  /-- The digits and underscores behind the announcement. -/
  body : List Char
deriving DecidableEq

/-- What can be wrong with a literal. -/
inductive LiteralError where
  /-- An underscore out of place, or no digit. -/
  | syntaxError
  /-- A magnitude or a value too large. -/
  | rangeError
deriving DecidableEq

namespace Literal

/-- The literal that a first character behind the sign begins: a `0`, another decimal digit or an underscore. -/
def start? (sign : Option Sign) (c : Char) : Option Literal :=
  if c = '0' then some ⟨sign, .zero, []⟩
  else if c = '_' ∨ Radix.decimal.isDigit c then some ⟨sign, .plain, [c]⟩
  else none

/-- The literal with one more digit or underscore. -/
def extend? (l : Literal) (c : Char) : Option Literal :=
  if c = '_' ∨ l.opening.radix.isDigit c then some { l with body := l.body ++ [c] } else none

/-- The literal with one more character: directly behind a leading `0` a letter may announce a base, otherwise the
character is a digit of the base or an underscore. -/
def push? (l : Literal) (c : Char) : Option Literal :=
  if l.opening = .zero ∧ l.body = [] then
    match Radix.ofLetter? c with
    | some r => some { l with opening := .marked c r }
    | none => l.extend? c
  else l.extend? c

/-- The characters of the literal, as typed. -/
def chars (l : Literal) : List Char :=
  (l.sign.map Sign.toChar).toList ++ l.opening.chars ++ l.body

/-- The number that the digits spell, underscores left out. -/
def magnitude (l : Literal) : Nat :=
  (l.body.filterMap Radix.digitValue?).foldl (fun n d => n * l.opening.radix.base + d) 0

/-- Whether every underscore stands between two digits; `before` says that a digit, or an announcement, stands in
front. -/
def separated (before : Bool) : List Char → Bool
  | [] => before
  | c :: cs => if c = '_' then before && separated false cs else separated true cs

/-- Whether the literal has a digit and every underscore is in its place. -/
def wellFormed (l : Literal) : Bool :=
  match l.opening with
  | .plain => separated false l.body
  | .zero => separated true l.body
  | .marked _ _ => separated true l.body && !l.body.isEmpty

/-- The magnitude with the sign. -/
def signedValue (l : Literal) : Int :=
  if l.sign = some .minus then -(l.magnitude : Int) else l.magnitude

/-- The number a literal denotes, or what is wrong with it. -/
def value (l : Literal) : Except LiteralError Int64 :=
  if UInt64.size ≤ l.magnitude then .error .rangeError
  else if !l.wellFormed then .error .syntaxError
  else if l.signedValue < Int64.minValue.toInt ∨ Int64.maxValue.toInt < l.signedValue then .error .rangeError
  else .ok (Int64.ofInt l.signedValue)

end Literal

end LeadingTerms
