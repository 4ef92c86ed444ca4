import LeadingTerms.Numeral.Decimal

/-!
# Double-precision numbers

A finite binary floating-point number of 64 bits, as a sign, a significand of at most 53 bits and a power of two, all in
exact integer arithmetic. `Binary64.nearest?` rounds a decimal to the nearest such number, and `Binary64.render` writes
one with the fewest digits that round back to it, in positional notation.
-/

namespace LeadingTerms

/-- The number `significand * 2 ^ exponent` under a sign; zero has one too. -/
structure Binary64 where
  negative : Bool
  significand : Nat
  exponent : Int
deriving DecidableEq

namespace Binary64

/-- The least significand of 53 bits. -/
def leastFull : Nat := Nat.pow 2 52

/-- The first number of more than 53 bits. -/
def overflow : Nat := Nat.pow 2 53

/-- The exponent of the smallest numbers. -/
def minExponent : Int := -1074

/-- The exponent of the largest numbers. -/
def maxExponent : Int := 971

/-- A quotient rounded to the nearest integer, a half to the even one. -/
def roundedDiv (num den : Nat) : Nat :=
  let q := num / den
  let twice := 2 * (num % den)
  if den < twice ∨ (twice = den ∧ q % 2 = 1) then q + 1 else q

/-- The fraction `num / den` divided by a power of two. -/
def scaled (num den : Nat) (exponent : Int) : Nat × Nat :=
  match exponent with
  | .ofNat k => (num, den * Nat.pow 2 k)
  | .negSucc k => (num * Nat.pow 2 (k + 1), den)

/-- The number nearest to a positive fraction, or nothing if the fraction is too large. The exponent is the one that
leaves 53 bits to the significand, or the least one. -/
def ofFraction? (negative : Bool) (num den : Nat) : Option Binary64 :=
  let guess := (num.log2 : Int) - den.log2 - 53
  let (n, d) := scaled num den guess
  let exact := if n / d < overflow then guess else guess + 1
  let e := max exact minExponent
  let (n, d) := scaled num den e
  let m := roundedDiv n d
  let (m, e) := if m = overflow then (leastFull, e + 1) else (m, e)
  if maxExponent < e then none else some ⟨negative, m, e⟩

/-- The number nearest to the decimal `digits * 10 ^ power`, or nothing if the decimal is too large. -/
def nearest? (negative : Bool) (digits : Nat) (power : Int) : Option Binary64 :=
  let length : Int := (Nat.toDigits 10 digits).length
  if digits = 0 ∨ length + power < -400 then some ⟨negative, 0, minExponent⟩
  else if 400 < length + power then none
  else match power with
    | .ofNat k => ofFraction? negative (digits * Nat.pow 10 k) 1
    | .negSucc k => ofFraction? negative digits (Nat.pow 10 (k + 1))

/-! ## The fewest digits -/

/-- The numbers that round to a given one lie between two bounds, here as multiples of a quarter of its last place: the
value itself, the lower and the upper bound, and whether the bounds belong to them. Below a power of two the neighbour is
only half as far away. -/
structure Interval where
  value : Nat
  lower : Nat
  upper : Nat
  closed : Bool

/-- The interval of the numbers that round to `x`. -/
def interval (x : Binary64) : Interval :=
  let v := 4 * x.significand
  let below := if x.significand = leastFull ∧ minExponent < x.exponent then 1 else 2
  ⟨v, v - below, v + 2, x.significand % 2 = 0⟩

/-- The fraction `n / 4 * 2 ^ exponent / 10 ^ power` as numerator and denominator. -/
def overPower (n : Nat) (exponent power : Int) : Nat × Nat :=
  let (n, d) := scaled n 4 (-exponent)
  match power with
  | .ofNat k => (n, d * Nat.pow 10 k)
  | .negSucc k => (n * Nat.pow 10 (k + 1), d)

/-- Whether `d * 10 ^ power` lies in the interval of `x`. -/
def reads (x : Binary64) (d : Nat) (power : Int) : Bool :=
  let i := x.interval
  let (ln, ld) := overPower i.lower x.exponent power
  let (un, ud) := overPower i.upper x.exponent power
  if i.closed then ln ≤ d * ld && d * ud ≤ un else ln < d * ld && d * ud < un

/-- Whether `10 ^ e` is at most a positive `x`. -/
def reaches (x : Binary64) (e : Int) : Bool :=
  let (n, d) := overPower (4 * x.significand) x.exponent e
  d ≤ n

/-- The decimal exponent of a positive `x`: the greatest `e` with `10 ^ e ≤ x`. It lies between -324 and 308. -/
def decimalExponent (x : Binary64) : Int :=
  let candidates := (List.range 633).map fun (k : Nat) => (308 : Int) - k
  (candidates.find? x.reaches).getD (-324)

/-- The multiple of `10 ^ power` that is nearest to `x` among those that round to `x`, a half going to the even one. -/
def onGrid? (x : Binary64) (power : Int) : Option Nat :=
  let (n, d) := overPower (4 * x.significand) x.exponent power
  let low := n / d
  let near := roundedDiv n d
  let far := if near = low then low + 1 else low
  if x.reads near power then some near
  else if x.reads far power then some far
  else none

/-- The fewest decimal digits that round to a positive `x`, as a number and the power of ten it is a multiple of. The
grids are tried from the coarsest on; that of the next power of ten comes first, since the value may round up to it, and
seventeen digits always suffice. -/
def shortest (x : Binary64) : Nat × Int :=
  let e := x.decimalExponent
  let grids := (List.range 18).map fun (k : Nat) => e + 1 - k
  (grids.findSome? fun power => (x.onGrid? power).map fun d => (d, power)).getD (0, 0)

/-- The decimal `d * 10 ^ power` in positional notation. -/
def positional (d : Nat) : (power : Int) → List Char
  | .ofNat k => Nat.toDigits 10 d ++ List.replicate k '0'
  | .negSucc k =>
    let digits := Nat.toDigits 10 d
    let padded := List.replicate (k + 2 - digits.length) '0' ++ digits
    let whole := padded.length - (k + 1)
    padded.take whole ++ ['.'] ++ padded.drop whole

/-- A number in positional notation, with the fewest digits that round back to it. -/
def render (x : Binary64) : Bytes :=
  let sign := if x.negative then ['-'] else []
  if x.significand = 0 then encode (sign ++ ['0'])
  else
    let (d, power) := x.shortest
    encode (sign ++ positional d power)

end Binary64

end LeadingTerms
