import LeadingTerms.Numeral.Decimal

/-!
# The sequence and its generators

`fib` is the sequence over the natural numbers. A generator gives the term at a signed 64-bit index as an unsigned 64-bit
word, so that it can hold only the remainder of a term modulo `2 ^ 64`; it can also fail to give one.
-/

namespace LeadingTerms

/-- The Fibonacci sequence. -/
def fib : Nat → Nat
  | 0 => 0
  | 1 => 1
  | n + 2 => fib (n + 1) + fib n

/-- The reasons why a generator gives no term. -/
inductive Fault where
  /-- The sequence has no term at a negative index. -/
  | negativeIndex (n : Int64)
  /-- The computation does not come to an end at this index. -/
  | endless (n : Int64)
deriving DecidableEq

/-- The wording of a fault. -/
def Fault.message : Fault → Bytes
  | negativeIndex n => utf8 "fibonacci: negative index " ++ signedDecimal n.toInt
  | endless n => utf8 "fibonacci: endless at index " ++ signedDecimal n.toInt

/-- A source of terms by index. -/
abbrev Generator := Int64 → Except Fault UInt64

/-- The generator that repeats the terms of a table over and over. -/
def Generator.ofTable (table : Array UInt64) : Generator :=
  fun i => .ok (table.getD (i.toNatClampNeg % table.size) 0)

end LeadingTerms
