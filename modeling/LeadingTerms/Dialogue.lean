import LeadingTerms.Console

/-!
# The dialogue

The program asks for a number of terms, reads it, and writes that many leading terms of the sequence on one line. A number
that is not positive is answered with a notice; that is no failure.
-/

namespace LeadingTerms

namespace Dialogue

/-- The question. -/
def prompt : Bytes := utf8 "Enter the number of terms: "

/-- The answer to a number that is not positive. -/
def notice : Bytes := utf8 "Please enter a positive integer.\n"

/-- The line above the terms. -/
def header (count : Int64) : Bytes :=
  utf8 "Fibonacci Sequence up to " ++ signedDecimal count.toInt ++ utf8 " terms:\n"

/-- A term on its line. -/
def termChunk (term : UInt64) : Bytes := decimal term.toNat ++ utf8 " "

/-- The end of the line of terms. -/
def newline : Bytes := utf8 "\n"

/-- The record of a count, with what is done about it. -/
def counted (message : String) (count : Int64) : Record :=
  ⟨.debug, utf8 message, utf8 "terms", signedDecimal count.toInt⟩

/-- The record of a count that is turned down. -/
def rejecting : Int64 → Record := counted "rejecting non-positive term count"

/-- The record of a count that is accepted. -/
def generating : Int64 → Record := counted "generating sequence"

/-- A counter below its bound can be counted up. -/
theorem toInt_add_one {i count : Int64} (h : i < count) : (i + 1).toInt = i.toInt + 1 := by
  rw [Int64.lt_iff_toInt_lt] at h
  have hlo := Int64.le_toInt i
  have hhi := Int64.toInt_lt count
  rw [Int64.toInt_add, Int64.toInt_one]
  exact Int.bmod_eq_of_le (by omega) (by omega)

/-- Writes the terms from index `i` up to `count`. -/
def writeTerms (generator : Generator) (count i : Int64) : Action Unit :=
  if _h : i < count then do
    let term ← Console.ask generator i
    Console.write (termChunk term)
    writeTerms generator count (i + 1)
  else pure ()
termination_by (count.toInt - i.toInt).toNat
decreasing_by
  have hi := toInt_add_one _h
  rw [Int64.lt_iff_toInt_lt] at _h
  omega

/-- One dialogue, with the log at the given level. -/
def run (generator : Generator) (threshold : Level) : Action Unit := do
  Console.write prompt
  let count ← Console.readInteger
  if count ≤ 0 then
    Console.note threshold (rejecting count)
    Console.write notice
  else
    Console.note threshold (generating count)
    Console.write (header count)
    writeTerms generator count 0
    Console.write newline

end Dialogue

end LeadingTerms
