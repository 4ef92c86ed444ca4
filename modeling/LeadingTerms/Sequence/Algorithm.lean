import LeadingTerms.Sequence.Recursive
import LeadingTerms.Sequence.Iterative
import LeadingTerms.Text.Fold

/-!
# Algorithms by name

The two ways to compute a term, each under a name that is found whatever its letter case and the spaces around it.
-/

namespace LeadingTerms

/-- A way to compute a term. -/
inductive Algorithm where
  | recursive
  | iterative
deriving DecidableEq

namespace Algorithm

/-- The name of an algorithm. -/
def name : Algorithm → String
  | recursive => "recursive"
  | iterative => "iterative"

/-- The algorithm that is used when none is configured. -/
def standard : Algorithm := recursive

/-- The generator of an algorithm. -/
def generate : Algorithm → Generator
  | recursive => LeadingTerms.recursive
  | iterative => LeadingTerms.iterative

/-- The algorithm that a text names, letter case and surrounding spaces aside. -/
def ofName? (text : Bytes) : Option Algorithm :=
  let core := trimmed (decode text)
  if spells recursive.name core then some recursive
  else if spells iterative.name core then some iterative
  else none

end Algorithm

end LeadingTerms
