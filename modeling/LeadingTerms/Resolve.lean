import LeadingTerms.Error
import LeadingTerms.Diagnostics.Level
import LeadingTerms.Sequence.Algorithm

/-!
# Names that stand for something

Configured names are looked up; one that stands for nothing is an error that shows the name as it was given.
-/

namespace LeadingTerms

/-- What a name stands for, or an error if it stands for nothing. -/
def found {α : Type} (e : Error) : Option α → Except Error α
  | some a => .ok a
  | none => .error e

theorem found_eq_ok_iff {α : Type} {e : Error} {o : Option α} {a : α} : found e o = .ok a ↔ o = some a := by
  cases o <;> simp [found]

theorem found_eq_error_iff {α : Type} {e e' : Error} {o : Option α} : found e o = .error e' ↔ o = none ∧ e' = e := by
  cases o <;> simp [found, eq_comm]

/-- The level a configured text names. -/
def findLevel (text : Bytes) : Except Error Level := found (.unknownLevel text) (Level.ofName? text)

/-- The algorithm a configured text names. -/
def findAlgorithm (text : Bytes) : Except Error Algorithm := found (.unknownAlgorithm text) (Algorithm.ofName? text)

end LeadingTerms
