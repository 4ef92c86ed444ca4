import LeadingTerms.Console

/-!
# Outcomes

What can be seen of a run once it is over: its output, its log, the input it left, and its error.
-/

namespace LeadingTerms

/-- What a run leaves behind. -/
structure Outcome where
  /-- What was written. -/
  output : Bytes
  /-- What was logged. -/
  log : Bytes
  /-- The input that is left. -/
  rest : Source
  /-- Why the run failed, if it did. -/
  error : Option Error
deriving DecidableEq

namespace Outcome

/-- A run that did nothing but write a text. -/
def wrote (text : Bytes) (source : Source) : Outcome := ⟨text, [], source, none⟩

/-- A run that did nothing but fail. -/
def failed (e : Error) (source : Source) : Outcome := ⟨[], [], source, some e⟩

/-- What an action on a fresh console leaves behind. -/
def ofAction (action : Action Unit) (limit : Option Nat) (source : Source) : Outcome :=
  match action (.fresh limit source) with
  | .ok _ c => ⟨c.sink.output, c.log, c.source, none⟩
  | .error e c => ⟨c.sink.output, c.log, c.source, some e⟩

end Outcome

end LeadingTerms
