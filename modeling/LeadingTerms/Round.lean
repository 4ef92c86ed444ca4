import LeadingTerms.Dialogue
import LeadingTerms.Outcome
import LeadingTerms.Resolve

/-!
# Rounds on one source

Several dialogues can be held one after another on the same source, each with its own generator, log and output. A round
that fails does not keep the next one from being held.
-/

namespace LeadingTerms

/-- What the terms of a round are computed with. -/
inductive TermSource where
  /-- The algorithm of this name. -/
  | named (name : Bytes)
  /-- These terms, over and over. -/
  | table (terms : Array UInt64)

/-- One dialogue to be held. -/
structure Round where
  terms : TermSource
  logLevel : Bytes
  /-- How many chunks the output takes. -/
  limit : Option Nat

namespace Round

/-- The generator of a round. -/
def generator (r : Round) : Except Error Generator :=
  match r.terms with
  | .named name => (findAlgorithm name).map Algorithm.generate
  | .table terms => .ok (.ofTable terms)

/-- Holds one round. The level is looked at before the algorithm. -/
def hold (r : Round) (source : Source) : Outcome :=
  match findLevel r.logLevel with
  | .error e => .failed e source
  | .ok level => match r.generator with
    | .error e => .failed e source
    | .ok generator => .ofAction (Dialogue.run generator level) r.limit source

/-- Holds rounds one after another. -/
def holdAll (source : Source) : List Round → List Outcome
  | [] => []
  | r :: rs =>
    let outcome := r.hold source
    outcome :: holdAll outcome.rest rs

end Round

end LeadingTerms
