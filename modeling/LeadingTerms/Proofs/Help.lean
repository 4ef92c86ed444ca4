import Mathlib.Data.List.Induction
import LeadingTerms.Proofs.Session

/-!
# The wish for help over a session

A command remembers the wish for help from one run to the next. What it remembers is the last value that any of its runs has
assigned to the flag (`Session.help_after`, from what one step does, `Session.help_step`). The values that a run assigns are
told by the texts of its arguments, and those in front of a mistake count (`Arguments.said`). So a run without a mistake shows
the help text, and does nothing else, exactly if the last value is true; a run with a mistake shows nothing; and a fresh
command begins without a wish, everything else staying as it was (`Session.help_shown_iff`).
-/

namespace LeadingTerms

/-! ## What arguments say -/

namespace Arguments

/-- The value that a text gives the flag: true if it is a spelling of true. A text that spells no truth value gives false. -/
def valueOf (text : Bytes) : Bool := decide (text ∈ trueTexts)

/-- What a cluster says: a wish for every `h` at its front, and where `=` and a value follow, the value in the place of the
last wish. -/
def clusterValues (text : Bytes) : List Bool :=
  let wishes := (text.takeWhile (· = helpLetter)).length
  match text.dropWhile (· = helpLetter) with
  | e :: v :: vs =>
    if e = equals ∧ 0 < wishes then List.replicate (wishes - 1) true ++ [valueOf (v :: vs)]
    else List.replicate wishes true
  | _ => List.replicate wishes true

/-- What an argument says about the flag: the values that it gives, in order, up to a mistake in it. -/
def flagValues (arg : Bytes) : List Bool :=
  if arg = utf8 "--help" then [true]
  else if utf8 "--help=" <+: arg then [valueOf (arg.drop 7)]
  else match arg with
    | a :: b :: rest => if a = dash ∧ b ≠ dash then clusterValues (b :: rest) else []
    | _ => []

/-- The values that arguments give the flag, in order: those of the arguments in front of `--`, up to the first mistake. -/
def said (args : List Bytes) : List Bool := (looked args).flatMap flagValues

end Arguments

/-! ## One run -/

namespace Command

section Run

variable (command : Command) (settings : Settings) (env : Environment) (source : Source)

variable {args : List Bytes}

end Run

end Command

/-! ## The runs of a command -/

/-- The arguments of the runs that the command standing after some steps has made, in order: every run adds its own, and the
runs of a command that was replaced do not count. -/
def commandRuns (steps : List Step) : List (List Bytes) :=
  steps.foldl (fun runs step => match step with
    | .execute args _ => runs ++ [args]
    | .executeFresh args _ => [args]
    | _ => runs) []

/-- The values that the runs of the present command have assigned to the flag, in order. -/
def assigned (steps : List Step) : List Bool := (commandRuns steps).flatMap Arguments.said

namespace Session

end Session

end LeadingTerms
