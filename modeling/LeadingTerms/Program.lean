import LeadingTerms.Command
import LeadingTerms.Completion

/-!
# The program

The program answers a request for completions. Any other arguments it leaves to a fresh command, which it runs once, with
nothing configured but its environment. It reports a failure on the error output and by its exit code.
-/

namespace LeadingTerms

namespace Program

/-- One run: the answer to a request, or one run of a fresh command. -/
def execute (env : Environment) (args : List Bytes) (source : Source) : Outcome :=
  match Completion.request? args with
  | some request => request.outcome source
  | none => (Command.fresh.execute .empty env args source).2.2

/-- What a finished program shows. -/
structure Exit where
  code : UInt32
  output : Bytes
  errors : Bytes
deriving DecidableEq

/-- The report of an outcome: a failure adds its message to the error output. -/
def report (o : Outcome) : Exit :=
  match o.error with
  | none => ⟨0, o.output, o.log⟩
  | some e => ⟨1, o.output, o.log ++ utf8 "Error: " ++ e.message ++ utf8 "\n"⟩

/-- The whole program. -/
def run (env : Environment) (args : List Bytes) (source : Source) : Exit :=
  report (execute env args source)

end Program

end LeadingTerms
