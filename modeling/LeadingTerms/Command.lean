import LeadingTerms.Dialogue
import LeadingTerms.Outcome
import LeadingTerms.Resolve
import LeadingTerms.Settings.Basic

/-!
# The command

The command reads its arguments, shows its help text if that is wanted, refuses operands, and otherwise holds one dialogue
with the algorithm and the log level of its configuration. A wish for help, once stated, stands until it is taken back.
-/

namespace LeadingTerms

/-- A command between two runs. -/
structure Command where
  /-- Whether help is wanted, by what was said so far. -/
  help : Bool
deriving DecidableEq

namespace Command

/-- A command that has not run yet. -/
def fresh : Command := ⟨false⟩

/-- The help text. -/
def helpText : Bytes :=
  utf8 "Print the leading terms of the Fibonacci sequence\n" ++
    utf8 "\nUsage:\n  fibseq [flags]\n" ++
    utf8 "\nFlags:\n  -h, --help   help for fibseq\n"

/-- The record of a start, with the name of the algorithm as configured. -/
def starting (name : Bytes) : Record := ⟨.debug, utf8 "starting", utf8 "algorithm", name⟩

/-- The dialogue that a configuration asks for. -/
def converse (config : Config) (source : Source) : Outcome :=
  match findLevel config.logLevel with
  | .error e => .failed e source
  | .ok level => match findAlgorithm config.algorithm with
    | .error e => .failed e source
    | .ok algorithm =>
      .ofAction (do
        Console.note level (starting config.algorithm)
        Dialogue.run algorithm.generate level) none source

/-- Runs the command on arguments, with settings that are brought up to date if they are asked for. The arguments are the
command's own: requests for completions do not come to it. -/
def execute (command : Command) (settings : Settings) (env : Environment) (args : List Bytes) (source : Source) :
    Command × Settings × Outcome :=
  let a := Arguments.parse command.help args
  let command : Command := ⟨a.help⟩
  match a.error with
  | some e => (command, settings, .failed (.flag e) source)
  | none =>
    if a.help then (command, settings, .wrote helpText source)
    else match a.operands with
      | operand :: _ => (command, settings, .failed (.unexpectedOperand operand) source)
      | [] =>
        let settings := settings.withDefaults
        (command, settings, converse (settings.config env) source)

end Command

end LeadingTerms
