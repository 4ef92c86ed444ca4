import LeadingTerms.Command

/-!
# Sessions

A session is a sequence of steps that change the settings and the environment, read the configuration, or run the command.
Settings and environment last for the whole session, the command until it is replaced. The runs of a session are runs of the
command itself; no step of a session asks for completions.
-/

namespace LeadingTerms

/-- A step of a session. -/
inductive Step where
  | set (key : Bytes) (value : Value)
  | setDefault (key : Bytes) (value : Value)
  | merge (entries : List (Bytes × Value))
  | setVariable (name value : Bytes)
  | unsetVariable (name : Bytes)
  /-- Reads the configuration. -/
  | load
  /-- Runs the command. -/
  | execute (args : List Bytes) (source : Source)
  /-- Replaces the command by a fresh one and runs that. -/
  | executeFresh (args : List Bytes) (source : Source)

/-- The answer to a step. -/
inductive Reply where
  | done
  | config (c : Config)
  | outcome (o : Outcome)

/-- The state between two steps. -/
structure Session where
  settings : Settings
  environment : Environment
  command : Command
deriving DecidableEq

namespace Session

/-- A session in which nothing has been done. -/
def fresh : Session := ⟨.empty, Layer.empty, .fresh⟩

/-- Runs the command of a session. -/
def execute (s : Session) (args : List Bytes) (source : Source) : Session × Outcome :=
  let (command, settings, outcome) := s.command.execute s.settings s.environment args source
  ({ s with command := command, settings := settings }, outcome)

/-- Makes one step. -/
def step (s : Session) : Step → Session × Reply
  | .set key value => ({ s with settings := s.settings.set key value }, .done)
  | .setDefault key value => ({ s with settings := s.settings.setDefault key value }, .done)
  | .merge entries => ({ s with settings := s.settings.merge entries }, .done)
  | .setVariable name value => ({ s with environment := Environment.update s.environment name (some value) }, .done)
  | .unsetVariable name => ({ s with environment := Environment.update s.environment name none }, .done)
  | .load =>
    let settings := s.settings.withDefaults
    ({ s with settings := settings }, .config (settings.config s.environment))
  | .execute args source =>
    let (s, outcome) := s.execute args source
    (s, .outcome outcome)
  | .executeFresh args source =>
    let (s, outcome) := { s with command := .fresh : Session }.execute args source
    (s, .outcome outcome)

/-- Makes all steps and collects their answers. -/
def run (s : Session) : List Step → List Reply
  | [] => []
  | step :: steps =>
    let (s, reply) := s.step step
    reply :: s.run steps

end Session

end LeadingTerms
