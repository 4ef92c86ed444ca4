import LeadingTerms.Program

/-!
# Running on a terminal

The program decides everything about a run from the input it is given. To hold a dialogue with somebody who types, it is
run on the bytes received so far as if the source failed behind them: if the run does not come to that point, what follows
does not matter and the run is final; otherwise the output so far is shown and another byte is awaited. Arguments and
variables reach the program as strings.
-/

namespace LeadingTerms

namespace Terminal

/-- Whether a run went past the bytes received so far. -/
def awaitsInput (o : Outcome) : Bool :=
  match o.error with
  | some (.scan (.readFailure _)) => true
  | _ => false

/-- Writes bytes to a stream at once. -/
def put (stream : IO.FS.Stream) (bytes : Bytes) : IO Unit := do
  stream.write ⟨bytes.toArray⟩
  stream.flush

/-- Shows what an ended program has not shown yet, and gives its exit code. -/
def finish (exit : Program.Exit) (output errors : Nat) : IO UInt32 := do
  put (← IO.getStderr) (exit.errors.drop errors)
  put (← IO.getStdout) (exit.output.drop output)
  return exit.code

/-- Runs the program on the bytes received, the given numbers of bytes of its output and log having been shown. -/
partial def attend (env : Environment) (args : List Bytes) (received : Bytes) (output log : Nat) : IO UInt32 := do
  let o := Program.execute env args (.ofBytes received (.failure []))
  if awaitsInput o then
    put (← IO.getStderr) (o.log.drop log)
    put (← IO.getStdout) (o.output.drop output)
    let more ← (← IO.getStdin).read 1
    if more.isEmpty then
      finish (Program.run env args (.ofBytes received .endOfInput)) o.output.length o.log.length
    else
      attend env args (received ++ more.data.toList) o.output.length o.log.length
  else
    finish (Program.report o) output log

/-- The variables of the environment that the program looks at. -/
def environment : IO Environment := do
  let variableOf (s : Setting) : IO (Option Bytes) := return (← IO.getEnv s.variableName).map utf8
  return ⟨← variableOf .algorithm, ← variableOf .logLevel⟩

end Terminal

end LeadingTerms

/-- Holds one dialogue on the terminal. -/
def main (args : List String) : IO UInt32 := do
  LeadingTerms.Terminal.attend (← LeadingTerms.Terminal.environment) (args.map LeadingTerms.utf8) [] 0 0
