import LeadingTerms.Arguments
import LeadingTerms.Input.Scan
import LeadingTerms.Sequence.Basic

/-!
# Errors

Every way in which the program can fail, by cause. `Error.message` is the one place where causes are put into words.
-/

namespace LeadingTerms

/-- The causes of failure. -/
inductive Error where
  /-- No algorithm has this name. -/
  | unknownAlgorithm (name : Bytes)
  /-- No level has this name. -/
  | unknownLevel (name : Bytes)
  /-- The command takes no operands. -/
  | unexpectedOperand (operand : Bytes)
  /-- There is no word to complete. -/
  | nothingToComplete
  /-- An argument could not be read. -/
  | flag (cause : FlagError)
  /-- The output took no more. -/
  | writeRefused
  /-- The number of terms could not be scanned. -/
  | scan (cause : ScanError)
  /-- The generator gave no term. -/
  | fault (cause : Fault)
deriving DecidableEq

/-- The wording of what is wrong with a literal. -/
def LiteralError.message : LiteralError → Bytes
  | syntaxError => utf8 "invalid syntax"
  | rangeError => utf8 "value out of range"

/-- The wording of a failed scan. The literal is quoted as typed; all its characters are printable. -/
def ScanError.message : ScanError → Bytes
  | endOfInput => utf8 "EOF"
  | notAnInteger => utf8 "expected integer"
  | literal l cause =>
    utf8 "strconv.ParseInt: parsing \"" ++ encode l.chars ++ utf8 "\": " ++ cause.message
  | readFailure message => message

namespace Error

/-- The wording that all unknown algorithms share. -/
def unknownAlgorithmText : String := "unknown algorithm"

/-- The wording of an error. -/
def message : Error → Bytes
  | unknownAlgorithm name => utf8 unknownAlgorithmText ++ utf8 " " ++ quoteText name
  | unknownLevel name => utf8 "invalid log level: not a valid logrus Level: " ++ quoteText name
  | unexpectedOperand operand => utf8 "unknown command " ++ quoteText operand ++ utf8 " for \"fibseq\""
  | nothingToComplete => utf8 "requires at least 1 arg(s), only received 0"
  | flag cause => cause.message
  | writeRefused => utf8 "write refused"
  | scan cause => utf8 "reading number of terms: " ++ cause.message
  | fault cause => cause.message

end Error

end LeadingTerms
