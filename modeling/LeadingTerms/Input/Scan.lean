import LeadingTerms.Input.Source
import LeadingTerms.Numeral.Literal
import LeadingTerms.Text.Fold

/-!
# Scanning an integer

An integer is scanned off a source in one pass: spaces, a sign, then a literal for as long as the next symbol extends it.
The symbol that does not is looked at and not taken. `Progress` says how far the scan has come, `Progress.step` whether it
takes a symbol, and `Progress.advance` runs it on a source; `scan` then reads off the number.
-/

namespace LeadingTerms

/-- The reasons why no integer could be scanned. -/
inductive ScanError where
  /-- The input ended in front of the first digit. -/
  | endOfInput
  /-- The symbol in the place of the first digit is none. -/
  | notAnInteger
  /-- The literal denotes no number. -/
  | literal (l : Literal) (cause : LiteralError)
  /-- The source failed. -/
  | readFailure (message : Bytes)
deriving DecidableEq

/-- How far a scan has come. -/
inductive Progress where
  /-- Past some spaces. -/
  | blank
  /-- Past a sign. -/
  | signed (sign : Sign)
  /-- Inside a literal. -/
  | within (l : Literal)
deriving DecidableEq

/-- Why a scan takes no further symbol. -/
inductive Stop where
  /-- The next symbol does not extend the literal. -/
  | refused
  /-- The input ended. -/
  | ended
  /-- The source failed. -/
  | failed (message : Bytes)
deriving DecidableEq

namespace Progress

/-- Takes a symbol, if it can. -/
def step : Progress → Symbol → Option Progress
  | blank, .char c =>
    if isSpace c then some blank
    else match Sign.ofChar? c with
      | some s => some (signed s)
      | none => (Literal.start? none c).map within
  | signed s, .char c => (Literal.start? (some s) c).map within
  | within l, .char c => (l.push? c).map within
  | _, .stray _ => none

/-- Takes symbols off a source as long as it can. -/
def advance (p : Progress) (source : Source) : Progress × Stop × Source :=
  match _h : source.look with
  | .symbol s before after =>
    match p.step s with
    | some p' => p'.advance after
    | none => (p, .refused, before)
  | .ended here => (p, .ended, here)
  | .failed message here => (p, .failed message, here)
termination_by source.size
decreasing_by exact Source.size_of_look_symbol _h

/-- The number a finished scan has found. -/
def result : Progress → Stop → Except ScanError Int64
  | _, .failed message => .error (.readFailure message)
  | within l, _ => match l.value with
    | .ok v => .ok v
    | .error cause => .error (.literal l cause)
  | _, .refused => .error .notAnInteger
  | _, .ended => .error .endOfInput

end Progress

/-- Scans an integer off a source; the second part is the source as a later reading finds it. -/
def scan (source : Source) : Except ScanError Int64 × Source :=
  let (p, stop, here) := Progress.blank.advance source
  (p.result stop, here.released)

end LeadingTerms
