import LeadingTerms.Text.Fold

/-!
# Severity levels

Seven levels from the gravest to the most talkative. A log at some level shows the records that are at least as grave.
-/

namespace LeadingTerms

/-- How grave a record is, and how much a log shows. -/
inductive Level where
  | panic
  | fatal
  | error
  | warning
  | info
  | debug
  | trace
deriving DecidableEq

namespace Level

/-- The levels, the gravest first. -/
def all : List Level := [panic, fatal, error, warning, info, debug, trace]

/-- The place of a level in the order of gravity, the gravest at zero. -/
def rank : Level → Nat
  | panic => 0
  | fatal => 1
  | error => 2
  | warning => 3
  | info => 4
  | debug => 5
  | trace => 6

/-- The name a level is printed under. -/
def name : Level → String
  | panic => "panic"
  | fatal => "fatal"
  | error => "error"
  | warning => "warning"
  | info => "info"
  | debug => "debug"
  | trace => "trace"

/-- The level of a log when none is configured. -/
def standard : Level := warning

/-- The names a level is found under: its own, and a short one for warnings. -/
def names : Level → List String
  | warning => ["warn", "warning"]
  | l => [l.name]

/-- The level that a text names, letter case aside. Surrounding spaces are not ignored. -/
def ofName? (text : Bytes) : Option Level :=
  let symbols := decode text
  all.find? fun l => l.names.any fun n => spells n symbols

/-- Whether a log at level `threshold` shows a record of level `l`. -/
def shownAt (threshold l : Level) : Bool := l.rank ≤ threshold.rank

end Level

end LeadingTerms
