import LeadingTerms.Diagnostics.Record
import LeadingTerms.Error

/-!
# The console

The state of a run as seen from outside: what was written, what was logged, which terms were asked for, and the input that
is left. Actions on it either succeed or fail with an `Error`, and what happened before a failure stays.
-/

namespace LeadingTerms

/-- An output that takes whole chunks, and possibly only so many. -/
structure Sink where
  /-- The chunks taken, the latest first. -/
  chunks : List Bytes
  /-- How many more chunks are taken; no number means no limit. -/
  left : Option Nat
deriving DecidableEq

namespace Sink

/-- An empty output with the given limit. -/
def empty (limit : Option Nat) : Sink := ⟨[], limit⟩

/-- The sink with one more chunk, unless it refuses. -/
def offer (s : Sink) (chunk : Bytes) : Option Sink :=
  match s.left with
  | none => some ⟨chunk :: s.chunks, none⟩
  | some 0 => none
  | some (k + 1) => some ⟨chunk :: s.chunks, some k⟩

/-- All that was taken, in order. -/
def output (s : Sink) : Bytes := s.chunks.reverse.flatten

end Sink

/-- Everything a run touches. -/
structure Console where
  sink : Sink
  /-- The log lines written so far. -/
  log : Bytes
  /-- The indices asked of the generator, the latest first. -/
  asked : List Int64
  source : Source
deriving DecidableEq

/-- An action on the console. -/
abbrev Action := EStateM Error Console

namespace Console

/-- A console on which nothing has happened yet. -/
def fresh (limit : Option Nat) (source : Source) : Console := ⟨.empty limit, [], [], source⟩

/-- Writes one chunk. -/
def write (chunk : Bytes) : Action Unit := fun c =>
  match c.sink.offer chunk with
  | some sink => .ok () { c with sink := sink }
  | none => .error .writeRefused c

/-- Logs a record, if a log at the given level shows it. -/
def note (threshold : Level) (r : Record) : Action Unit := fun c =>
  .ok () { c with log := c.log ++ r.shownAt threshold }

/-- Scans an integer off the input. -/
def readInteger : Action Int64 := fun c =>
  match scan c.source with
  | (.ok v, source) => .ok v { c with source := source }
  | (.error e, source) => .error (.scan e) { c with source := source }

/-- Asks a generator for the term at an index. -/
def ask (generator : Generator) (i : Int64) : Action UInt64 := fun c =>
  let c := { c with asked := i :: c.asked }
  match generator i with
  | .ok term => .ok term c
  | .error fault => .error (.fault fault) c

end Console

end LeadingTerms
