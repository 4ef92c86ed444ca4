import LeadingTerms.Sequence.Basic

/-!
# Terms by iteration

A window of two neighbouring terms moves along the sequence, one term at a time, under a counter of the same width as the
index. The loop runs while the counter is not past the index. A counter that has reached the greatest index steps to the
least one, so at the greatest index the loop does not end.
-/

namespace LeadingTerms

/-- Two neighbouring terms and the index of the term that comes next. -/
structure Window where
  next : Int64
  prev : UInt64
  curr : UInt64
deriving DecidableEq

namespace Window

/-- The window on the terms at zero and one. -/
def start : Window := ⟨2, 0, 1⟩

/-- The window one term further on. Counter and terms wrap around. -/
def advance (w : Window) : Window := ⟨w.next + 1, w.curr, w.prev + w.curr⟩

/-- Whether the loop towards `n` goes on. -/
def continues (n : Int64) (w : Window) : Bool := w.next ≤ n

/-- One turn of the loop towards `n`. -/
def Step (n : Int64) (w w' : Window) : Prop := w.continues n = true ∧ w' = w.advance

/-- The window at which the loop towards `n` ends, if it ends within the given number of turns. -/
def settle (n : Int64) : (turns : Nat) → Window → Option Window
  | turns, w =>
    if w.continues n then
      match turns with
      | 0 => none
      | k + 1 => settle n k w.advance
    else some w

end Window

/-- The term at an index, by iteration. The loop towards `n` takes `n - 1` turns or does not end. -/
def iterative (n : Int64) : Except Fault UInt64 :=
  if n < 0 then .error (.negativeIndex n)
  else if n ≤ 1 then .ok n.toUInt64
  else match Window.start.settle n (n.toNatClampNeg - 1) with
    | some w => .ok w.curr
    | none => .error (.endless n)

end LeadingTerms
