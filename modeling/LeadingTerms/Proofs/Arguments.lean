import Mathlib.Data.List.TakeWhile
import LeadingTerms.Arguments

/-!
# What the arguments say

The reading of arguments, told without its state. The arguments in front of the first `--` (`Arguments.front`) are looked at
one by one; each has a mistake or none (`mistake?`) and assigns some values to the flag (`assignments`), neither of which
depends on what was read before. The reading fails with the first mistake (`parse_error`); if there is none, the operands are
those in front of `--` and everything behind it (`parse_operands`). The wish for help is the last value assigned up to the
first mistake, and the one that stood before if none was assigned (`parse_help`). `parse_of_no_mistake` puts the three
together.
-/

namespace LeadingTerms

namespace Arguments

/-! ## One argument -/

/-- What is wrong with an argument, if anything is. -/
def mistake? (arg : Bytes) : Option FlagError :=
  match kind arg with
  | .name text => (named false text).2
  | .letters text => (cluster false text).2
  | _ => none

/-- The values that a cluster of one-letter flags assigns, in order, up to the first mistake in it. -/
def clusterAssignments : Bytes → List Bool
  | [] => []
  | b :: bs =>
    if ignoredCluster.isPrefixOf (b :: bs) then []
    else if b ≠ helpLetter then []
    else match bs with
      | e :: v :: vs => if e = equals then [(assign (v :: vs)).1] else true :: clusterAssignments bs
      | _ => true :: clusterAssignments bs

/-- The values that a flag given by name assigns. -/
def namedAssignments (text : Bytes) : List Bool :=
  if text.isEmpty ∨ text.head? = some dash ∨ text.head? = some equals then []
  else if text.takeWhile (· ≠ equals) ≠ utf8 "help" then []
  else match text.dropWhile (· ≠ equals) with
    | [] => [true]
    | _ :: value => [(assign value).1]

/-- The values that an argument assigns to the flag, in order, up to the first mistake in it. A value that is no truth value
assigns false. -/
def assignments (arg : Bytes) : List Bool :=
  match kind arg with
  | .name text => namedAssignments text
  | .letters text => clusterAssignments text
  | _ => []

/-- The value that stands after assignments. -/
def standing (help : Bool) (values : List Bool) : Bool := values.getLast?.getD help

theorem standing_append (help : Bool) (xs ys : List Bool) : standing help (xs ++ ys) = standing (standing help xs) ys := by
  unfold standing
  rw [List.getLast?_append]
  cases ys.getLast? <;> rfl

/-- A first value stands in for the one before it. -/
theorem standing_cons (help b : Bool) (values : List Bool) : standing help (b :: values) = standing b values := by
  unfold standing
  rw [List.getLast?_cons]
  cases values.getLast? <;> rfl

/-- A flag by name, as its assignments and its mistake. -/
theorem named_eq (help : Bool) (text : Bytes) :
    named help text = (standing help (namedAssignments text), (named false text).2) := by
  unfold named namedAssignments
  split
  · rfl
  · simp only
    split
    · rfl
    · cases text.dropWhile (· ≠ equals) <;> rfl

/-- A cluster, as its assignments and its mistake. -/
theorem cluster_eq (help : Bool) (text : Bytes) :
    cluster help text = (standing help (clusterAssignments text), (cluster false text).2) := by
  induction text generalizing help with
  | nil => rfl
  | cons b bs ih =>
    have htrue : cluster true bs = (standing help (true :: clusterAssignments bs), (cluster true bs).2) := by
      rw [standing_cons, ih true]
    unfold cluster clusterAssignments
    split
    · rfl
    · split
      · rfl
      · rcases bs with _ | ⟨e, _ | ⟨v, vs⟩⟩
        · exact htrue
        · exact htrue
        · simp only
          split
          · rfl
          · exact htrue

/-! ## The arguments in front of `--` -/

/-- The arguments in front of the first `--`. -/
def front (args : List Bytes) : List Bytes := args.takeWhile (· ≠ [dash, dash])

/-- The arguments in front of the first `--`, up to the first one with a mistake and with that one. -/
def looked (args : List Bytes) : List Bytes :=
  (front args).takeWhile (mistake? · = none) ++ ((front args).dropWhile (mistake? · = none)).take 1

/-- An argument is an operand if it is no flag: it does not begin with a dash or is nothing but a dash. -/
def isOperand (arg : Bytes) : Bool := arg.head? ≠ some dash || arg.length < 2

/-- The operands: those in front of the first `--`, and everything behind it. -/
def operandsOf (args : List Bytes) : List Bytes :=
  (front args).filter isOperand ++ (args.dropWhile (· ≠ [dash, dash])).drop 1

theorem front_cons {arg : Bytes} (args : List Bytes) (h : arg ≠ [dash, dash]) :
    front (arg :: args) = arg :: front args := by
  simp [front, h]

theorem operandsOf_cons {arg : Bytes} (args : List Bytes) (h : arg ≠ [dash, dash]) :
    operandsOf (arg :: args) = if isOperand arg then arg :: operandsOf args else operandsOf args := by
  unfold operandsOf
  rw [front_cons args h, List.filter_cons, List.dropWhile_cons_of_pos (by simpa using h)]
  split <;> rfl

theorem looked_cons_of_none {arg : Bytes} (args : List Bytes) (h : arg ≠ [dash, dash]) (hm : mistake? arg = none) :
    looked (arg :: args) = arg :: looked args := by
  simp [looked, front_cons args h, hm]

theorem looked_cons_of_some {arg : Bytes} (args : List Bytes) (h : arg ≠ [dash, dash]) {e : FlagError}
    (hm : mistake? arg = some e) : looked (arg :: args) = [arg] := by
  simp [looked, front_cons args h, hm]

/-- Where there is no mistake, all arguments in front of `--` are looked at. -/
theorem looked_eq_front {args : List Bytes} (h : (front args).findSome? mistake? = none) : looked args = front args := by
  have hall : ∀ arg ∈ front args, decide (mistake? arg = none) = true := by
    intro arg harg
    rw [decide_eq_true_iff]
    exact List.findSome?_eq_none_iff.mp h arg harg
  rw [looked, List.takeWhile_eq_self_iff.mpr hall, List.dropWhile_eq_nil_iff.mpr hall, List.take_nil, List.append_nil]

/-- The one argument that ends the flags is `--`. -/
theorem kind_eq_terminator_iff (arg : Bytes) : kind arg = .terminator ↔ arg = [dash, dash] := by
  unfold kind
  split
  · rename_i a b rest
    split
    · rename_i ha
      simp [ha]
    · rename_i ha
      split
      · rename_i hb
        simp [hb]
      · rename_i hb
        rw [Decidable.not_not] at ha hb
        cases rest <;> simp [ha, hb]
  · rename_i h
    constructor
    · exact nofun
    · intro heq
      exact absurd heq (h dash dash [])

/-- The arguments that are read as operands. -/
theorem kind_eq_operand_iff (arg : Bytes) : kind arg = .operand ↔ isOperand arg = true := by
  unfold kind isOperand
  split
  · rename_i a b rest
    split
    · rename_i ha
      simp [ha]
    · rename_i ha
      rw [Decidable.not_not] at ha
      split
      · simp [ha]
      · cases rest <;> simp [ha]
  · rename_i h
    rcases arg with _ | ⟨a, _ | ⟨b, rest⟩⟩
    · simp
    · simp
    · exact absurd rfl (h a b rest)

/-- The reading of arguments ends at `--`; all that follows is operands. -/
theorem parse_terminator (help : Bool) (args : List Bytes) : parse help ([dash, dash] :: args) = ⟨help, args, none⟩ := by
  have hkind := (kind_eq_terminator_iff [dash, dash]).mpr rfl
  simp only [parse, hkind]

/-- The reading of one argument: it ends with a mistake, or goes on with the values assigned so far. -/
theorem parse_cons (help : Bool) {arg : Bytes} (args : List Bytes) (h : arg ≠ [dash, dash]) :
    parse help (arg :: args) = match mistake? arg with
      | some e => ⟨standing help (assignments arg), [], some e⟩
      | none =>
        let a := parse (standing help (assignments arg)) args
        { a with operands := if isOperand arg then arg :: a.operands else a.operands } := by
  have hoperand := kind_eq_operand_iff arg
  cases hkind : kind arg with
  | terminator => exact absurd ((kind_eq_terminator_iff arg).mp hkind) h
  | operand =>
    simp only [parse, mistake?, assignments, hkind, hoperand.mp hkind, if_true]
    rfl
  | name text =>
    have hno : isOperand arg = false := by
      rw [← Bool.not_eq_true, ← hoperand, hkind]
      exact nofun
    simp only [parse, mistake?, assignments, hkind, hno, named_eq help text]
    cases (named false text).2 <;> rfl
  | letters text =>
    have hno : isOperand arg = false := by
      rw [← Bool.not_eq_true, ← hoperand, hkind]
      exact nofun
    simp only [parse, mistake?, assignments, hkind, hno, cluster_eq help text]
    cases (cluster false text).2 <;> rfl

/-! ## All arguments -/

/-- The reading fails with the first mistake in front of `--`. -/
theorem parse_error (help : Bool) (args : List Bytes) : (parse help args).error = (front args).findSome? mistake? := by
  induction args generalizing help with
  | nil => rfl
  | cons arg args ih =>
    by_cases harg : arg = [dash, dash]
    · subst harg
      rw [parse_terminator]
      rfl
    · rw [parse_cons help args harg, front_cons args harg, List.findSome?_cons]
      cases mistake? arg with
      | some e => rfl
      | none => exact ih _

/-- If there is no mistake, the operands are those in front of `--` and everything behind it. -/
theorem parse_operands (help : Bool) (args : List Bytes) (h : (front args).findSome? mistake? = none) :
    (parse help args).operands = operandsOf args := by
  induction args generalizing help with
  | nil => rfl
  | cons arg args ih =>
    by_cases harg : arg = [dash, dash]
    · subst harg
      rw [parse_terminator]
      rfl
    · rw [front_cons args harg, List.findSome?_cons] at h
      rw [parse_cons help args harg, operandsOf_cons args harg]
      cases hm : mistake? arg with
      | some e =>
        rw [hm] at h
        cases h
      | none =>
        rw [hm] at h
        simp only [ih _ h]

/-- The wish for help is the last value assigned up to the first mistake, or the one that stood before. -/
theorem parse_help (help : Bool) (args : List Bytes) :
    (parse help args).help = standing help ((looked args).flatMap assignments) := by
  induction args generalizing help with
  | nil => rfl
  | cons arg args ih =>
    by_cases harg : arg = [dash, dash]
    · subst harg
      rw [parse_terminator]
      rfl
    · rw [parse_cons help args harg]
      cases hm : mistake? arg with
      | some e =>
        rw [looked_cons_of_some args harg hm, List.flatMap_singleton]
      | none =>
        rw [looked_cons_of_none args harg hm, List.flatMap_cons, standing_append]
        exact ih _

/-- What the reading leaves if there is no mistake. -/
theorem parse_of_no_mistake (help : Bool) {args : List Bytes} (h : (front args).findSome? mistake? = none) :
    parse help args = ⟨standing help ((front args).flatMap assignments), operandsOf args, none⟩ := by
  have hhelp := parse_help help args
  have hoperands := parse_operands help args h
  have herror := parse_error help args
  rw [looked_eq_front h] at hhelp
  rw [h] at herror
  rw [← hhelp, ← hoperands, ← herror]

end Arguments

end LeadingTerms
