import Mathlib
import LeadingTerms.Sequence.Recursive
import LeadingTerms.Sequence.Iterative

/-!
# Both algorithms give the sequence modulo `2 ^ 64`

`wordFib` is the sequence as a generator can hold it. Recursion gives it at every index from zero on (`recursive_eq_wordFib`),
and iteration at every such index but the greatest (`iterative_eq_wordFib`): each turn of the loop moves a window that is at
its place to the next place (`Window.At.advance`), as long as the counter can be counted up.

`recursiveRecorded` is the recursion with a record of the indices it is called with. Recording changes nothing else, and the
record holds exactly the indices that calls lead to (`recursiveRecorded_eq`). From an index from zero on they do not lead to a
negative one (`nonneg_of_calls`).
-/

namespace LeadingTerms

/-! ## Terms as words -/

/-- The term at an index as an unsigned 64-bit word. -/
def wordFib (n : Nat) : UInt64 := UInt64.ofNat (fib n)

/-- A word holds the remainder of its term. -/
theorem toNat_wordFib (n : Nat) : (wordFib n).toNat = fib n % 2 ^ 64 := by
  simp [wordFib]

/-- The recurrence of the sequence, in words that wrap around. -/
theorem wordFib_add_two (n : Nat) : wordFib (n + 2) = wordFib (n + 1) + wordFib n := by
  simp [wordFib, fib, UInt64.ofNat_add]

/-- The two least indices are their own terms. -/
theorem toUInt64_eq_wordFib {n : Int64} (h0 : 0 ≤ n.toInt) (h1 : n ≤ 1) : n.toUInt64 = wordFib n.toInt.toNat := by
  rw [Int64.le_iff_toInt_le, Int64.toInt_one] at h1
  have hn : n = 0 ∨ n = 1 := by
    rcases (show n.toInt = 0 ∨ n.toInt = 1 by omega) with h | h
    · exact Or.inl (Int64.toInt_inj.mp h)
    · exact Or.inr (Int64.toInt_inj.mp h)
  rcases hn with rfl | rfl
  · decide
  · decide

/-- The indices below zero, as numbers. -/
theorem lt_zero_iff_toInt (n : Int64) : n < 0 ↔ n.toInt < 0 := by
  rw [Int64.lt_iff_toInt_lt]
  rfl

/-! ## Recursion -/

/-- The term at an index above one in terms of the two before it. -/
theorem wordFib_toInt {n : Int64} (hn : ¬n ≤ 1) :
    wordFib n.toInt.toNat = wordFib (n - 1).toInt.toNat + wordFib (n - 2).toInt.toNat := by
  rw [toInt_sub_of_not_le_one hn (.inl rfl), toInt_sub_of_not_le_one hn (.inr rfl)]
  rw [Int64.le_iff_toInt_le] at hn
  rw [Int64.toInt_one] at hn ⊢
  rw [toInt_two]
  obtain ⟨k, hk⟩ : ∃ k : Nat, n.toInt = k + 2 := ⟨(n.toInt - 2).toNat, by omega⟩
  rw [show n.toInt.toNat = k + 2 by omega, show (n.toInt - 1).toNat = k + 1 by omega,
    show (n.toInt - 2).toNat = k by omega]
  exact wordFib_add_two k

/-- The two indices before an index above one are not negative. -/
theorem toInt_sub_nonneg {n k : Int64} (hn : ¬n ≤ 1) (hk : k = 1 ∨ k = 2) : 0 ≤ (n - k).toInt := by
  rw [toInt_sub_of_not_le_one hn hk]
  rw [Int64.le_iff_toInt_le, Int64.toInt_one] at hn
  rcases hk with rfl | rfl
  · rw [Int64.toInt_one]
    omega
  · rw [toInt_two]
    omega

/-- Recursion refuses a negative index. -/
theorem recursive_of_neg {n : Int64} (h : n.toInt < 0) : recursive n = .error (.negativeIndex n) := by
  rw [recursive, if_pos ((lt_zero_iff_toInt n).mpr h)]

/-- Recursion gives the term at every index from zero on. -/
theorem recursive_eq_wordFib (n : Int64) (h : 0 ≤ n.toInt) : recursive n = .ok (wordFib n.toInt.toNat) := by
  induction n using recursive.induct with
  | case1 n hneg => exact absurd ((lt_zero_iff_toInt n).mp hneg) (by omega)
  | case2 n hneg h1 =>
    rw [recursive, if_neg hneg, dif_pos h1, toUInt64_eq_wordFib h h1]
  | case3 n hneg h1 iha ihb =>
    rw [recursive, if_neg hneg, dif_neg h1, iha (toInt_sub_nonneg h1 (.inl rfl)),
      ihb (toInt_sub_nonneg h1 (.inr rfl)), wordFib_toInt h1]
    rfl

/-- The term at an index by plain recursion, with a record of the indices it is called with, the latest first. -/
def recursiveRecorded (n : Int64) : EStateM Fault (List Int64) UInt64 := do
  modify (n :: ·)
  if n < 0 then throw (.negativeIndex n)
  else if _h : n ≤ 1 then return n.toUInt64
  else do
    let a ← recursiveRecorded (n - 1)
    let b ← recursiveRecorded (n - 2)
    return a + b
termination_by n.toNatClampNeg
decreasing_by
  · exact toNatClampNeg_sub_lt _h (.inl rfl)
  · exact toNatClampNeg_sub_lt _h (.inr rfl)

/-- The term at `n` is computed from the one at `m`. -/
def Calls (n m : Int64) : Prop := ¬n ≤ 1 ∧ (m = n - 1 ∨ m = n - 2)

/-- From an index up to one no call is made. -/
theorem reflTransGen_calls_of_le_one {n : Int64} (h : n ≤ 1) (m : Int64) :
    Relation.ReflTransGen Calls n m ↔ m = n := by
  constructor
  · intro hcalls
    rcases hcalls.cases_head with rfl | ⟨_, hfirst, -⟩
    · rfl
    · exact absurd h hfirst.1
  · rintro rfl
    exact .refl

/-- From an index above one, calls lead to that index itself and to where they lead from the two before it. -/
theorem reflTransGen_calls_of_not_le_one {n : Int64} (h : ¬n ≤ 1) (m : Int64) :
    Relation.ReflTransGen Calls n m ↔
      m = n ∨ Relation.ReflTransGen Calls (n - 1) m ∨ Relation.ReflTransGen Calls (n - 2) m := by
  constructor
  · intro hcalls
    rcases hcalls.cases_head with rfl | ⟨k, ⟨-, rfl | rfl⟩, hrest⟩
    · exact Or.inl rfl
    · exact Or.inr (Or.inl hrest)
    · exact Or.inr (Or.inr hrest)
  · rintro (rfl | hrest | hrest)
    · exact .refl
    · exact .head ⟨h, Or.inl rfl⟩ hrest
    · exact .head ⟨h, Or.inr rfl⟩ hrest

/-- Calls do not lead from an index from zero on to a negative one. -/
theorem nonneg_of_calls {n m : Int64} (h : 0 ≤ n.toInt) (hcalls : Relation.ReflTransGen Calls n m) : 0 ≤ m.toInt := by
  induction hcalls with
  | refl => exact h
  | tail _ hlast _ =>
    obtain ⟨habove, rfl | rfl⟩ := hlast
    · exact toInt_sub_nonneg habove (.inl rfl)
    · exact toInt_sub_nonneg habove (.inr rfl)

/-- Recording the calls changes nothing else, and what is recorded are the indices that calls lead to. -/
theorem recursiveRecorded_eq (n : Int64) (calls : List Int64) :
    ∃ new : List Int64, (∀ m, m ∈ new ↔ Relation.ReflTransGen Calls n m) ∧
      recursiveRecorded n calls = match recursive n with
        | .ok term => .ok term (new ++ calls)
        | .error fault => .error fault (new ++ calls) := by
  induction n using recursive.induct generalizing calls with
  | case1 n hneg =>
    have hle : n ≤ 1 := Int64.le_of_lt (Int64.lt_trans hneg (by decide))
    refine ⟨[n], fun m => ?_, ?_⟩
    · rw [List.mem_singleton, reflTransGen_calls_of_le_one hle]
    · rw [recursiveRecorded, recursive, if_pos hneg, if_pos hneg]
      rfl
  | case2 n hneg h1 =>
    refine ⟨[n], fun m => ?_, ?_⟩
    · rw [List.mem_singleton, reflTransGen_calls_of_le_one h1]
    · rw [recursiveRecorded, recursive, if_neg hneg, if_neg hneg, dif_pos h1, dif_pos h1]
      rfl
  | case3 n hneg h1 iha ihb =>
    have ha := toInt_sub_nonneg h1 (.inl rfl)
    have hb := toInt_sub_nonneg h1 (.inr rfl)
    obtain ⟨newA, hcallsA, hrecA⟩ := iha (n :: calls)
    obtain ⟨newB, hcallsB, hrecB⟩ := ihb (newA ++ n :: calls)
    rw [recursive_eq_wordFib _ ha] at hrecA
    rw [recursive_eq_wordFib _ hb] at hrecB
    refine ⟨newB ++ newA ++ [n], fun m => ?_, ?_⟩
    · rw [reflTransGen_calls_of_not_le_one h1, ← hcallsA, ← hcallsB, List.mem_append, List.mem_append, List.mem_singleton]
      tauto
    · rw [recursiveRecorded, recursive, if_neg hneg, if_neg hneg, dif_neg h1, dif_neg h1, recursive_eq_wordFib _ ha,
        recursive_eq_wordFib _ hb]
      simp [bind, EStateM.bind, modify, modifyGet, MonadStateOf.modifyGet, EStateM.modifyGet, hrecA, hrecB, pure,
        EStateM.pure, Except.bind, Except.pure]

/-! ## Iteration -/

/-- The window is on the terms at `j` and `j + 1`, and its counter is the next index. -/
def Window.At (j : Nat) (w : Window) : Prop :=
  w.next.toInt = j + 2 ∧ w.prev = wordFib j ∧ w.curr = wordFib (j + 1)

/-- The loop starts with the window on the first two terms. -/
theorem Window.start_at : Window.start.At 0 := by
  refine ⟨?_, ?_, ?_⟩
  · rfl
  · rfl
  · rfl

/-- A turn of the loop moves the window on by one term, unless its counter is at the greatest index. -/
theorem Window.At.advance {j : Nat} {w : Window} (h : w.At j) (hj : (j : Int) + 2 < 2 ^ 63 - 1) :
    w.advance.At (j + 1) := by
  obtain ⟨hnext, hprev, hcurr⟩ := h
  refine ⟨?_, hcurr, ?_⟩
  · show (w.next + 1).toInt = _
    rw [Int64.toInt_add, hnext, Int64.toInt_one, Int.bmod_eq_of_le (by omega) (by omega)]
    omega
  · show w.prev + w.curr = _
    rw [hprev, hcurr, wordFib_add_two, UInt64.add_comm]

/-- The loop goes on exactly while the next index is not past `n`. -/
theorem Window.At.continues_iff {j : Nat} {w : Window} (h : w.At j) (n : Int64) :
    w.continues n = true ↔ (j : Int) + 2 ≤ n.toInt := by
  rw [Window.continues, decide_eq_true_iff, Int64.le_iff_toInt_le, h.1]

/-- A window that is `turns` turns away from the end of the loop towards `n` gets there. -/
theorem Window.At.settle {j turns : Nat} {w : Window} {n : Int64} (h : w.At j) (hn : n.toInt = j + 1 + turns)
    (hlt : n.toInt < 2 ^ 63 - 1) : ∃ w', w.settle n turns = some w' ∧ w'.At (j + turns) := by
  induction turns generalizing j w with
  | zero =>
    refine ⟨w, ?_, h⟩
    rw [Window.settle, if_neg]
    rw [h.continues_iff]
    omega
  | succ turns ih =>
    obtain ⟨w', hw', hat⟩ := ih (h.advance (by omega)) (by omega)
    refine ⟨w', ?_, ?_⟩
    · rw [Window.settle, if_pos ((h.continues_iff n).mpr (by omega))]
      exact hw'
    · rw [show j + (turns + 1) = j + 1 + turns by omega]
      exact hat

/-- Iteration refuses a negative index. -/
theorem iterative_of_neg {n : Int64} (h : n.toInt < 0) : iterative n = .error (.negativeIndex n) := by
  rw [iterative, if_pos ((lt_zero_iff_toInt n).mpr h)]

/-- Iteration gives the term at every index from zero on but the greatest. -/
theorem iterative_eq_wordFib (n : Int64) (h : 0 ≤ n.toInt) (hlt : n.toInt < 2 ^ 63 - 1) :
    iterative n = .ok (wordFib n.toInt.toNat) := by
  have hneg : ¬n < 0 := by
    rw [lt_zero_iff_toInt]
    omega
  by_cases h1 : n ≤ 1
  · rw [iterative, if_neg hneg, if_pos h1, toUInt64_eq_wordFib h h1]
  · have hn := h1
    rw [Int64.le_iff_toInt_le, Int64.toInt_one] at hn
    rw [iterative, if_neg hneg, if_neg h1, ← Int64.toNat_toInt]
    have hturns : n.toInt = ((0 : Nat) : Int) + 1 + (n.toInt.toNat - 1 : Nat) := by omega
    obtain ⟨w, hw, -, -, hcurr⟩ := Window.start_at.settle hturns hlt
    rw [hw]
    show Except.ok w.curr = _
    rw [hcurr, show 0 + (n.toInt.toNat - 1) + 1 = n.toInt.toNat by omega]

/-! ## Both algorithms -/

/-- At every index from zero on but the greatest, both algorithms give the term modulo `2 ^ 64`. A record of the indices with
which recursion is called on the way holds exactly those that calls lead to, and none of them is negative. At a negative index
both refuse with the same message, which names the index. -/
theorem recursive_iterative_eq_fib (n : Int64) :
    (0 ≤ n.toInt → n.toInt ≤ 2 ^ 63 - 2 → ∃ term : UInt64, term.toNat = fib n.toInt.toNat % 2 ^ 64 ∧
      recursive n = .ok term ∧ iterative n = .ok term ∧
      ∃ calls : List Int64, recursiveRecorded n [] = .ok term calls ∧
        (∀ m, m ∈ calls ↔ Relation.ReflTransGen Calls n m) ∧ ∀ m ∈ calls, 0 ≤ m.toInt) ∧
    (n.toInt < 0 → ∃ fault : Fault, recursive n = .error fault ∧ iterative n = .error fault ∧
      fault.message = utf8 "fibonacci: negative index " ++ signedDecimal n.toInt) := by
  refine ⟨fun h hle => ⟨wordFib n.toInt.toNat, toNat_wordFib _, recursive_eq_wordFib n h,
    iterative_eq_wordFib n h (by omega), ?_⟩, fun h => ⟨.negativeIndex n, recursive_of_neg h, iterative_of_neg h, rfl⟩⟩
  obtain ⟨calls, hcalls, hrecord⟩ := recursiveRecorded_eq n []
  rw [recursive_eq_wordFib n h, List.append_nil] at hrecord
  exact ⟨calls, hrecord, hcalls, fun m hm => nonneg_of_calls h ((hcalls m).mp hm)⟩

/-- The first term that does not fit into a word, and a negative index. -/
theorem recursive_iterative_ninetyFour :
    ((0 : Int) ≤ (94 : Int64).toInt ∧ (94 : Int64).toInt ≤ 2 ^ 63 - 2 ∧ ∃ term : UInt64, term.toNat = fib 94 % 2 ^ 64 ∧
      recursive 94 = .ok term ∧ iterative 94 = .ok term ∧
      ∃ calls : List Int64, recursiveRecorded 94 [] = .ok term calls ∧
        (∀ m, m ∈ calls ↔ Relation.ReflTransGen Calls 94 m) ∧ ∀ m ∈ calls, 0 ≤ m.toInt) ∧
    (-7 : Int64).toInt < 0 ∧ ∃ fault : Fault, recursive (-7) = .error fault ∧ iterative (-7) = .error fault ∧
      fault.message = utf8 "fibonacci: negative index -7" := by
  have hmessage : utf8 "fibonacci: negative index " ++ signedDecimal (-7 : Int64).toInt =
      utf8 "fibonacci: negative index -7" := by decide +kernel
  refine ⟨⟨by decide, by decide, (recursive_iterative_eq_fib 94).1 (by decide) (by decide)⟩, by decide, ?_⟩
  rw [← hmessage]
  exact (recursive_iterative_eq_fib (-7)).2 (by decide)

end LeadingTerms
