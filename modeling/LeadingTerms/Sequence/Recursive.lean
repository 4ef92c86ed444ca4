import LeadingTerms.Sequence.Basic

/-!
# Terms by recursion

The term at an index above one is the sum of the terms at the two indices before it, each computed anew.
-/

namespace LeadingTerms

theorem toInt_two : (2 : Int64).toInt = 2 := rfl

/-- Above one, counting an index down by one or two does not wrap around. -/
theorem toInt_sub_of_not_le_one {n k : Int64} (hn : ¬n ≤ 1) (hk : k = 1 ∨ k = 2) :
    (n - k).toInt = n.toInt - k.toInt := by
  rw [Int64.le_iff_toInt_le, Int64.toInt_one] at hn
  have hhi := Int64.toInt_lt n
  rw [Int64.toInt_sub]
  rcases hk with rfl | rfl
  · rw [Int64.toInt_one]
    exact Int.bmod_eq_of_le (by omega) (by omega)
  · rw [toInt_two]
    exact Int.bmod_eq_of_le (by omega) (by omega)

/-- Above one, counting an index down does not leave its range. -/
theorem toNatClampNeg_sub_lt {n k : Int64} (hn : ¬n ≤ 1) (hk : k = 1 ∨ k = 2) :
    (n - k).toNatClampNeg < n.toNatClampNeg := by
  have hsub := toInt_sub_of_not_le_one hn hk
  rw [Int64.le_iff_toInt_le, Int64.toInt_one] at hn
  simp only [← Int64.toNat_toInt, hsub]
  rcases hk with rfl | rfl
  · rw [Int64.toInt_one]
    omega
  · rw [toInt_two]
    omega

/-- The term at an index, by plain recursion. -/
def recursive (n : Int64) : Except Fault UInt64 :=
  if n < 0 then .error (.negativeIndex n)
  else if _h : n ≤ 1 then .ok n.toUInt64
  else do
    let a ← recursive (n - 1)
    let b ← recursive (n - 2)
    return a + b
termination_by n.toNatClampNeg
decreasing_by
  · exact toNatClampNeg_sub_lt _h (.inl rfl)
  · exact toNatClampNeg_sub_lt _h (.inr rfl)

end LeadingTerms
