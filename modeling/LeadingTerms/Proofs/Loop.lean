import LeadingTerms.Proofs.Sequence

/-!
# When the loop of the iteration ends

`Window.Turns n k w w'` says that the loop towards `n` takes `k` turns from one window to the other, one `Window.Step` each.
It is the loop that `Window.settle` runs (`Window.settle_eq_some_iff`). Towards an index below the greatest one, the counter
is never counted up past that index, so after `k` turns the window is at its place (`Window.Turns.at`), and the loop ends
after as many turns as the index says, less one (`Window.turns_end_iff`). No counter is past the greatest index: the loop
towards it never ends (`Window.continues_greatest`), and its counter comes around to the least index
(`Window.exists_turns_wrapped`).
-/

namespace LeadingTerms

namespace Window

/-! ## Turns of the loop -/

/-- The loop towards `n` takes so many turns from one window to the other. -/
inductive Turns (n : Int64) : Nat → Window → Window → Prop where
  | none (w : Window) : Turns n 0 w w
  | turn {k : Nat} {w w' w'' : Window} : Turns n k w w' → Step n w' w'' → Turns n (k + 1) w w''

/-- A turn in front of turns. -/
theorem Turns.behind {n : Int64} {k : Nat} {w w' w'' : Window} (h : Turns n k w' w'') (hstep : Step n w w') :
    Turns n (k + 1) w w'' := by
  induction h with
  | none w' => exact .turn (.none w) hstep
  | turn _ hlast ih => exact .turn (ih hstep) hlast

/-- A loop that is at its end stays there. -/
theorem settle_of_ends {n : Int64} {w : Window} (h : w.continues n = false) (turns : Nat) : w.settle n turns = some w := by
  have hends := Bool.eq_false_iff.mp h
  cases turns with
  | zero => rw [settle, if_neg hends]
  | succ turns => rw [settle, if_neg hends]

/-- A loop that goes on takes a turn. -/
theorem settle_of_continues {n : Int64} {w : Window} (h : w.continues n = true) (turns : Nat) :
    w.settle n (turns + 1) = w.advance.settle n turns := by
  rw [settle, if_pos h]

/-- Running the loop goes through its turns. -/
theorem Turns.settle_eq {n : Int64} {k : Nat} {w w' : Window} (h : Turns n k w w') (spare : Nat) :
    w.settle n (k + spare) = w'.settle n spare := by
  induction h generalizing spare with
  | none w => rw [Nat.zero_add]
  | @turn k w w' w'' _ hstep ih =>
    obtain ⟨hcontinues, rfl⟩ := hstep
    rw [Nat.add_right_comm, Nat.add_assoc, ih (spare + 1), settle_of_continues hcontinues]

/-- Running the loop finds the window at which its turns end, if they are not too many. -/
theorem settle_eq_some_iff (n : Int64) (turns : Nat) (w w' : Window) :
    w.settle n turns = some w' ↔ ∃ k ≤ turns, Turns n k w w' ∧ w'.continues n = false := by
  constructor
  · intro h
    induction turns generalizing w with
    | zero =>
      cases hends : w.continues n with
      | false =>
        rw [settle_of_ends hends, Option.some.injEq] at h
        subst h
        exact ⟨0, Nat.le_refl 0, .none w, hends⟩
      | true =>
        rw [settle, if_pos hends] at h
        cases h
    | succ turns ih =>
      cases hends : w.continues n with
      | false =>
        rw [settle_of_ends hends, Option.some.injEq] at h
        subst h
        exact ⟨0, Nat.zero_le _, .none w, hends⟩
      | true =>
        rw [settle_of_continues hends] at h
        obtain ⟨k, hk, hturns, hlast⟩ := ih w.advance h
        exact ⟨k + 1, Nat.succ_le_succ hk, hturns.behind ⟨hends, rfl⟩, hlast⟩
  · rintro ⟨k, hk, hturns, hends⟩
    obtain ⟨spare, rfl⟩ := Nat.exists_eq_add_of_le hk
    rw [hturns.settle_eq spare, settle_of_ends hends]

/-! ## Below the greatest index -/

/-- A window is determined by its place. -/
theorem At.eq {j : Nat} {w w' : Window} (h : w.At j) (h' : w'.At j) : w = w' := by
  obtain ⟨next, prev, curr⟩ := w
  obtain ⟨next', prev', curr'⟩ := w'
  obtain ⟨hnext, rfl, rfl⟩ := h
  obtain ⟨hnext', rfl, rfl⟩ := h'
  obtain rfl := Int64.toInt_inj.mp (hnext.trans hnext'.symm)
  rfl

/-- Towards an index below the greatest one, every turn moves the window on by one place, and the place is below the
index. -/
theorem Turns.at {n : Int64} (hn : 2 ≤ n.toInt) (hlt : n.toInt < 2 ^ 63 - 1) {k : Nat} {w : Window}
    (h : Turns n k start w) : w.At k ∧ (k : Int) + 1 ≤ n.toInt := by
  -- By induction on the turns. The guard of a turn keeps the place below the index, so the counter can be counted up.
  generalize hs : start = s at h
  induction h with
  | none w =>
    subst hs
    exact ⟨start_at, by omega⟩
  | turn _ hstep ih =>
    obtain ⟨hat, -⟩ := ih hs
    obtain ⟨hcontinues, rfl⟩ := hstep
    have hplace := (hat.continues_iff n).mp hcontinues
    exact ⟨hat.advance (by omega), by omega⟩

/-- Every place below the index is reached, as long as the counter can be counted up. -/
theorem exists_turns (n : Int64) {k : Nat} (hk : (k : Int) + 1 ≤ n.toInt) (hlt : (k : Int) + 1 < 2 ^ 63 - 1) :
    ∃ w, Turns n k start w ∧ w.At k := by
  induction k with
  | zero => exact ⟨start, .none start, start_at⟩
  | succ k ih =>
    obtain ⟨w, hturns, hat⟩ := ih (by omega) (by omega)
    have hcontinues := (hat.continues_iff n).mpr (by omega)
    exact ⟨w.advance, .turn hturns ⟨hcontinues, rfl⟩, hat.advance (by omega)⟩

/-- Towards an index below the greatest one, the loop ends at the place one below the index and nowhere else. -/
theorem turns_end_iff {n : Int64} (hn : 2 ≤ n.toInt) (hlt : n.toInt < 2 ^ 63 - 1) (k : Nat) (w : Window) :
    Turns n k start w ∧ w.continues n = false ↔ (k : Int) + 1 = n.toInt ∧ w.At k := by
  constructor
  · rintro ⟨hturns, hends⟩
    obtain ⟨hat, hle⟩ := hturns.at hn hlt
    have hpast := mt (hat.continues_iff n).mpr (Bool.eq_false_iff.mp hends)
    exact ⟨by omega, hat⟩
  · rintro ⟨hk, hat⟩
    obtain ⟨w', hturns, hat'⟩ := exists_turns n (Int.le_of_eq hk) (by omega)
    obtain rfl := hat'.eq hat
    refine ⟨hturns, Bool.eq_false_iff.mpr ?_⟩
    rw [Ne, hat.continues_iff]
    omega

/-! ## At the greatest index -/

/-- No counter is past the greatest index. -/
theorem continues_greatest {n : Int64} (hn : n.toInt = 2 ^ 63 - 1) (w : Window) : w.continues n = true := by
  have hnext := Int64.toInt_lt w.next
  rw [continues, decide_eq_true_iff, Int64.le_iff_toInt_le]
  omega

/-- So there is always one more turn. -/
theorem exists_turns_greatest {n : Int64} (hn : n.toInt = 2 ^ 63 - 1) (k : Nat) : ∃ w, Turns n k start w := by
  induction k with
  | zero => exact ⟨start, .none start⟩
  | succ k ih =>
    obtain ⟨w, hturns⟩ := ih
    exact ⟨w.advance, .turn hturns ⟨continues_greatest hn w, rfl⟩⟩

/-- In the turn in which the loop should end, the counter comes around to the least index. -/
theorem exists_turns_wrapped {n : Int64} (hn : n.toInt = 2 ^ 63 - 1) :
    ∃ w, Turns n (n.toInt.toNat - 1) start w ∧ w.next.toInt = -2 ^ 63 := by
  obtain ⟨w, hturns, hnext, -⟩ := exists_turns n (k := n.toInt.toNat - 2) (by omega) (by omega)
  have hlast : n.toInt.toNat - 1 = n.toInt.toNat - 2 + 1 := by omega
  refine ⟨w.advance, hlast ▸ .turn hturns ⟨continues_greatest hn w, rfl⟩, ?_⟩
  show (w.next + 1).toInt = _
  rw [Int64.toInt_add, hnext, Int64.toInt_one, show ((n.toInt.toNat - 2 : Nat) : Int) + 2 + 1 = 2 ^ 63 by omega]
  rfl

/-- Iteration gives no term at the greatest index. -/
theorem iterative_greatest {n : Int64} (hn : n.toInt = 2 ^ 63 - 1) : iterative n = .error (.endless n) := by
  have hneg : ¬n < 0 := by
    rw [lt_zero_iff_toInt]
    omega
  have hone : ¬n ≤ 1 := by
    rw [Int64.le_iff_toInt_le, Int64.toInt_one]
    omega
  have hnone : start.settle n (n.toNatClampNeg - 1) = none := by
    rw [Option.eq_none_iff_forall_ne_some]
    intro w hw
    obtain ⟨k, -, -, hends⟩ := (settle_eq_some_iff n _ start w).mp hw
    rw [continues_greatest hn w] at hends
    cases hends
  rw [iterative, if_neg hneg, if_neg hone, hnone]

/-! ## Every index -/

/-- The loop towards an index from two on. Below the greatest index it ends after exactly as many turns as the index says, less
one; the window at which it ends holds the term at the index modulo `2 ^ 64`, and this is what iteration gives. On the way
the counter is two more than the number of turns, so it has never wrapped around, and no earlier window ends the loop. At the
greatest index there is no window at which the loop ends, however many turns it takes: in the turn that should be the last
one the counter comes around to the least index, and iteration gives no term. -/
theorem turns_towards (n : Int64) (hn : 2 ≤ n.toInt) :
    (n.toInt < 2 ^ 63 - 1 →
      (∃ w, Turns n (n.toInt.toNat - 1) start w ∧ w.continues n = false ∧
        w.curr.toNat = fib n.toInt.toNat % 2 ^ 64 ∧ iterative n = .ok w.curr) ∧
      ∀ k w, Turns n k start w →
        w.next.toInt = k + 2 ∧ k ≤ n.toInt.toNat - 1 ∧ (w.continues n = false → k = n.toInt.toNat - 1)) ∧
    (n.toInt = 2 ^ 63 - 1 →
      (∀ k w, Turns n k start w → w.continues n = true) ∧ (∀ k, ∃ w, Turns n k start w) ∧
      (∃ w, Turns n (n.toInt.toNat - 1) start w ∧ w.next.toInt = -2 ^ 63) ∧
      iterative n = .error (.endless n)) := by
  constructor
  · intro hlt
    constructor
    · obtain ⟨w, hturns, hat⟩ := exists_turns n (k := n.toInt.toNat - 1) (by omega) (by omega)
      have hends := ((turns_end_iff hn hlt _ w).mpr ⟨by omega, hat⟩).2
      have hcurr : w.curr = wordFib n.toInt.toNat := by
        rw [hat.2.2, Nat.sub_add_cancel (by omega)]
      refine ⟨w, hturns, hends, ?_, ?_⟩
      · rw [hcurr, toNat_wordFib]
      · rw [hcurr, iterative_eq_wordFib n (by omega) hlt]
    · intro k w hturns
      obtain ⟨hat, hle⟩ := hturns.at hn hlt
      refine ⟨hat.1, by omega, fun hends => ?_⟩
      have hlast := ((turns_end_iff hn hlt k w).mp ⟨hturns, hends⟩).1
      omega
  · intro hgreatest
    exact ⟨fun _ w _ => continues_greatest hgreatest w, exists_turns_greatest hgreatest, exists_turns_wrapped hgreatest,
      iterative_greatest hgreatest⟩

/-- The last index at which the loop ends, after `2 ^ 63 - 3` turns. -/
theorem turns_towards_last :
    2 ≤ (9223372036854775806 : Int64).toInt ∧ (9223372036854775806 : Int64).toInt < 2 ^ 63 - 1 ∧
    ∃ w, Turns 9223372036854775806 9223372036854775805 start w ∧ w.continues 9223372036854775806 = false ∧
      w.curr.toNat = fib 9223372036854775806 % 2 ^ 64 ∧ iterative 9223372036854775806 = .ok w.curr := by
  have hindex : (9223372036854775806 : Int64).toInt = 9223372036854775806 := rfl
  have hcount : (9223372036854775806 : Int64).toInt.toNat = 9223372036854775806 := by
    rw [hindex]
    rfl
  have hends := ((turns_towards 9223372036854775806 (by omega)).1 (by omega)).1
  rw [hcount] at hends
  exact ⟨by omega, by omega, hends⟩

/-- At the greatest index, which is an index from two on, the loop comes to no window at which it ends. -/
theorem not_exists_turns_end_greatest :
    2 ≤ Int64.maxValue.toInt ∧ Int64.maxValue.toInt ≤ 2 ^ 63 - 1 ∧
    ¬∃ k w, Turns Int64.maxValue k start w ∧ w.continues Int64.maxValue = false := by
  have hgreatest := Int64.toInt_maxValue
  refine ⟨by omega, by omega, ?_⟩
  rintro ⟨k, w, -, hends⟩
  rw [continues_greatest hgreatest w] at hends
  cases hends

end Window

end LeadingTerms
