import Mathlib.Data.Nat.Digits.Defs
import Mathlib.Tactic.IntervalCases
import LeadingTerms.Numeral.Literal

/-!
# The grammar of integer literals

`Numeral` is the grammar of unsigned literals: the characters of a literal, the base it is written in and its digits. A
literal that was typed character by character (`Literal.Typed`) is well formed exactly when its characters are a numeral
(`Literal.Typed.numeral_of_wellFormed`, `Literal.exists_of_numeral`), and it denotes a number exactly when it is well formed
and the number that its digits spell, with its sign, is in range (`Literal.value_eq_ok_iff`).
-/

namespace LeadingTerms

/-! ## Digits -/

/-- The character is the digit `d` of the base, letters counting in either case. -/
def DigitOf (base : Nat) (c : Char) (d : Nat) : Prop :=
  d < base ∧ (c = Nat.digitChar d ∨ c = (Nat.digitChar d).toUpper)

instance (base : Nat) (c : Char) (d : Nat) : Decidable (DigitOf base c d) := inferInstanceAs (Decidable (_ ∧ _))

namespace Radix

/-- No base is past sixteen. -/
theorem base_le (r : Radix) : r.base ≤ 16 := by
  cases r <;> decide

/-- The characters with a value as a digit are the digits in base sixteen. -/
theorem digitValue?_eq_some_iff (c : Char) (d : Nat) : digitValue? c = some d ↔ DigitOf 16 c d := by
  constructor
  · intro h
    have hc : c = Char.ofNat c.toNat := (Char.ofNat_toNat c).symm
    unfold digitValue? at h
    simp only [Char.le_def, UInt32.le_iff_toNat_le] at h
    split at h
    · rename_i hr
      obtain ⟨n, hn, hlo, hhi⟩ : ∃ n, c.toNat = n ∧ 48 ≤ n ∧ n ≤ 57 := ⟨c.toNat, rfl, hr.1, hr.2⟩
      rw [hn] at h hc
      cases h
      subst hc
      interval_cases n <;> decide
    · split at h
      · rename_i hr
        obtain ⟨n, hn, hlo, hhi⟩ : ∃ n, c.toNat = n ∧ 97 ≤ n ∧ n ≤ 102 := ⟨c.toNat, rfl, hr.1, hr.2⟩
        rw [hn] at h hc
        cases h
        subst hc
        interval_cases n <;> decide
      · split at h
        · rename_i hr
          obtain ⟨n, hn, hlo, hhi⟩ : ∃ n, c.toNat = n ∧ 65 ≤ n ∧ n ≤ 70 := ⟨c.toNat, rfl, hr.1, hr.2⟩
          rw [hn] at h hc
          cases h
          subst hc
          interval_cases n <;> decide
        · cases h
  · rintro ⟨hd, rfl | rfl⟩
    · interval_cases d <;> decide
    · interval_cases d <;> decide

/-- A digit of a base is a character whose value is below the base. -/
theorem digitOf_base_iff (r : Radix) (c : Char) (d : Nat) :
    DigitOf r.base c d ↔ digitValue? c = some d ∧ d < r.base := by
  have hbase := r.base_le
  rw [digitValue?_eq_some_iff, DigitOf, DigitOf]
  constructor
  · rintro ⟨hd, hc⟩
    exact ⟨⟨by omega, hc⟩, hd⟩
  · rintro ⟨⟨-, hc⟩, hd⟩
    exact ⟨hd, hc⟩

/-- The test for a digit finds the digits of the base. -/
theorem isDigit_iff (r : Radix) (c : Char) : r.isDigit c = true ↔ ∃ d, DigitOf r.base c d := by
  simp only [digitOf_base_iff, isDigit]
  cases hd : digitValue? c with
  | none => simp
  | some d => simp

/-- A digit of a base has its value as a digit. -/
theorem digitValue?_of_digitOf {r : Radix} {c : Char} {d : Nat} (h : DigitOf r.base c d) : digitValue? c = some d :=
  ((r.digitOf_base_iff c d).mp h).1

/-- The underscore is no digit. -/
theorem digitValue?_underscore : digitValue? '_' = none := by decide

/-- A digit is no underscore. -/
theorem ne_underscore_of_digitOf {r : Radix} {c : Char} {d : Nat} (h : DigitOf r.base c d) : c ≠ '_' := by
  rintro rfl
  have := digitValue?_of_digitOf h
  rw [digitValue?_underscore] at this
  cases this

/-- The character can stand behind the announcement of the base: an underscore or a digit. -/
def Continues (r : Radix) (c : Char) : Prop := c = '_' ∨ r.isDigit c = true

instance (r : Radix) (c : Char) : Decidable (r.Continues c) := inferInstanceAs (Decidable (_ ∨ _))

/-- A character that can stand there is an underscore or the digit of some value. -/
theorem Continues.digitOf {r : Radix} {c : Char} (h : r.Continues c) (hc : c ≠ '_') : ∃ d, DigitOf r.base c d := by
  rcases h with h | h
  · exact absurd h hc
  · exact (r.isDigit_iff c).mp h

theorem continues_of_digitOf {r : Radix} {c : Char} {d : Nat} (h : DigitOf r.base c d) : r.Continues c :=
  Or.inr ((r.isDigit_iff c).mpr ⟨d, h⟩)

end Radix

/-! ## The grammar -/

/-- Digits of the base, each with one underscore in front or none. -/
inductive Digits (base : Nat) : List Char → List Nat → Prop where
  | nil : Digits base [] []
  | digit {c : Char} {d : Nat} {cs : List Char} {ds : List Nat} :
      DigitOf base c d → Digits base cs ds → Digits base (c :: cs) (d :: ds)
  | separated {c : Char} {d : Nat} {cs : List Char} {ds : List Nat} :
      DigitOf base c d → Digits base cs ds → Digits base ('_' :: c :: cs) (d :: ds)

/-- Unsigned integer literals: the characters, the base and the digits. Without a leading `0` the base is ten, behind a
leading `0` it is eight, and behind a leading `0` and a letter, where at least one digit must follow, it is the one that the
letter stands for. -/
inductive Numeral : List Char → (base : Nat) → (digits : List Nat) → Prop where
  | plain {c : Char} {d : Nat} {cs : List Char} {ds : List Nat} :
      DigitOf 10 c d → d ≠ 0 → Digits 10 cs ds → Numeral (c :: cs) 10 (d :: ds)
  | zero {cs : List Char} {ds : List Nat} : Digits 8 cs ds → Numeral ('0' :: cs) 8 ds
  | binary {l : Char} {cs : List Char} {ds : List Nat} :
      l = 'b' ∨ l = 'B' → Digits 2 cs ds → ds ≠ [] → Numeral ('0' :: l :: cs) 2 ds
  | octal {l : Char} {cs : List Char} {ds : List Nat} :
      l = 'o' ∨ l = 'O' → Digits 8 cs ds → ds ≠ [] → Numeral ('0' :: l :: cs) 8 ds
  | hexadecimal {l : Char} {cs : List Char} {ds : List Nat} :
      l = 'x' ∨ l = 'X' → Digits 16 cs ds → ds ≠ [] → Numeral ('0' :: l :: cs) 16 ds

namespace Digits

variable {r : Radix} {cs : List Char} {ds : List Nat}

/-- The digits are the characters that have a value. -/
theorem filterMap_digitValue? (h : Digits r.base cs ds) : cs.filterMap Radix.digitValue? = ds := by
  induction h with
  | nil => rfl
  | digit hd _ ih => rw [List.filterMap_cons_some (Radix.digitValue?_of_digitOf hd), ih]
  | separated hd _ ih =>
    rw [List.filterMap_cons_none Radix.digitValue?_underscore,
      List.filterMap_cons_some (Radix.digitValue?_of_digitOf hd), ih]

/-- All characters are digits of the base or underscores. -/
theorem continues (h : Digits r.base cs ds) : ∀ c ∈ cs, r.Continues c := by
  induction h with
  | nil => intro c hc; cases hc
  | digit hd _ ih =>
    intro c hc
    rcases List.mem_cons.mp hc with rfl | hc
    · exact Radix.continues_of_digitOf hd
    · exact ih c hc
  | separated hd _ ih =>
    intro c hc
    rcases List.mem_cons.mp hc with rfl | hc
    · exact Or.inl rfl
    · rcases List.mem_cons.mp hc with rfl | hc
      · exact Radix.continues_of_digitOf hd
      · exact ih c hc

/-- Behind a digit or an announcement, every underscore is in its place. -/
theorem separated_true (h : Digits r.base cs ds) : Literal.separated true cs = true := by
  induction h with
  | nil => rfl
  | digit hd _ ih => rw [Literal.separated, if_neg (Radix.ne_underscore_of_digitOf hd), ih]
  | separated hd _ ih =>
    rw [Literal.separated, if_pos rfl, Literal.separated, if_neg (Radix.ne_underscore_of_digitOf hd), ih]
    rfl

/-- No characters, no digits. -/
theorem eq_nil_iff (h : Digits r.base cs ds) : ds = [] ↔ cs = [] := by
  cases h with
  | nil => simp
  | digit => simp
  | separated => simp

/-- Where every underscore is in its place, the characters are digits, each with one underscore in front or none. -/
theorem of_separated (r : Radix) : ∀ cs : List Char, (∀ c ∈ cs, r.Continues c) → Literal.separated true cs = true →
    ∃ ds, Digits r.base cs ds
  | [], _, _ => ⟨[], .nil⟩
  | c :: cs, hc, hs => by
    by_cases hu : c = '_'
    · -- An underscore needs a digit behind it, and then the rest begins anew.
      rw [Literal.separated, if_pos hu, Bool.true_and] at hs
      cases cs with
      | nil => cases hs
      | cons c' cs =>
        by_cases hu' : c' = '_'
        · rw [Literal.separated, if_pos hu'] at hs
          cases hs
        · rw [Literal.separated, if_neg hu'] at hs
          obtain ⟨d, hd⟩ := (hc c' (by simp)).digitOf hu'
          obtain ⟨ds, hds⟩ := of_separated r cs (fun x hx => hc x (by simp [hx])) hs
          rw [hu]
          exact ⟨d :: ds, .separated hd hds⟩
    · rw [Literal.separated, if_neg hu] at hs
      obtain ⟨d, hd⟩ := (hc c (by simp)).digitOf hu
      obtain ⟨ds, hds⟩ := of_separated r cs (fun x hx => hc x (by simp [hx])) hs
      exact ⟨d :: ds, .digit hd hds⟩

end Digits

/-! ## Typed literals -/

/-- The letters that announce a base. -/
theorem Radix.ofLetter?_eq_none_iff (c : Char) : Radix.ofLetter? c = none ↔ c ∉ ['b', 'B', 'o', 'O', 'x', 'X'] := by
  unfold Radix.ofLetter?
  split <;> simp_all

/-- Behind a leading `0` and a letter, digits of the base that the letter stands for. -/
theorem Numeral.marked {letter : Char} {r : Radix} {cs : List Char} {ds : List Nat}
    (hl : Radix.ofLetter? letter = some r) (h : Digits r.base cs ds) (hne : ds ≠ []) :
    Numeral ('0' :: letter :: cs) r.base ds := by
  unfold Radix.ofLetter? at hl
  split at hl
  · cases hl; exact .binary (Or.inl rfl) h hne
  · cases hl; exact .binary (Or.inr rfl) h hne
  · cases hl; exact .octal (Or.inl rfl) h hne
  · cases hl; exact .octal (Or.inr rfl) h hne
  · cases hl; exact .hexadecimal (Or.inl rfl) h hne
  · cases hl; exact .hexadecimal (Or.inr rfl) h hne
  · cases hl

namespace Literal

/-- A literal that can be typed character by character, finished or not. -/
structure Typed (l : Literal) : Prop where
  continues : ∀ c ∈ l.body, l.opening.radix.Continues c
  plain : l.opening = .plain → ∃ c cs, l.body = c :: cs ∧ c ≠ '0'
  marked : ∀ letter r, l.opening = .marked letter r → Radix.ofLetter? letter = some r

/-- The first character behind the sign begins a typed literal. -/
theorem typed_of_start? {sign : Option Sign} {c : Char} {l : Literal} (h : start? sign c = some l) :
    l.Typed ∧ l.chars = (sign.map Sign.toChar).toList ++ [c] := by
  unfold start? at h
  split at h
  · rename_i hc
    cases h
    refine ⟨⟨nofun, nofun, nofun⟩, ?_⟩
    rw [hc]
    simp [chars, Opening.chars]
  · rename_i hc
    split at h
    · rename_i hcont
      cases h
      refine ⟨⟨?_, fun _ => ⟨c, [], rfl, hc⟩, nofun⟩, ?_⟩
      · intro x hx
        rw [List.mem_singleton] at hx
        subst hx
        exact hcont
      · simp [chars, Opening.chars]
    · cases h

/-- Adding a digit of the base or an underscore keeps a literal typed. -/
theorem Typed.append {l : Literal} (ht : l.Typed) {c : Char} (hc : l.opening.radix.Continues c) :
    Typed { l with body := l.body ++ [c] } ∧ chars { l with body := l.body ++ [c] } = l.chars ++ [c] := by
  refine ⟨⟨?_, fun hp => ?_, ht.marked⟩, by simp [chars]⟩
  · intro x hx
    rcases List.mem_append.mp hx with hx | hx
    · exact ht.continues x hx
    · rw [List.mem_singleton] at hx
      subst hx
      exact hc
  · obtain ⟨c', cs, hcs, h0⟩ := ht.plain hp
    exact ⟨c', cs ++ [c], by rw [hcs]; rfl, h0⟩

/-- What can be added to a literal as a digit or an underscore, and what that gives. -/
theorem extend?_eq_some_iff {l l' : Literal} {c : Char} :
    l.extend? c = some l' ↔ l.opening.radix.Continues c ∧ { l with body := l.body ++ [c] } = l' := by
  unfold extend?
  split
  · rename_i h
    rw [Option.some.injEq]
    exact ⟨fun heq => ⟨h, heq⟩, fun heq => heq.2⟩
  · rename_i h
    exact ⟨nofun, fun heq => absurd heq.1 h⟩

/-- A digit of the base or an underscore can always be added. -/
theorem push?_of_continues {l : Literal} {c : Char} (hc : l.opening.radix.Continues c) :
    l.push? c = some { l with body := l.body ++ [c] } := by
  have hextend : l.extend? c = some { l with body := l.body ++ [c] } := extend?_eq_some_iff.mpr ⟨hc, rfl⟩
  unfold push?
  split
  · rename_i hzero
    -- No letter that announces a base is an octal digit.
    have hletter : Radix.ofLetter? c = none := by
      rw [Radix.ofLetter?_eq_none_iff]
      intro hmem
      rw [hzero.1] at hc
      simp only [List.mem_cons, List.not_mem_nil, or_false] at hmem
      rcases hmem with rfl | rfl | rfl | rfl | rfl | rfl <;> exact absurd hc (by decide)
    rw [hletter]
    exact hextend
  · exact hextend

/-- A literal takes no further character: neither a digit of the base nor an underscore, nor, directly behind a leading `0`,
a letter that announces a base. -/
theorem push?_eq_none_iff (l : Literal) (c : Char) :
    l.push? c = none ↔
      ¬l.opening.radix.Continues c ∧ (l.opening = .zero ∧ l.body = [] → Radix.ofLetter? c = none) := by
  have hextend : l.extend? c = none ↔ ¬l.opening.radix.Continues c := by
    unfold extend?
    split
    · rename_i h
      exact ⟨nofun, fun hn => absurd h hn⟩
    · rename_i h
      exact ⟨fun _ => h, fun _ => rfl⟩
  unfold push?
  split
  · rename_i hzero
    cases hletter : Radix.ofLetter? c with
    | some r => exact ⟨nofun, fun h => absurd (h.2 hzero) nofun⟩
    | none => exact hextend.trans ⟨fun h => ⟨h, fun _ => rfl⟩, fun h => h.1⟩
  · rename_i hzero
    exact hextend.trans ⟨fun h => ⟨h, fun hz => absurd hz hzero⟩, fun h => h.1⟩

/-- Only a leading `0` with nothing behind it is typed as a single `0`. -/
theorem Typed.eq_zero_iff {l : Literal} (ht : l.Typed) :
    l.opening.chars ++ l.body = ['0'] ↔ l.opening = .zero ∧ l.body = [] := by
  constructor
  · intro h
    cases ho : l.opening with
    | plain =>
      obtain ⟨c, cs, hcs, hc0⟩ := ht.plain ho
      rw [ho, hcs] at h
      cases h
      exact absurd rfl hc0
    | zero =>
      rw [ho] at h
      exact ⟨rfl, (List.cons.inj h).2⟩
    | marked letter r =>
      rw [ho] at h
      cases (List.cons.inj h).2
  · rintro ⟨ho, hb⟩
    rw [ho, hb]
    rfl

/-- A literal takes no further character, in terms of its base and its characters. -/
theorem Typed.push?_eq_none_iff {l : Literal} (ht : l.Typed) (c : Char) :
    l.push? c = none ↔ c ≠ '_' ∧ (∀ d, ¬DigitOf l.opening.radix.base c d) ∧
      (l.opening.chars ++ l.body = ['0'] → c ∉ ['b', 'B', 'o', 'O', 'x', 'X']) := by
  rw [Literal.push?_eq_none_iff, Radix.Continues, Radix.isDigit_iff, ht.eq_zero_iff, Radix.ofLetter?_eq_none_iff, not_or,
    not_exists, and_assoc]

/-- A further character keeps a literal typed. -/
theorem Typed.push? {l l' : Literal} {c : Char} (ht : l.Typed) (h : l.push? c = some l') :
    l'.Typed ∧ l'.chars = l.chars ++ [c] := by
  unfold Literal.push? at h
  split at h
  · rename_i hzero
    split at h
    · rename_i r hr
      cases h
      refine ⟨⟨?_, nofun, ?_⟩, ?_⟩
      · intro x hx
        rw [hzero.2] at hx
        cases hx
      · intro letter r' heq
        cases heq
        exact hr
      · simp [chars, Opening.chars, hzero.1, hzero.2]
    · obtain ⟨hc, rfl⟩ := extend?_eq_some_iff.mp h
      exact ht.append hc
  · obtain ⟨hc, rfl⟩ := extend?_eq_some_iff.mp h
    exact ht.append hc

/-- The characters of a well-formed literal, without its sign, are a numeral. -/
theorem Typed.numeral_of_wellFormed {l : Literal} (ht : l.Typed) (hw : l.wellFormed = true) :
    Numeral (l.opening.chars ++ l.body) l.opening.radix.base (l.body.filterMap Radix.digitValue?) := by
  obtain ⟨sign, opening, body⟩ := l
  cases opening with
  | plain =>
    obtain ⟨c, cs, rfl, hc0⟩ := ht.plain rfl
    have hw : separated false (c :: cs) = true := hw
    by_cases hu : c = '_'
    · rw [separated, if_pos hu] at hw
      cases hw
    · rw [separated, if_neg hu] at hw
      obtain ⟨d, hd⟩ := (ht.continues c (by simp)).digitOf hu
      obtain ⟨ds, hds⟩ := Digits.of_separated .decimal cs (fun x hx => ht.continues x (by simp [hx])) hw
      rw [List.filterMap_cons_some (Radix.digitValue?_of_digitOf hd), hds.filterMap_digitValue?]
      refine .plain hd ?_ hds
      rintro rfl
      rcases hd.2 with h | h
      · exact hc0 h
      · exact hc0 h
  | zero =>
    obtain ⟨ds, hds⟩ := Digits.of_separated .octal body ht.continues hw
    rw [hds.filterMap_digitValue?]
    exact .zero hds
  | marked letter r =>
    simp only [wellFormed, Bool.and_eq_true, Bool.not_eq_true', List.isEmpty_eq_false_iff] at hw
    obtain ⟨ds, hds⟩ := Digits.of_separated r body ht.continues hw.1
    rw [hds.filterMap_digitValue?]
    exact .marked (ht.marked letter r rfl) hds (fun h => hw.2 (hds.eq_nil_iff.mp h))

/-- The literal with a sign, an opening and the digits behind it, for a numeral that has them. -/
theorem exists_marked {letter : Char} {r : Radix} {cs : List Char} {ds : List Nat} (sign : Option Sign)
    (hl : Radix.ofLetter? letter = some r) (h : Digits r.base cs ds) (hne : ds ≠ []) :
    ∃ l : Literal, l.Typed ∧ l.wellFormed = true ∧ l.sign = sign ∧ l.opening.chars ++ l.body = '0' :: letter :: cs ∧
      l.opening.radix.base = r.base ∧ l.body.filterMap Radix.digitValue? = ds := by
  refine ⟨⟨sign, .marked letter r, cs⟩, ⟨h.continues, nofun, ?_⟩, ?_, rfl, rfl, rfl, h.filterMap_digitValue?⟩
  · intro letter' r' heq
    cases heq
    exact hl
  · have hcs : cs ≠ [] := fun hnil => hne (h.eq_nil_iff.mpr hnil)
    simp [wellFormed, h.separated_true, hcs]

/-- Every numeral, behind any sign, is typed as a well-formed literal. -/
theorem exists_of_numeral {cs : List Char} {base : Nat} {ds : List Nat} (h : Numeral cs base ds) (sign : Option Sign) :
    ∃ l : Literal, l.Typed ∧ l.wellFormed = true ∧ l.sign = sign ∧ l.opening.chars ++ l.body = cs ∧
      l.opening.radix.base = base ∧ l.body.filterMap Radix.digitValue? = ds := by
  cases h with
  | @plain c d cs ds hd hd0 hds =>
    have hd : DigitOf Radix.decimal.base c d := hd
    have hds : Digits Radix.decimal.base cs ds := hds
    have hcs : Digits Radix.decimal.base (c :: cs) (d :: ds) := .digit hd hds
    refine ⟨⟨sign, .plain, c :: cs⟩, ⟨hcs.continues, fun _ => ⟨c, cs, rfl, ?_⟩, nofun⟩, ?_, rfl, rfl, rfl,
      hcs.filterMap_digitValue?⟩
    · rintro rfl
      have hzero := Radix.digitValue?_of_digitOf hd
      rw [show Radix.digitValue? '0' = some 0 by decide, Option.some.injEq] at hzero
      exact hd0 hzero.symm
    · show separated false (c :: cs) = true
      rw [separated, if_neg (Radix.ne_underscore_of_digitOf hd), hds.separated_true]
  | @zero cs ds hds =>
    have hds : Digits Radix.octal.base cs ds := hds
    exact ⟨⟨sign, .zero, cs⟩, ⟨hds.continues, nofun, nofun⟩, hds.separated_true, rfl, rfl, rfl,
      hds.filterMap_digitValue?⟩
  | @binary letter cs ds hl hds hne =>
    have hl : Radix.ofLetter? letter = some .binary := by rcases hl with rfl | rfl <;> rfl
    exact exists_marked sign hl hds hne
  | @octal letter cs ds hl hds hne =>
    have hl : Radix.ofLetter? letter = some .octal := by rcases hl with rfl | rfl <;> rfl
    exact exists_marked sign hl hds hne
  | @hexadecimal letter cs ds hl hds hne =>
    have hl : Radix.ofLetter? letter = some .hexadecimal := by rcases hl with rfl | rfl <;> rfl
    exact exists_marked sign hl hds hne

/-! ## Values -/

/-- The number that digits of a base spell, with a sign. -/
def signedNumber (sign : Option Sign) (base : Nat) (digits : List Nat) : Int :=
  let number : Nat := Nat.ofDigits base digits.reverse
  if sign = some .minus then -(number : Int) else number

/-- The magnitude of a literal is the number that its digits spell. -/
theorem magnitude_eq_ofDigits (l : Literal) :
    l.magnitude = Nat.ofDigits l.opening.radix.base (l.body.filterMap Radix.digitValue?).reverse := by
  rw [magnitude, Nat.ofDigits_eq_foldr, List.foldr_reverse]
  congr 1
  funext n d
  simp [Nat.mul_comm, Nat.add_comm]

/-- The value of a literal is the number that its digits spell, with its sign. -/
theorem signedValue_eq (l : Literal) :
    l.signedValue = signedNumber l.sign l.opening.radix.base (l.body.filterMap Radix.digitValue?) := by
  rw [signedValue, signedNumber, magnitude_eq_ofDigits]

/-- A literal denotes exactly the signed 64-bit number that it spells, if it is well formed. -/
theorem value_eq_ok_iff (l : Literal) (v : Int64) :
    l.value = .ok v ↔ l.wellFormed = true ∧ l.signedValue = v.toInt := by
  have hlo := Int64.le_toInt v
  have hhi := Int64.toInt_lt v
  have hsigned : l.signedValue = -(l.magnitude : Int) ∨ l.signedValue = l.magnitude := by
    unfold signedValue
    split
    · exact Or.inl rfl
    · exact Or.inr rfl
  unfold value
  rw [Int64.toInt_minValue, Int64.toInt_maxValue, show UInt64.size = 2 ^ 64 from rfl]
  split
  · rename_i hsize
    constructor
    · intro h
      cases h
    · rintro ⟨-, h⟩
      omega
  · split
    · rename_i hw
      constructor
      · intro h
        cases h
      · rintro ⟨h, -⟩
        rw [h] at hw
        cases hw
    · rename_i hw
      rw [Bool.not_eq_true', Bool.not_eq_false] at hw
      split
      · rename_i hrange
        constructor
        · intro h
          cases h
        · rintro ⟨-, h⟩
          omega
      · rename_i hrange
        have hof : (Int64.ofInt l.signedValue).toInt = l.signedValue :=
          Int64.toInt_ofInt_of_le (by omega) (by omega)
        rw [Except.ok.injEq, ← Int64.toInt_inj, hof]
        exact ⟨fun h => ⟨hw, h⟩, fun h => h.2⟩

end Literal

end LeadingTerms
