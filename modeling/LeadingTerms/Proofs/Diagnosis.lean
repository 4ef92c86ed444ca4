import LeadingTerms.Proofs.Reading

/-!
# Why no integer was scanned

Behind the spaces and the sign at its front (`Leads`), a text ends, goes on with something that is no digit, or goes on with
what is taken for a literal. The last is a token of a grammar that lets underscores stand anywhere and does not ask for a
digit (`Token`); every numeral is one. Which of the three it is decides how a scan fails (`Progress.exists_found`). A token
that denotes no number is out of range if its digits spell too large a magnitude, or if it is a numeral whose value is out of
range, and it is ill-formed otherwise (`Literal.Typed.cause_eq_rangeError_iff`). `Dialogue.outcome_of_failed_scan` tells what
is then seen of a dialogue.
-/

namespace LeadingTerms

/-! ## Tokens -/

/-- Digits of the base with these values, and underscores anywhere. -/
inductive Scattered (base : Nat) : List Char → List Nat → Prop where
  | nil : Scattered base [] []
  | digit {c : Char} {d : Nat} {cs : List Char} {ds : List Nat} :
      DigitOf base c d → Scattered base cs ds → Scattered base (c :: cs) (d :: ds)
  | underscore {cs : List Char} {ds : List Nat} : Scattered base cs ds → Scattered base ('_' :: cs) ds

/-- What is taken for an unsigned literal, well formed or not: the characters, the base and the digits. The base is announced
as in a numeral. -/
inductive Token : List Char → (base : Nat) → (digits : List Nat) → Prop where
  | plain {c : Char} {cs : List Char} {ds : List Nat} : c ≠ '0' → Scattered 10 (c :: cs) ds → Token (c :: cs) 10 ds
  | zero {cs : List Char} {ds : List Nat} : Scattered 8 cs ds → Token ('0' :: cs) 8 ds
  | binary {l : Char} {cs : List Char} {ds : List Nat} :
      l = 'b' ∨ l = 'B' → Scattered 2 cs ds → Token ('0' :: l :: cs) 2 ds
  | octal {l : Char} {cs : List Char} {ds : List Nat} :
      l = 'o' ∨ l = 'O' → Scattered 8 cs ds → Token ('0' :: l :: cs) 8 ds
  | hexadecimal {l : Char} {cs : List Char} {ds : List Nat} :
      l = 'x' ∨ l = 'X' → Scattered 16 cs ds → Token ('0' :: l :: cs) 16 ds

/-- The text does not go on with a character of the token: neither an underscore nor a digit of its base, nor, behind a single
`0`, a letter that announces a base. -/
def Ends (token : List Char) (base : Nat) (text : Bytes) : Prop :=
  ∀ c after, uncons text = some (.char c, after) →
    c ≠ '_' ∧ (∀ d, ¬DigitOf base c d) ∧ (token = ['0'] → c ∉ ['b', 'B', 'o', 'O', 'x', 'X'])

/-- The digits of the token spell a magnitude of more than 64 bits, whatever its form, or the token is a numeral and with the
sign no signed number of 64 bits. -/
def OutOfRange (sign : Option Sign) (token : List Char) (base : Nat) (digits : List Nat) : Prop :=
  2 ^ 64 ≤ Nat.ofDigits base digits.reverse ∨
    Numeral token base digits ∧
      ¬(-2 ^ 63 ≤ Literal.signedNumber sign base digits ∧ Literal.signedNumber sign base digits ≤ 2 ^ 63 - 1)

/-- Characters that are digits of a base or underscores are scattered digits of it. -/
theorem Scattered.of_continues (r : Radix) {cs : List Char} (h : ∀ c ∈ cs, r.Continues c) :
    Scattered r.base cs (cs.filterMap Radix.digitValue?) := by
  induction cs with
  | nil => exact .nil
  | cons c cs ih =>
    have hcs := ih (fun x hx => h x (by simp [hx]))
    by_cases hc : c = '_'
    · rw [hc, List.filterMap_cons_none Radix.digitValue?_underscore]
      exact .underscore hcs
    · obtain ⟨d, hd⟩ := (h c (by simp)).digitOf hc
      rw [List.filterMap_cons_some (Radix.digitValue?_of_digitOf hd)]
      exact .digit hd hcs

/-- Behind a leading `0` and a letter, scattered digits of the base that the letter stands for. -/
theorem Token.marked {letter : Char} {r : Radix} {cs : List Char} {ds : List Nat}
    (hl : Radix.ofLetter? letter = some r) (h : Scattered r.base cs ds) : Token ('0' :: letter :: cs) r.base ds := by
  unfold Radix.ofLetter? at hl
  split at hl
  · cases hl; exact .binary (Or.inl rfl) h
  · cases hl; exact .binary (Or.inr rfl) h
  · cases hl; exact .octal (Or.inl rfl) h
  · cases hl; exact .octal (Or.inr rfl) h
  · cases hl; exact .hexadecimal (Or.inl rfl) h
  · cases hl; exact .hexadecimal (Or.inr rfl) h
  · cases hl

namespace Literal

variable {l : Literal}

/-- The characters of a typed literal, without its sign, are a token. -/
theorem Typed.token (ht : l.Typed) :
    Token (l.opening.chars ++ l.body) l.opening.radix.base (l.body.filterMap Radix.digitValue?) := by
  have hbody := Scattered.of_continues l.opening.radix ht.continues
  obtain ⟨sign, opening, body⟩ := l
  cases opening with
  | plain =>
    obtain ⟨c, cs, rfl, hc0⟩ := ht.plain rfl
    exact .plain hc0 hbody
  | zero => exact .zero hbody
  | marked letter r => exact .marked (ht.marked letter r rfl) hbody

/-- A typed literal is told by its sign and its characters. -/
theorem Typed.eq_of_chars_eq {l' : Literal} (ht : l.Typed) (ht' : l'.Typed) (hsign : l'.sign = l.sign)
    (hchars : l'.opening.chars ++ l'.body = l.opening.chars ++ l.body) : l' = l := by
  have hsteps := Progress.steps_of_typed ht
  have hsteps' := Progress.steps_of_typed ht'
  rw [hsign, hchars, hsteps] at hsteps'
  cases hsteps'
  rfl

/-- A typed literal is well formed exactly if it is a numeral. -/
theorem Typed.wellFormed_iff (ht : l.Typed) :
    l.wellFormed = true ↔
      Numeral (l.opening.chars ++ l.body) l.opening.radix.base (l.body.filterMap Radix.digitValue?) := by
  constructor
  · exact ht.numeral_of_wellFormed
  · intro h
    obtain ⟨l', ht', hw, hsign, hchars, -, -⟩ := exists_of_numeral h l.sign
    rw [ht.eq_of_chars_eq ht' hsign hchars] at hw
    exact hw

/-- What is wrong with a literal that denotes no number: too large a magnitude comes first, then the form, then the value. -/
theorem cause_eq_rangeError_iff_value {cause : LiteralError} (h : l.value = .error cause) :
    cause = .rangeError ↔
      2 ^ 64 ≤ l.magnitude ∨ l.wellFormed = true ∧ (l.signedValue < -2 ^ 63 ∨ 2 ^ 63 - 1 < l.signedValue) := by
  unfold value at h
  rw [Int64.toInt_minValue, Int64.toInt_maxValue, show UInt64.size = 2 ^ 64 from rfl] at h
  split at h
  · rename_i hsize
    cases h
    exact ⟨fun _ => Or.inl hsize, fun _ => rfl⟩
  · rename_i hsize
    split at h
    · rename_i hw
      rw [Bool.not_eq_true'] at hw
      cases h
      refine ⟨nofun, ?_⟩
      rintro (h | ⟨h, -⟩)
      · exact absurd h hsize
      · rw [hw] at h
        cases h
    · rename_i hw
      rw [Bool.not_eq_true', Bool.not_eq_false] at hw
      split at h
      · rename_i hrange
        cases h
        exact ⟨fun _ => Or.inr ⟨hw, hrange⟩, fun _ => rfl⟩
      · cases h

/-- The same in terms of the token and its digits. -/
theorem Typed.cause_eq_rangeError_iff (ht : l.Typed) {cause : LiteralError} (h : l.value = .error cause) :
    cause = .rangeError ↔
      OutOfRange l.sign (l.opening.chars ++ l.body) l.opening.radix.base (l.body.filterMap Radix.digitValue?) := by
  rw [cause_eq_rangeError_iff_value h, ht.wellFormed_iff, magnitude_eq_ofDigits, signedValue_eq, OutOfRange, not_and_or,
    not_le, not_le]

end Literal

/-! ## What stands at the front -/

/-- The text is spaces, a sign or none, and the rest; all spaces, and the sign if there is one, have been split off. -/
structure Leads (text : Bytes) (spaces : List Char) (sign : Option Sign) (rest : Bytes) : Prop where
  eq_append : text = encode (spaces ++ (sign.map Sign.toChar).toList) ++ rest
  spaces : ∀ c ∈ spaces, isSpace c = true
  unsigned : sign = none → ∀ c after, uncons rest = some (.char c, after) → isSpace c = false ∧ c ≠ '+' ∧ c ≠ '-'

/-- The text begins with a decimal digit or an underscore. -/
def BeginsNumeric (text : Bytes) : Prop :=
  ∃ c after, uncons text = some (.char c, after) ∧ (c = '_' ∨ ∃ d, DigitOf 10 c d)

theorem not_beginsNumeric_nil : ¬BeginsNumeric [] := by
  rintro ⟨c, after, hu, -⟩
  cases hu

/-- A character begins no literal exactly if it is neither an underscore nor a decimal digit. -/
theorem Literal.start?_eq_none_iff (sign : Option Sign) (c : Char) :
    start? sign c = none ↔ ¬(c = '_' ∨ ∃ d, DigitOf 10 c d) := by
  have hcontinues : (c = '_' ∨ Radix.decimal.isDigit c = true) ↔ (c = '_' ∨ ∃ d, DigitOf 10 c d) := by
    rw [Radix.isDigit_iff]
    rfl
  rw [← hcontinues]
  unfold start?
  split
  · rename_i hc
    refine ⟨nofun, fun h => absurd (Or.inr ?_) h⟩
    rw [hc]
    decide
  · split
    · rename_i h
      exact ⟨nofun, fun hn => absurd h hn⟩
    · rename_i h
      exact ⟨fun _ => h, fun _ => rfl⟩

theorem Sign.ofChar?_eq_none_iff (c : Char) : ofChar? c = none ↔ c ≠ '+' ∧ c ≠ '-' := by
  unfold ofChar?
  split <;> simp_all

namespace Progress

/-- A scan that has only seen spaces refuses exactly the symbols that are no space, no sign, no digit and no underscore. -/
theorem step_blank_eq_none_iff (c : Char) :
    blank.step (.char c) = none ↔
      isSpace c = false ∧ (c ≠ '+' ∧ c ≠ '-') ∧ ¬(c = '_' ∨ ∃ d, DigitOf 10 c d) := by
  rw [← Sign.ofChar?_eq_none_iff, ← Literal.start?_eq_none_iff none]
  cases hspace : isSpace c <;> cases hsign : Sign.ofChar? c <;> simp [step, hspace, hsign]

/-- Behind a sign it refuses those that are no digit and no underscore. -/
theorem step_signed_eq_none_iff (sign : Sign) (c : Char) :
    (signed sign).step (.char c) = none ↔ ¬(c = '_' ∨ ∃ d, DigitOf 10 c d) := by
  rw [← Literal.start?_eq_none_iff (some sign)]
  simp [step]

/-- What a scan of a complete text finds behind the spaces and the sign: the end of the text, something else than a digit, or
the longest literal that stands there, with its value. -/
inductive Found (sign : Option Sign) (rest : Bytes) : Except ScanError Int64 → Bytes → Prop where
  | nothing : rest = [] → Found sign rest (.error .endOfInput) []
  | noDigit : rest ≠ [] → ¬BeginsNumeric rest → Found sign rest (.error .notAnInteger) rest
  | literal {l : Literal} {left : Bytes} : l.Typed → l.sign = sign → BeginsNumeric rest →
      rest = encode (l.opening.chars ++ l.body) ++ left →
      Ends (l.opening.chars ++ l.body) l.opening.radix.base left → Found sign rest (l.value.mapError (.literal l)) left

/-- A typed literal begins with a decimal digit or an underscore. -/
theorem exists_cons_of_typed {l : Literal} (ht : l.Typed) :
    ∃ c cs, l.opening.chars ++ l.body = c :: cs ∧ (c = '_' ∨ ∃ d, DigitOf 10 c d) := by
  obtain ⟨sign, opening, body⟩ := l
  cases opening with
  | plain =>
    obtain ⟨c, cs, rfl, -⟩ := ht.plain rfl
    refine ⟨c, cs, rfl, ?_⟩
    have hc : c = '_' ∨ Radix.decimal.isDigit c = true := ht.continues c (by simp)
    rw [Radix.isDigit_iff] at hc
    exact hc
  | zero => exact ⟨'0', body, rfl, Or.inr ⟨0, by decide⟩⟩
  | marked letter r => exact ⟨'0', letter :: body, rfl, Or.inr ⟨0, by decide⟩⟩

/-- A decimal digit and an underscore are no space and no sign. -/
theorem not_space_of_numeric {c : Char} (h : c = '_' ∨ ∃ d, DigitOf 10 c d) : isSpace c = false ∧ c ≠ '+' ∧ c ≠ '-' := by
  cases hl : Literal.start? none c with
  | none => exact absurd h ((Literal.start?_eq_none_iff none c).mp hl)
  | some l =>
    obtain ⟨hspace, hsign⟩ := not_space_of_start? hl
    exact ⟨hspace, (Sign.ofChar?_eq_none_iff c).mp hsign⟩

/-- Inside a literal a scan finds the value of the literal, or what is wrong with it. -/
theorem result_within_eq {l : Literal} {rest : Bytes} {stop : Stop} (h : (within l).Halts rest stop) :
    (within l).result stop = l.value.mapError (.literal l) := by
  cases stop with
  | failed message => exact absurd h id
  | refused =>
    simp only [result]
    cases l.value <;> rfl
  | ended =>
    simp only [result]
    cases l.value <;> rfl

/-- Where a scan stops with nothing but spaces and a sign behind it, there is nothing or no digit. -/
theorem found_of_halts (sign : Option Sign) {rest : Bytes} {stop : Stop} (h : (behind sign).Halts rest stop) :
    Found sign rest ((behind sign).result stop) rest := by
  cases stop with
  | failed message => exact absurd h id
  | ended =>
    have h : rest = [] := h
    subst h
    cases sign <;> exact .nothing rfl
  | refused =>
    obtain ⟨s, after, hu, hstep⟩ := h
    have hne : rest ≠ [] := by
      rintro rfl
      cases hu
    have hnot : ¬BeginsNumeric rest := by
      rintro ⟨c, after', hu', hc⟩
      rw [hu] at hu'
      cases hu'
      cases sign with
      | none => exact ((step_blank_eq_none_iff c).mp hstep).2.2 hc
      | some sign => exact (step_signed_eq_none_iff sign c).mp hstep hc
    cases sign <;> exact .noDigit hne hnot

/-- A scan that takes some characters of a complete text and stops behind them. -/
theorem scan_encode_append {p : Progress} {cs : List Char} {rest : Bytes} {stop : Stop} (hsteps : blank.steps cs = some p)
    (hhalts : p.Halts rest stop) : scan (.characters (encode cs ++ rest)) = (p.result stop, .characters rest) := by
  rw [scan, advance_encode_append hsteps, advance_of_halts hhalts]
  rfl

/-- A scan of a complete text finds what stands behind its spaces and its sign. -/
theorem exists_found (input : Bytes) :
    ∃ spaces sign rest result left, Leads input spaces sign rest ∧ Found sign rest result left ∧
      scan (.characters input) = (result, .characters left) := by
  obtain ⟨cs, rest, p, stop, rfl, hsteps, hhalts⟩ := exists_advance blank input
  have hscan := scan_encode_append hsteps hhalts
  have hread := (steps_blank_iff p cs).mp hsteps
  cases p with
  | blank =>
    refine ⟨cs, none, rest, _, rest, ⟨by simp, hread, ?_⟩, found_of_halts none hhalts, hscan⟩
    intro _ c after hu
    cases stop with
    | failed message => exact absurd hhalts id
    | ended =>
      have hhalts : rest = [] := hhalts
      subst hhalts
      cases hu
    | refused =>
      obtain ⟨s, after', hu', hstep⟩ := hhalts
      rw [hu] at hu'
      cases hu'
      obtain ⟨hspace, hsign, -⟩ := (step_blank_eq_none_iff c).mp hstep
      exact ⟨hspace, hsign⟩
  | signed s =>
    obtain ⟨spaces, hspaces, rfl⟩ := hread
    exact ⟨spaces, some s, rest, _, rest, ⟨rfl, hspaces, nofun⟩, found_of_halts (some s) hhalts, hscan⟩
  | within l =>
    obtain ⟨spaces, hspaces, rfl, ht⟩ := hread
    obtain ⟨c, cs, hcons, hc⟩ := exists_cons_of_typed ht
    have hfirst : uncons (encode (l.opening.chars ++ l.body) ++ rest) = some (.char c, encode cs ++ rest) := by
      rw [hcons, ← uncons_encodeChar]
      simp [encode]
    have hfollow := (exists_halts_within_iff l rest).mp ⟨stop, hhalts⟩
    refine ⟨spaces, l.sign, encode (l.opening.chars ++ l.body) ++ rest, _, rest, ⟨?_, hspaces, ?_⟩,
      .literal ht rfl ⟨c, _, hfirst, hc⟩ rfl ?_, hscan.trans ?_⟩
    · simp [Literal.chars, encode_append]
    · intro _ c' after hu
      rw [hfirst] at hu
      cases hu
      exact not_space_of_numeric hc
    · intro c' after hu
      exact (ht.push?_eq_none_iff c').mp (hfollow c' after hu)
    · rw [result_within_eq hhalts]

end Progress

/-! ## Dialogues whose scan fails -/

namespace Dialogue

/-- A dialogue whose scan of a complete text fails has written the question, logged nothing, and tells that the number could
not be read, and why. Behind all spaces and a sign, if there is one, the reason is the end of input exactly if nothing
follows. It is that no integer stands there exactly if something follows that begins neither with a decimal digit nor with an
underscore; all of that is left. Otherwise the longest token has been taken and is shown as typed. It is out of range exactly
if its digits, whatever the underscores, spell at least `2 ^ 64`, or if it is a numeral whose value is not that of a signed
64-bit number; in every other case it is ill-formed. -/
theorem outcome_of_failed_scan (generator : Generator) (threshold : Level) {limit : Option Nat} (hlimit : limit ≠ some 0)
    {input : Bytes} {cause : ScanError} (hcause : (scan (.characters input)).1 = .error cause) :
    ∃ spaces sign rest left, Leads input spaces sign rest ∧
      outcome generator threshold limit (.characters input) = ⟨prompt, [], .characters left, some (.scan cause)⟩ ∧
      (Error.scan cause).message = utf8 "reading number of terms: " ++ cause.message ∧
      (cause = .endOfInput ↔ rest = []) ∧
      (cause = .endOfInput → cause.message = utf8 "EOF") ∧
      (cause = .notAnInteger ↔ rest ≠ [] ∧ ¬BeginsNumeric rest) ∧
      (cause = .notAnInteger → cause.message = utf8 "expected integer" ∧ left = rest) ∧
      (BeginsNumeric rest → ∃ token base digits l kind,
        Token token base digits ∧ rest = encode token ++ left ∧ Ends token base left ∧
        cause = .literal l kind ∧
        cause.message = utf8 "strconv.ParseInt: parsing \"" ++ encode ((sign.map Sign.toChar).toList ++ token) ++
          utf8 "\": " ++ kind.message ∧
        (kind = .rangeError ↔ OutOfRange sign token base digits) ∧
        (kind = .syntaxError ↔ ¬OutOfRange sign token base digits)) := by
  obtain ⟨spaces, sign, rest, result, left, hleads, hfound, hscan⟩ := Progress.exists_found input
  rw [hscan] at hcause
  have hcause : result = .error cause := hcause
  rw [hcause] at hscan
  refine ⟨spaces, sign, rest, left, hleads, outcome_of_scan_error generator threshold hlimit hscan, rfl, ?_⟩
  cases hfound with
  | nothing hnil =>
    cases hcause
    subst hnil
    exact ⟨⟨fun _ => rfl, fun _ => rfl⟩, fun _ => rfl, ⟨nofun, fun h => absurd rfl h.1⟩, nofun,
      fun h => absurd h not_beginsNumeric_nil⟩
  | noDigit hne hnot =>
    cases hcause
    exact ⟨⟨nofun, fun h => absurd h hne⟩, nofun, ⟨fun _ => ⟨hne, hnot⟩, fun _ => rfl⟩, fun _ => ⟨rfl, rfl⟩,
      fun h => absurd h hnot⟩
  | @literal l left ht hsign hbegins hrest hends =>
    have hne : rest ≠ [] := by
      rintro rfl
      exact not_beginsNumeric_nil hbegins
    cases hvalue : l.value with
    | ok v =>
      rw [hvalue] at hcause
      cases hcause
    | error kind =>
      rw [hvalue] at hcause
      cases hcause
      have hrange := ht.cause_eq_rangeError_iff hvalue
      rw [hsign] at hrange
      refine ⟨⟨nofun, fun h => absurd h hne⟩, nofun, ⟨nofun, fun h => absurd hbegins h.2⟩, nofun, fun _ => ?_⟩
      refine ⟨_, _, _, l, kind, ht.token, hrest, hends, rfl, ?_, hrange, ?_⟩
      · rw [← hsign, ← List.append_assoc]
        rfl
      · rw [← hrange]
        cases kind <;> simp

/-- An underscore out of place does not hide that the magnitude has more than 64 bits. -/
theorem outcome_of_failed_scan_misplaced :
    (none : Option Nat) ≠ some 0 ∧
    (scan (.characters (utf8 "\n-18446744073709551616_ 7"))).1 =
      .error (.literal ⟨some .minus, .plain, "18446744073709551616_".toList⟩ .rangeError) ∧
    ∃ left, outcome Algorithm.iterative.generate .debug none (.characters (utf8 "\n-18446744073709551616_ 7")) =
      ⟨prompt, [], .characters left,
        some (.scan (.literal ⟨some .minus, .plain, "18446744073709551616_".toList⟩ .rangeError))⟩ := by
  have hnone : (none : Option Nat) ≠ some 0 := by simp
  have hscan : (scan (.characters (utf8 "\n-18446744073709551616_ 7"))).1 =
      .error (.literal ⟨some .minus, .plain, "18446744073709551616_".toList⟩ .rangeError) := by cbv
  obtain ⟨_, _, _, left, -, houtcome, -⟩ :=
    outcome_of_failed_scan Algorithm.iterative.generate .debug hnone hscan
  exact ⟨hnone, hscan, left, houtcome⟩

end Dialogue

end LeadingTerms
