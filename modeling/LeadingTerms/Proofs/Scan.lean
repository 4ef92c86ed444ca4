import LeadingTerms.Input.Scan
import LeadingTerms.Text.Encoding
import LeadingTerms.Proofs.Literal

/-!
# Scanning whole characters

On a source of whole characters a scan takes the longest run of characters that its steps take (`Progress.advance_iff`).
`Progress.Read` says which characters lead a scan to where it is: spaces, then a sign, then the characters of a typed literal
(`Progress.steps_blank_iff`). So an integer is scanned exactly where spaces, a sign and a numeral of the grammar stand in
front of something that does not extend the numeral (`scan_characters_ok_iff`).
-/

namespace LeadingTerms

namespace Progress

/-! ## Steps and runs of steps -/

/-- Takes characters one after the other, if it can take all of them. -/
def steps (p : Progress) : List Char → Option Progress
  | [] => some p
  | c :: cs => (p.step (.char c)).bind (·.steps cs)

/-- A run of steps goes through the run of steps over its first part. -/
theorem steps_append (p : Progress) (cs ds : List Char) : p.steps (cs ++ ds) = (p.steps cs).bind (·.steps ds) := by
  induction cs generalizing p with
  | nil => rfl
  | cons c cs ih =>
    simp only [List.cons_append, steps]
    cases p.step (.char c) with
    | none => rfl
    | some p' => exact ih p'

/-- Only characters are taken. -/
theorem char_of_step {p p' : Progress} {s : Symbol} (h : p.step s = some p') : ∃ c, s = .char c := by
  cases s with
  | char c => exact ⟨c, rfl⟩
  | stray b => cases p <;> cases h

/-- A symbol in sight is taken or refused. -/
theorem advance_of_look_symbol {source before after : Source} {s : Symbol} (p : Progress)
    (h : source.look = .symbol s before after) :
    p.advance source = match p.step s with
      | some p' => p'.advance after
      | none => (p, .refused, before) := by
  rw [advance]
  split
  · rename_i h'
    rw [h] at h'
    cases h'
    rfl
  · rename_i h'
    rw [h] at h'
    cases h'
  · rename_i h'
    rw [h] at h'
    cases h'

/-- At the end of input there is nothing to take. -/
theorem advance_of_look_ended {source here : Source} (p : Progress) (h : source.look = .ended here) :
    p.advance source = (p, .ended, here) := by
  rw [advance]
  split
  · rename_i h'
    rw [h] at h'
    cases h'
  · rename_i h'
    rw [h] at h'
    cases h'
    rfl
  · rename_i h'
    rw [h] at h'
    cases h'

/-! ## Sources of whole characters -/

/-- The first symbol of the text is in sight. -/
theorem look_characters {input rest : Bytes} {s : Symbol} (h : uncons input = some (s, rest)) :
    (Source.characters input).look = .symbol s (.characters input) (.characters rest) := by
  simp only [Source.look, h]

/-- The scan stops for this reason in front of this text, the end of which is the end of input. -/
def Halts (p : Progress) (rest : Bytes) : Stop → Prop
  | .refused => ∃ s after, uncons rest = some (s, after) ∧ p.step s = none
  | .ended => rest = []
  | .failed _ => False

/-- Where a scan has to stop, it takes nothing. -/
theorem advance_of_halts {p : Progress} {rest : Bytes} {stop : Stop} (h : p.Halts rest stop) :
    p.advance (.characters rest) = (p, stop, .characters rest) := by
  cases stop with
  | refused =>
    obtain ⟨s, after, hu, hs⟩ := h
    rw [advance_of_look_symbol p (look_characters hu), hs]
  | ended =>
    have h : rest = [] := h
    subst h
    exact advance_of_look_ended p rfl
  | failed message => exact absurd h id

/-- Characters that can be taken are taken. -/
theorem advance_encode_append {p p' : Progress} {cs : List Char} (h : p.steps cs = some p') (rest : Bytes) :
    p.advance (.characters (encode cs ++ rest)) = p'.advance (.characters rest) := by
  induction cs generalizing p with
  | nil =>
    cases h
    rfl
  | cons c cs ih =>
    have he : encode (c :: cs) ++ rest = String.utf8EncodeChar c ++ (encode cs ++ rest) := by
      simp [encode]
    simp only [steps, Option.bind_eq_some_iff] at h
    obtain ⟨p₁, hstep, hsteps⟩ := h
    rw [he, advance_of_look_symbol p (look_characters (uncons_encodeChar c _)), hstep]
    exact ih hsteps

/-- A scan takes some characters and stops in front of the rest. -/
theorem exists_advance (p : Progress) (input : Bytes) :
    ∃ cs rest p' stop, input = encode cs ++ rest ∧ p.steps cs = some p' ∧ p'.Halts rest stop := by
  induction hn : input.length using Nat.strongRecOn generalizing p input with
  | ind n ih =>
    cases hu : uncons input with
    | none => exact ⟨[], input, p, .ended, rfl, rfl, (uncons_eq_none_iff input).mp hu⟩
    | some su =>
      obtain ⟨s, after⟩ := su
      cases hs : p.step s with
      | none => exact ⟨[], input, p, .refused, rfl, rfl, s, after, hu, hs⟩
      | some p₁ =>
        obtain ⟨c, rfl⟩ := char_of_step hs
        obtain ⟨cs, rest, p', stop, hinput, hsteps, hhalts⟩ := ih after.length (hn ▸ length_of_uncons hu) p₁ after rfl
        refine ⟨c :: cs, rest, p', stop, ?_, ?_, hhalts⟩
        · rw [eq_of_uncons hu, hinput]
          simp [encode, Symbol.bytes]
        · rw [steps, hs]
          exact hsteps

/-- A scan takes the longest run of characters that it can. -/
theorem advance_iff (p p' : Progress) (input : Bytes) (stop : Stop) (source : Source) :
    p.advance (.characters input) = (p', stop, source) ↔
      ∃ cs rest, source = .characters rest ∧ input = encode cs ++ rest ∧ p.steps cs = some p' ∧ p'.Halts rest stop := by
  constructor
  · intro h
    obtain ⟨cs, rest, p₁, stop₁, rfl, hsteps, hhalts⟩ := exists_advance p input
    rw [advance_encode_append hsteps, advance_of_halts hhalts] at h
    cases h
    exact ⟨cs, rest, rfl, rfl, hsteps, hhalts⟩
  · rintro ⟨cs, rest, rfl, rfl, hsteps, hhalts⟩
    rw [advance_encode_append hsteps, advance_of_halts hhalts]

/-! ## What has been read -/

/-- The characters that lead a scan to where it is: spaces, then a sign, then the characters of a literal. -/
def Read : Progress → List Char → Prop
  | blank, cs => ∀ c ∈ cs, isSpace c = true
  | signed s, cs => ∃ spaces, (∀ c ∈ spaces, isSpace c = true) ∧ cs = spaces ++ [s.toChar]
  | within l, cs => ∃ spaces, (∀ c ∈ spaces, isSpace c = true) ∧ cs = spaces ++ l.chars ∧ l.Typed

/-- A step adds the character it takes to what has been read. -/
theorem Read.step {p p' : Progress} {cs : List Char} {c : Char} (hr : p.Read cs) (h : p.step (.char c) = some p') :
    p'.Read (cs ++ [c]) := by
  cases p with
  | blank =>
    have hr : ∀ c ∈ cs, isSpace c = true := hr
    simp only [Progress.step] at h
    split at h
    · rename_i hspace
      cases h
      intro x hx
      rcases List.mem_append.mp hx with hx | hx
      · exact hr x hx
      · rw [List.mem_singleton] at hx
        subst hx
        exact hspace
    · split at h
      · rename_i s hs
        cases h
        refine ⟨cs, hr, ?_⟩
        unfold Sign.ofChar? at hs
        split at hs <;> cases hs <;> rfl
      · obtain ⟨l, hl, rfl⟩ := Option.map_eq_some_iff.mp h
        obtain ⟨ht, hchars⟩ := Literal.typed_of_start? hl
        exact ⟨cs, hr, by rw [hchars]; rfl, ht⟩
  | signed s =>
    obtain ⟨spaces, hspaces, rfl⟩ := hr
    obtain ⟨l, hl, rfl⟩ := Option.map_eq_some_iff.mp h
    obtain ⟨ht, hchars⟩ := Literal.typed_of_start? hl
    exact ⟨spaces, hspaces, by rw [hchars, List.append_assoc]; rfl, ht⟩
  | within l =>
    obtain ⟨spaces, hspaces, rfl, ht⟩ := hr
    obtain ⟨l', hl', rfl⟩ := Option.map_eq_some_iff.mp h
    obtain ⟨ht', hchars⟩ := ht.push? hl'
    exact ⟨spaces, hspaces, by rw [hchars, List.append_assoc], ht'⟩

/-- A run of steps adds all its characters to what has been read. -/
theorem Read.steps {p p' : Progress} {cs ds : List Char} (hr : p.Read cs) (h : p.steps ds = some p') :
    p'.Read (cs ++ ds) := by
  induction ds generalizing p cs with
  | nil =>
    cases h
    rw [List.append_nil]
    exact hr
  | cons d ds ih =>
    simp only [Progress.steps, Option.bind_eq_some_iff] at h
    obtain ⟨p₁, hstep, hsteps⟩ := h
    have := ih (hr.step hstep) hsteps
    rw [List.append_assoc] at this
    exact this

/-- Spaces lead nowhere. -/
theorem steps_spaces {spaces : List Char} (h : ∀ c ∈ spaces, isSpace c = true) : blank.steps spaces = some blank := by
  induction spaces with
  | nil => rfl
  | cons c cs ih =>
    have hstep : blank.step (.char c) = some blank := by
      rw [step, if_pos (h c (by simp))]
    rw [steps, hstep]
    exact ih (fun x hx => h x (by simp [hx]))

/-- Where a scan is behind a sign, or behind none. -/
def behind : Option Sign → Progress
  | none => blank
  | some s => signed s

/-- A sign is taken. -/
theorem steps_sign (sign : Option Sign) : blank.steps (sign.map Sign.toChar).toList = some (behind sign) := by
  cases sign with
  | none => rfl
  | some s => cases s <;> decide

/-- A character that can stand in front of the digits of a number in base ten is no space and no sign. -/
theorem not_space_of_start? {sign : Option Sign} {c : Char} {l : Literal} (h : Literal.start? sign c = some l) :
    isSpace c = false ∧ Sign.ofChar? c = none := by
  have hc : c = '0' ∨ Radix.decimal.Continues c := by
    unfold Literal.start? at h
    split at h
    · rename_i hc
      exact Or.inl hc
    · split at h
      · rename_i hc
        exact Or.inr hc
      · cases h
  rcases hc with rfl | rfl | hc
  · decide
  · decide
  · obtain ⟨d, hd, hchar⟩ := (Radix.decimal.isDigit_iff c).mp hc
    have hd : d < 10 := hd
    rcases hchar with rfl | rfl <;> interval_cases d <;> decide

/-- The first character of a literal is taken, behind a sign or not. -/
theorem step_behind {sign : Option Sign} {c : Char} {l : Literal} (h : Literal.start? sign c = some l) :
    (behind sign).step (.char c) = some (within l) := by
  cases sign with
  | none =>
    obtain ⟨hspace, hsign⟩ := not_space_of_start? h
    simp only [behind, step, hspace, hsign, h, Bool.false_eq_true, if_false, Option.map_some]
  | some s => simp only [behind, step, h, Option.map_some]

/-- Digits and underscores are taken. -/
theorem steps_within {l : Literal} {cs : List Char} (h : ∀ c ∈ cs, l.opening.radix.Continues c) :
    (within l).steps cs = some (within { l with body := l.body ++ cs }) := by
  induction cs generalizing l with
  | nil =>
    rw [steps, List.append_nil]
  | cons c cs ih =>
    have hstep : (within l).step (.char c) = some (within { l with body := l.body ++ [c] }) := by
      rw [step, Literal.push?_of_continues (h c (by simp))]
      rfl
    have hrest := ih (l := { l with body := l.body ++ [c] }) (fun x hx => h x (by simp [hx]))
    rw [steps, hstep]
    rw [List.append_assoc] at hrest
    exact hrest

/-- A leading `0` is taken. -/
theorem step_zero (sign : Option Sign) : (behind sign).step (.char '0') = some (within ⟨sign, .zero, []⟩) :=
  step_behind rfl

/-- All characters of a typed literal are taken, behind its sign. -/
theorem steps_of_typed {l : Literal} (ht : l.Typed) : (behind l.sign).steps (l.opening.chars ++ l.body) = some (within l) := by
  obtain ⟨sign, opening, body⟩ := l
  cases opening with
  | plain =>
    obtain ⟨c, cs, rfl, hc0⟩ := ht.plain rfl
    have hc : c = '_' ∨ Radix.decimal.isDigit c = true := ht.continues c (by simp)
    have hstart : Literal.start? sign c = some ⟨sign, .plain, [c]⟩ := by
      rw [Literal.start?, if_neg hc0, if_pos hc]
    show (behind sign).steps (c :: cs) = _
    rw [steps, step_behind hstart]
    exact steps_within (fun x hx => ht.continues x (by simp [hx]))
  | zero =>
    show (behind sign).steps ('0' :: body) = _
    rw [steps, step_zero]
    exact steps_within ht.continues
  | marked letter r =>
    have hletter : (within ⟨sign, .zero, []⟩).step (.char letter) = some (within ⟨sign, .marked letter r, []⟩) := by
      simp only [step, Literal.push?, ht.marked letter r rfl, and_self, if_true, Option.map_some]
    show (behind sign).steps ('0' :: letter :: body) = _
    rw [steps, step_zero, Option.bind_some, steps, hletter]
    exact steps_within ht.continues

/-- A scan comes from its beginning to where it is over exactly the characters that lead there. -/
theorem steps_blank_iff (p : Progress) (cs : List Char) : blank.steps cs = some p ↔ p.Read cs := by
  constructor
  · intro h
    have hblank : blank.Read [] := nofun
    exact hblank.steps h
  · intro h
    cases p with
    | blank => exact steps_spaces h
    | signed s =>
      obtain ⟨spaces, hspaces, rfl⟩ := h
      rw [steps_append, steps_spaces hspaces]
      exact steps_sign (some s)
    | within l =>
      obtain ⟨spaces, hspaces, rfl, ht⟩ := h
      rw [Literal.chars, List.append_assoc, steps_append, steps_spaces hspaces, Option.bind_some, steps_append,
        steps_sign, Option.bind_some]
      exact steps_of_typed ht

/-! ## Where a number is found -/

/-- Inside a literal a scan finds the number that the literal denotes, unless the source fails. -/
theorem result_within (l : Literal) {stop : Stop} (h : ∀ message, stop ≠ .failed message) (v : Int64) :
    (within l).result stop = .ok v ↔ l.value = .ok v := by
  cases stop with
  | failed message => exact absurd rfl (h message)
  | refused =>
    simp only [result]
    cases l.value <;> simp
  | ended =>
    simp only [result]
    cases l.value <;> simp

/-- A scan that has come to its end finds a number exactly in a literal that denotes it. -/
theorem result_eq_ok_iff {p : Progress} {rest : Bytes} {stop : Stop} (h : p.Halts rest stop) (v : Int64) :
    p.result stop = .ok v ↔ ∃ l, p = within l ∧ l.value = .ok v := by
  have hstop : ∀ message, stop ≠ .failed message := by
    rintro message rfl
    exact h
  cases p with
  | within l =>
    rw [result_within l hstop]
    constructor
    · intro hv
      exact ⟨l, rfl, hv⟩
    · rintro ⟨l', heq, hv⟩
      cases heq
      exact hv
  | blank => cases stop <;> exact ⟨nofun, nofun⟩
  | signed s => cases stop <;> exact ⟨nofun, nofun⟩

/-- A scan stops inside a literal exactly in front of a text whose first symbol does not extend it. -/
theorem exists_halts_within_iff (l : Literal) (rest : Bytes) :
    (∃ stop, (within l).Halts rest stop) ↔ ∀ c after, uncons rest = some (.char c, after) → l.push? c = none := by
  constructor
  · rintro ⟨stop, h⟩ c after hu
    cases stop with
    | refused =>
      obtain ⟨s, after', hu', hs⟩ := h
      rw [hu] at hu'
      cases hu'
      exact Option.map_eq_none_iff.mp hs
    | ended =>
      have h : rest = [] := h
      rw [(uncons_eq_none_iff rest).mpr h] at hu
      cases hu
    | failed message => exact absurd h id
  · intro h
    cases hu : uncons rest with
    | none => exact ⟨.ended, (uncons_eq_none_iff rest).mp hu⟩
    | some su =>
      obtain ⟨s, after⟩ := su
      refine ⟨.refused, s, after, hu, ?_⟩
      cases s with
      | char c => exact Option.map_eq_none_iff.mpr (h c after hu)
      | stray b => rfl

/-- A scan finds a number exactly behind spaces and a typed literal that denotes it and that the rest does not extend. -/
theorem scan_ok_iff_literal (input rest : Bytes) (v : Int64) :
    scan (.characters input) = (.ok v, .characters rest) ↔
      ∃ spaces, ∃ l : Literal, input = encode (spaces ++ l.chars) ++ rest ∧ (∀ c ∈ spaces, isSpace c = true) ∧ l.Typed ∧
        l.value = .ok v ∧ ∀ c after, uncons rest = some (.char c, after) → l.push? c = none := by
  constructor
  · intro h
    rcases hadv : blank.advance (.characters input) with ⟨p, stop, source⟩
    obtain ⟨cs, rest', rfl, rfl, hsteps, hhalts⟩ := (advance_iff blank p input stop source).mp hadv
    rw [scan, hadv] at h
    obtain ⟨hresult, hrest⟩ := Prod.mk.inj h
    cases hrest
    obtain ⟨l, rfl, hvalue⟩ := (result_eq_ok_iff hhalts v).mp hresult
    obtain ⟨spaces, hspaces, rfl, ht⟩ := (steps_blank_iff (within l) cs).mp hsteps
    exact ⟨spaces, l, rfl, hspaces, ht, hvalue, (exists_halts_within_iff l rest).mp ⟨stop, hhalts⟩⟩
  · rintro ⟨spaces, l, rfl, hspaces, ht, hvalue, hpush⟩
    obtain ⟨stop, hhalts⟩ := (exists_halts_within_iff l rest).mpr hpush
    have hsteps := (steps_blank_iff (within l) (spaces ++ l.chars)).mpr ⟨spaces, hspaces, rfl, ht⟩
    rw [scan, (advance_iff blank (within l) _ stop (.characters rest)).mpr ⟨_, rest, rfl, rfl, hsteps, hhalts⟩]
    exact Prod.ext ((result_eq_ok_iff hhalts v).mpr ⟨l, rfl, hvalue⟩) rfl

end Progress

/-- On a source of whole characters, a scan finds the number `v` and leaves `rest` exactly if the input is spaces, a sign or
none, and a numeral that with the sign spells `v`, and `rest` does not extend the numeral: it does not begin with an underscore
or a digit of the base, nor, behind a single `0`, with a letter that announces a base. -/
theorem scan_characters_ok_iff (input rest : Bytes) (v : Int64) :
    scan (.characters input) = (.ok v, .characters rest) ↔
      ∃ (spaces : List Char) (sign : Option Sign) (numeral : List Char) (base : Nat) (digits : List Nat),
        input = encode (spaces ++ ((sign.map Sign.toChar).toList ++ numeral)) ++ rest ∧
        (∀ c ∈ spaces, isSpace c = true) ∧ Numeral numeral base digits ∧
        Literal.signedNumber sign base digits = v.toInt ∧
        ∀ c after, uncons rest = some (.char c, after) → c ≠ '_' ∧ (∀ d, ¬DigitOf base c d) ∧
          (numeral = ['0'] → c ∉ ['b', 'B', 'o', 'O', 'x', 'X']) := by
  rw [Progress.scan_ok_iff_literal]
  constructor
  · rintro ⟨spaces, l, hinput, hspaces, ht, hvalue, hpush⟩
    obtain ⟨hw, hsigned⟩ := (l.value_eq_ok_iff v).mp hvalue
    refine ⟨spaces, l.sign, l.opening.chars ++ l.body, l.opening.radix.base, l.body.filterMap Radix.digitValue?, ?_,
      hspaces, ht.numeral_of_wellFormed hw, ?_, ?_⟩
    · rw [hinput, Literal.chars, List.append_assoc _ l.opening.chars]
    · rw [← Literal.signedValue_eq, hsigned]
    · intro c after hu
      exact (ht.push?_eq_none_iff c).mp (hpush c after hu)
  · rintro ⟨spaces, sign, numeral, base, digits, hinput, hspaces, hnumeral, hsigned, hfollow⟩
    obtain ⟨l, ht, hw, rfl, rfl, rfl, rfl⟩ := Literal.exists_of_numeral hnumeral sign
    refine ⟨spaces, l, ?_, hspaces, ht, ?_, ?_⟩
    · rw [hinput, Literal.chars, List.append_assoc _ l.opening.chars]
    · rw [l.value_eq_ok_iff, Literal.signedValue_eq]
      exact ⟨hw, hsigned⟩
    · intro c after hu
      exact (ht.push?_eq_none_iff c).mpr (hfollow c after hu)

/-- Behind a leading `0` the base is eight, so an `8` is left. -/
example : scan (.characters (utf8 " +0_78 9")) = (.ok 7, .characters (utf8 "8 9")) := by cbv

end LeadingTerms
