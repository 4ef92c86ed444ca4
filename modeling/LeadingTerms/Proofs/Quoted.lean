import Mathlib.Tactic.IntervalCases
import LeadingTerms.Text.Encoding
import LeadingTerms.Text.Quoted

/-!
# Reading quoted texts

A text between double quotes can be read back. `Quoted.readSymbol` reads one symbol of it and leaves what follows: it undoes
the quoting of every symbol that occurs in a text (`Quoted.readSymbol_symbol`). No quoted symbol begins with a quote, so the
first quote that a symbol does not account for ends the text, and a quoted text tells both the text and where it ends
(`quoteText_append_inj`). All bytes between the quotes, and the quotes, are visible: none is a control (`visible_quoteText`).
-/

namespace LeadingTerms

/-! ## Stray bytes -/

/-- Bytes of the one-byte range are characters, so a stray byte is above that range. -/
theorem le_of_uncons_stray {bs rest : Bytes} {b : UInt8} (h : uncons bs = some (.stray b, rest)) : 0x80 ≤ b.toNat := by
  obtain rfl : bs = b :: rest := eq_of_uncons h
  by_contra hlt
  have hsmall : b < 0x80 := by
    rw [UInt8.lt_iff_toNat_lt]
    exact Nat.not_le.mp hlt
  simp [uncons, head, hsmall] at h

/-- So it is in every text. -/
theorem le_of_stray_mem_decode {text : Bytes} {b : UInt8} (h : Symbol.stray b ∈ decode text) : 0x80 ≤ b.toNat := by
  induction hn : text.length using Nat.strongRecOn generalizing text with
  | ind n ih =>
    cases hu : uncons text with
    | none =>
      rw [(uncons_eq_none_iff text).mp hu, decode_nil] at h
      cases h
    | some p =>
      obtain ⟨s, rest⟩ := p
      rw [decode_of_uncons hu] at h
      rcases List.mem_cons.mp h with rfl | h
      · exact le_of_uncons_stray hu
      · exact ih rest.length (hn ▸ length_of_uncons hu) h rfl

/-! ## Numbers in base sixteen -/

namespace Quoted

/-- The value of a digit in base sixteen. -/
def hexValue (b : UInt8) : Nat := if b.toNat < 0x3A then b.toNat - 0x30 else b.toNat - 0x57

/-- The number that digits in base sixteen spell. -/
def hexNumber (digits : Bytes) : Nat := digits.foldl (fun n b => n * 16 + hexValue b) 0

/-- A digit in base sixteen is a single byte, which has the value of the digit. -/
theorem exists_encode_digitChar {d : Nat} (h : d < 16) :
    ∃ b, encode [Nat.digitChar d] = [b] ∧ hexValue b = d ∧ 0x30 ≤ b.toNat ∧ b.toNat ≤ 0x66 := by
  interval_cases d <;> exact ⟨_, rfl, by decide⟩

theorem length_hexDigits (width n : Nat) : (hexDigits width n).length = width := by
  induction width generalizing n with
  | zero => rfl
  | succ k ih =>
    obtain ⟨b, hb, -⟩ := exists_encode_digitChar (Nat.mod_lt n (by decide : 16 > 0))
    simp [hexDigits, ih, hb]

/-- Enough digits spell the number they were made of. -/
theorem hexNumber_hexDigits {width n : Nat} (h : n < 16 ^ width) : hexNumber (hexDigits width n) = n := by
  induction width generalizing n with
  | zero =>
    rw [Nat.pow_zero, Nat.lt_one_iff] at h
    rw [h]
    rfl
  | succ k ih =>
    have hquotient : n / 16 < 16 ^ k := by
      rw [Nat.pow_succ] at h
      exact Nat.div_lt_of_lt_mul (by omega)
    obtain ⟨b, hb, hvalue, -⟩ := exists_encode_digitChar (Nat.mod_lt n (by decide : 16 > 0))
    have hlast : hexNumber (hexDigits k (n / 16) ++ [b]) = hexNumber (hexDigits k (n / 16)) * 16 + hexValue b := by
      simp [hexNumber]
    rw [hexDigits, hb, hlast, ih hquotient, hvalue]
    omega

/-- So they can be told from what follows them. -/
theorem hexNumber_take_drop {width n : Nat} (h : n < 16 ^ width) (rest : Bytes) :
    hexNumber ((hexDigits width n ++ rest).take width) = n ∧ (hexDigits width n ++ rest).drop width = rest := by
  have hlength := length_hexDigits width n
  rw [List.take_left' hlength, List.drop_left' hlength, hexNumber_hexDigits h]
  exact ⟨rfl, rfl⟩

/-! ## Reading one symbol -/

/-- The control that a letter behind a backslash stands for. -/
def control? : Char → Option Char
  | 'a' => some '\x07'
  | 'b' => some '\x08'
  | 't' => some '\x09'
  | 'n' => some '\x0a'
  | 'v' => some '\x0b'
  | 'f' => some '\x0c'
  | 'r' => some '\x0d'
  | _ => none

/-- The symbol with a number of two digits: above the one-byte range it is a stray byte. -/
def ofByteNumber (n : Nat) : Symbol := if n < 0x80 then .char (Char.ofNat n) else .stray (UInt8.ofNat n)

/-- The symbol of an escape, by the character behind the backslash, and what follows the escape. -/
def readEscape (c : Char) (rest : Bytes) : Symbol × Bytes :=
  if c = 'x' then (ofByteNumber (hexNumber (rest.take 2)), rest.drop 2)
  else if c = 'u' then (.char (Char.ofNat (hexNumber (rest.take 4))), rest.drop 4)
  else if c = 'U' then (.char (Char.ofNat (hexNumber (rest.take 8))), rest.drop 8)
  else (.char ((control? c).getD c), rest)

/-- Reads one quoted symbol and leaves what follows. -/
def readSymbol (text : Bytes) : Option (Symbol × Bytes) :=
  match uncons text with
  | some (.char c, rest) =>
    if c = '\\' then
      match uncons rest with
      | some (.char c, rest) => some (readEscape c rest)
      | _ => none
    else some (.char c, rest)
  | _ => none

/-- A character that is no backslash is read as itself. -/
theorem readSymbol_char {c : Char} (h : c ≠ '\\') (rest : Bytes) :
    readSymbol (encode [c] ++ rest) = some (.char c, rest) := by
  have hc : encode [c] ++ rest = String.utf8EncodeChar c ++ rest := by simp [encode]
  simp [readSymbol, hc, uncons_encodeChar, h]

/-- An escape is read by the character behind the backslash. -/
theorem readSymbol_escape (c : Char) (rest : Bytes) :
    readSymbol (encode ['\\', c] ++ rest) = some (readEscape c rest) := by
  have hc : encode ['\\', c] ++ rest = String.utf8EncodeChar '\\' ++ (String.utf8EncodeChar c ++ rest) := by
    simp [encode]
  simp [readSymbol, hc, uncons_encodeChar]

/-- The letter of a control is read as that control. -/
theorem readEscape_letter {c l : Char} (h : letter? c = some l) (rest : Bytes) : readEscape l rest = (.char c, rest) := by
  have hc : ∀ n, c.toNat = n → c = Char.ofNat n := by
    rintro n rfl
    exact (Char.ofNat_toNat c).symm
  unfold letter? at h
  split at h <;> cases h
  all_goals
    rename_i hn
    rw [hc _ hn]
    rfl

theorem readSymbol_byte {n : Nat} (h : n < 0x100) (rest : Bytes) :
    readSymbol (utf8 "\\x" ++ hexDigits 2 n ++ rest) = some (ofByteNumber n, rest) := by
  have hlt : n < 16 ^ 2 := h
  obtain ⟨hnumber, hbehind⟩ := hexNumber_take_drop hlt rest
  rw [utf8_byteEscape, List.append_assoc, readSymbol_escape, readEscape, if_pos rfl, hnumber, hbehind]

theorem readSymbol_short {c : Char} (h : c.toNat < 0x10000) (rest : Bytes) :
    readSymbol (utf8 "\\u" ++ hexDigits 4 c.toNat ++ rest) = some (.char c, rest) := by
  have hlt : c.toNat < 16 ^ 4 := h
  obtain ⟨hnumber, hbehind⟩ := hexNumber_take_drop hlt rest
  rw [utf8_shortEscape, List.append_assoc, readSymbol_escape, readEscape, if_neg (by decide), if_pos rfl, hnumber, hbehind,
    Char.ofNat_toNat]

theorem readSymbol_long (c : Char) (rest : Bytes) :
    readSymbol (utf8 "\\U" ++ hexDigits 8 c.toNat ++ rest) = some (.char c, rest) := by
  have hlt : c.toNat < 16 ^ 8 := by
    have hvalid := toNat_valid c
    omega
  obtain ⟨hnumber, hbehind⟩ := hexNumber_take_drop hlt rest
  rw [utf8_longEscape, List.append_assoc, readSymbol_escape, readEscape, if_neg (by decide), if_neg (by decide), if_pos rfl,
    hnumber, hbehind, Char.ofNat_toNat]

/-- A character between double quotes is read back. -/
theorem readSymbol_quotedChar (c : Char) (rest : Bytes) : readSymbol (char '\x22' c ++ rest) = some (.char c, rest) := by
  unfold char
  split
  · rename_i hescaped
    rw [readSymbol_escape]
    rcases hescaped with rfl | rfl
    · rfl
    · rfl
  · rename_i hplain
    rw [not_or] at hplain
    split
    · exact readSymbol_char hplain.2 rest
    · split
      · rename_i l hl
        rw [readSymbol_escape, readEscape_letter hl]
      · simp only
        split
        · rename_i hn
          rw [readSymbol_byte (by omega), ofByteNumber, if_pos hn, Char.ofNat_toNat]
        · split
          · rename_i hn
            exact readSymbol_short hn rest
          · exact readSymbol_long c rest

/-- Every symbol of a text is read back from between double quotes. -/
theorem readSymbol_symbol {s : Symbol} {text : Bytes} (hs : s ∈ decode text) (rest : Bytes) :
    readSymbol (symbol '\x22' s ++ rest) = some (s, rest) := by
  cases s with
  | char c => exact readSymbol_quotedChar c rest
  | stray b =>
    have hb := le_of_stray_mem_decode hs
    rw [symbol, readSymbol_byte b.toNat_lt, ofByteNumber, if_neg (Nat.not_lt.mpr hb), UInt8.ofNat_toNat]

/-! ## Reading to the closing quote -/

/-- No quoted symbol begins with a quote. -/
theorem symbol_append_ne_quote {s : Symbol} {text : Bytes} (hs : s ∈ decode text) (rest rest' : Bytes) :
    symbol '\x22' s ++ rest ≠ encode ['\x22'] ++ rest' := by
  intro h
  have hread := readSymbol_symbol hs rest
  rw [h, readSymbol_char (by decide)] at hread
  -- The quote would have been read as itself, but it is written with a backslash.
  obtain ⟨rfl, rfl⟩ := Prod.mk.inj (Option.some.inj hread)
  cases h

/-- Quoted symbols in front of a quote tell the symbols and what is behind the quote. -/
theorem flatMap_symbol_append_inj {symbols symbols' : List Symbol} {text text' rest rest' : Bytes}
    (hs : ∀ s ∈ symbols, s ∈ decode text) (hs' : ∀ s ∈ symbols', s ∈ decode text')
    (h : symbols.flatMap (symbol '\x22') ++ (encode ['\x22'] ++ rest) =
      symbols'.flatMap (symbol '\x22') ++ (encode ['\x22'] ++ rest')) : symbols = symbols' ∧ rest = rest' := by
  induction symbols generalizing symbols' with
  | nil =>
    cases symbols' with
    | nil => exact ⟨rfl, List.append_cancel_left h⟩
    | cons s' symbols' =>
      rw [List.flatMap_nil, List.nil_append, List.flatMap_cons, List.append_assoc] at h
      exact absurd h.symm (symbol_append_ne_quote (hs' s' (by simp)) _ _)
  | cons s symbols ih =>
    cases symbols' with
    | nil =>
      rw [List.flatMap_nil, List.nil_append, List.flatMap_cons, List.append_assoc] at h
      exact absurd h (symbol_append_ne_quote (hs s (by simp)) _ _)
    | cons s' symbols' =>
      rw [List.flatMap_cons, List.flatMap_cons, List.append_assoc, List.append_assoc] at h
      have hread := readSymbol_symbol (hs s (by simp)) (symbols.flatMap (symbol '\x22') ++ (encode ['\x22'] ++ rest))
      rw [h, readSymbol_symbol (hs' s' (by simp))] at hread
      obtain ⟨rfl, hbehind⟩ := Prod.mk.inj (Option.some.inj hread)
      obtain ⟨rfl, hrest⟩ := ih (fun x hx => hs x (by simp [hx])) (fun x hx => hs' x (by simp [hx])) hbehind.symm
      exact ⟨rfl, hrest⟩

end Quoted

/-- A quoted text tells the text, and what follows it. -/
theorem quoteText_append_inj {text text' rest rest' : Bytes} (h : quoteText text ++ rest = quoteText text' ++ rest') :
    text = text' ∧ rest = rest' := by
  unfold quoteText at h
  simp only [utf8_doubleQuote, List.append_assoc] at h
  obtain ⟨hsymbols, hrest⟩ := Quoted.flatMap_symbol_append_inj (fun _ hs => hs) (fun _ hs => hs)
    (List.append_cancel_left h)
  exact ⟨decode_injective hsymbols, hrest⟩

/-! ## Visible bytes -/

/-- The byte is no control: it is the blank or above it, and not the last byte of the one-byte range. -/
def Visible (b : UInt8) : Prop := 0x20 ≤ b.toNat ∧ b.toNat ≠ 0x7F

instance : DecidablePred Visible := fun _ => inferInstanceAs (Decidable (_ ∧ _))

namespace Quoted

/-- A character other than a control is encoded in visible bytes. -/
theorem visible_encodeChar {c : Char} (h : 0x20 ≤ c.toNat) (h' : c.toNat ≠ 0x7F) :
    ∀ b ∈ String.utf8EncodeChar c, Visible b := by
  have hvalid := toNat_valid c
  have hbyte : ∀ n, 0x20 ≤ n → n ≠ 0x7F → n < 256 → Visible (UInt8.ofNat n) := by
    intro n hlo hne hlt
    unfold Visible
    rw [toNat_ofNat_byte hlt]
    exact ⟨hlo, hne⟩
  simp only [String.utf8EncodeChar, show c.val.toNat = c.toNat from rfl]
  split
  · simp only [List.mem_singleton, forall_eq]
    exact hbyte _ h h' (by omega)
  · split
    · simp only [List.mem_cons, List.not_mem_nil, or_false, forall_eq_or_imp, forall_eq]
      exact ⟨hbyte _ (by omega) (by omega) (by omega), hbyte _ (by omega) (by omega) (by omega)⟩
    · split
      · simp only [List.mem_cons, List.not_mem_nil, or_false, forall_eq_or_imp, forall_eq]
        exact ⟨hbyte _ (by omega) (by omega) (by omega), hbyte _ (by omega) (by omega) (by omega),
          hbyte _ (by omega) (by omega) (by omega)⟩
      · simp only [List.mem_cons, List.not_mem_nil, or_false, forall_eq_or_imp, forall_eq]
        exact ⟨hbyte _ (by omega) (by omega) (by omega), hbyte _ (by omega) (by omega) (by omega),
          hbyte _ (by omega) (by omega) (by omega), hbyte _ (by omega) (by omega) (by omega)⟩

theorem visible_encode {cs : List Char} (h : ∀ c ∈ cs, 0x20 ≤ c.toNat ∧ c.toNat ≠ 0x7F) : ∀ b ∈ encode cs, Visible b := by
  intro b hb
  obtain ⟨c, hc, hb⟩ := List.mem_flatMap.mp hb
  exact visible_encodeChar (h c hc).1 (h c hc).2 b hb

theorem visible_hexDigits (width n : Nat) : ∀ b ∈ hexDigits width n, Visible b := by
  induction width generalizing n with
  | zero => simp [hexDigits]
  | succ k ih =>
    intro b hb
    obtain ⟨digit, hdigit, -, hlo, hhi⟩ := exists_encode_digitChar (Nat.mod_lt n (by decide : 16 > 0))
    rw [hexDigits, hdigit, List.mem_append, List.mem_singleton] at hb
    rcases hb with hb | rfl
    · exact ih (n / 16) b hb
    · exact ⟨by omega, by omega⟩

/-- A printable character is no control. -/
theorem le_of_isPrintable {c : Char} (h : isPrintable c = true) : 0x20 ≤ c.toNat ∧ c.toNat ≠ 0x7F := by
  unfold isPrintable at h
  simp only at h
  split at h
  · simp only [Bool.and_eq_true, decide_eq_true_eq] at h
    omega
  · omega

/-- The letter of a control is itself none. -/
theorem le_of_letter {c l : Char} (h : letter? c = some l) : 0x20 ≤ l.toNat ∧ l.toNat ≠ 0x7F := by
  unfold letter? at h
  split at h <;> cases h
  all_goals decide

/-- A number behind a backslash and a mark is visible. -/
theorem visible_escape {mark : Char} (hlo : 0x20 ≤ mark.toNat) (hne : mark.toNat ≠ 0x7F) (width n : Nat) :
    ∀ b ∈ encode ['\\', mark] ++ hexDigits width n, Visible b := by
  intro b hb
  rcases List.mem_append.mp hb with hb | hb
  · exact visible_encode (by simp [hlo, hne]) b hb
  · exact visible_hexDigits width n b hb

theorem visible_char (c : Char) : ∀ b ∈ char '\x22' c, Visible b := by
  unfold char
  split
  · rename_i hescaped
    apply visible_encode
    rcases hescaped with rfl | rfl <;> simp
  · split
    · rename_i hprintable
      apply visible_encode
      simpa using le_of_isPrintable hprintable
    · split
      · rename_i l hl
        apply visible_encode
        simpa using le_of_letter hl
      · simp only [utf8_byteEscape, utf8_shortEscape, utf8_longEscape]
        split
        · exact visible_escape (by decide) (by decide) 2 c.toNat
        · split
          · exact visible_escape (by decide) (by decide) 4 c.toNat
          · exact visible_escape (by decide) (by decide) 8 c.toNat

theorem visible_symbol (s : Symbol) : ∀ b ∈ symbol '\x22' s, Visible b := by
  cases s with
  | char c => exact visible_char c
  | stray b =>
    rw [symbol, utf8_byteEscape]
    exact visible_escape (by decide) (by decide) 2 b.toNat

end Quoted

/-- All bytes of a quoted text are visible, whatever the text. -/
theorem visible_quoteText (text : Bytes) : ∀ b ∈ quoteText text, Visible b := by
  have hquote : ∀ b ∈ utf8 "\"", Visible b := by
    rw [utf8_doubleQuote]
    exact Quoted.visible_encode (by simp)
  intro b hb
  unfold quoteText at hb
  rcases List.mem_append.mp hb with hb | hb
  · rcases List.mem_append.mp hb with hb | hb
    · exact hquote b hb
    · obtain ⟨s, -, hs⟩ := List.mem_flatMap.mp hb
      exact Quoted.visible_symbol s b hs
  · exact hquote b hb

end LeadingTerms
