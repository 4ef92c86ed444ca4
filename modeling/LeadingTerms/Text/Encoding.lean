import LeadingTerms.Text.Symbol

/-!
# Reading undoes encoding

An encoded character at the front of a text is read as that character, whatever follows (`head_encodeChar`), and a
character that is read stands there in its encoding (`eq_of_head_whole`). So the symbols of a text spell the text
(`flatMap_bytes_decode`), and reading gives back what was encoded (`decode_encode_append`), also behind bytes that encode
nothing (`decode_append_encode`). What settles the first symbol keeps it settled when more bytes arrive
(`head_append_whole`, `head_append_stray`).
-/

namespace LeadingTerms

/-! ## Bytes and code points as numbers -/

/-- A small number keeps its value as a byte. -/
theorem toNat_ofNat_byte {n : Nat} (h : n < 256) : (UInt8.ofNat n).toNat = n := by
  simp [Nat.mod_eq_of_lt h]

/-- A byte is determined by its number. -/
theorem eq_ofNat_byte {n : Nat} {b : UInt8} (h : n = b.toNat) : UInt8.ofNat n = b := by
  rw [h, UInt8.ofNat_toNat]

/-! ## An encoded character is read -/

/-- The announcement of a byte, in numbers. -/
theorem Lead.ofByte?_eq (b : UInt8) : Lead.ofByte? b =
    if b.toNat < 0xC2 then none
    else if b.toNat < 0xE0 then some ⟨1, 0x80, 0xBF, b.toNat - 0xC0⟩
    else if b.toNat = 0xE0 then some ⟨2, 0xA0, 0xBF, 0x0⟩
    else if b.toNat = 0xED then some ⟨2, 0x80, 0x9F, 0xD⟩
    else if b.toNat < 0xF0 then some ⟨2, 0x80, 0xBF, b.toNat - 0xE0⟩
    else if b.toNat = 0xF0 then some ⟨3, 0x90, 0xBF, 0⟩
    else if b.toNat < 0xF4 then some ⟨3, 0x80, 0xBF, b.toNat - 0xF0⟩
    else if b.toNat = 0xF4 then some ⟨3, 0x80, 0x8F, 4⟩
    else none := by
  simp only [Lead.ofByte?, UInt8.lt_iff_toNat_lt, ← UInt8.toNat_inj]
  rfl

/-- One more byte in its range is collected. -/
theorem Tail.collect_cons {k : Nat} {low high b : UInt8} {code : Nat} {bs : Bytes}
    (hl : low.toNat ≤ b.toNat) (hh : b.toNat ≤ high.toNat) :
    Tail.collect (k + 1) low high code (b :: bs) = Tail.collect k 0x80 0xBF (code * 64 + (b.toNat - 0x80)) bs := by
  simp only [Tail.collect, UInt8.le_iff_toNat_le]
  rw [if_pos ⟨hl, hh⟩]

/-- Collecting a byte succeeds only on a byte in its range. -/
theorem Tail.collect_succ {k : Nat} {low high : UInt8} {code code' : Nat} {bs rest : Bytes}
    (h : Tail.collect (k + 1) low high code bs = .complete code' rest) :
    ∃ b bs', bs = b :: bs' ∧ low.toNat ≤ b.toNat ∧ b.toNat ≤ high.toNat ∧
      Tail.collect k 0x80 0xBF (code * 64 + (b.toNat - 0x80)) bs' = .complete code' rest := by
  cases bs with
  | nil => simp [Tail.collect] at h
  | cons b bs =>
    simp only [Tail.collect] at h
    split at h
    · rename_i hb
      rw [UInt8.le_iff_toNat_le, UInt8.le_iff_toNat_le] at hb
      exact ⟨b, bs, rfl, hb.1, hb.2, h⟩
    · cases h

/-- A first byte with all the bytes it announced is a character. -/
theorem head_lead {b : UInt8} {l : Lead} {bs rest : Bytes} {code : Nat} (h : 0x80 ≤ b.toNat)
    (hl : Lead.ofByte? b = some l) (hc : Tail.collect l.tails l.low l.high l.bits bs = .complete code rest) :
    head (b :: bs) = .whole (Char.ofNat code) rest := by
  have hb : ¬b < 0x80 := by
    rw [UInt8.lt_iff_toNat_lt]
    exact Nat.not_lt.mpr h
  simp only [head, hb, if_false, hl, hc]

/-- The code point of a character is no surrogate and not past the last one. -/
theorem toNat_valid (c : Char) : c.toNat < 0xD800 ∨ 0xDFFF < c.toNat ∧ c.toNat < 0x110000 := c.valid

/-- An encoded character at the front is read, whatever follows. -/
theorem head_encodeChar (c : Char) (rest : Bytes) : head (String.utf8EncodeChar c ++ rest) = .whole c rest := by
  have hvalid := toNat_valid c
  have hc : ∀ n, n = c.toNat → Head.whole (Char.ofNat n) rest = .whole c rest := by
    intro n hn
    rw [hn, Char.ofNat_toNat]
  have h80 : (0x80 : UInt8).toNat = 0x80 := rfl
  have hBF : (0xBF : UInt8).toNat = 0xBF := rfl
  have hA0 : (0xA0 : UInt8).toNat = 0xA0 := rfl
  have h9F : (0x9F : UInt8).toNat = 0x9F := rfl
  have h90 : (0x90 : UInt8).toNat = 0x90 := rfl
  have h8F : (0x8F : UInt8).toNat = 0x8F := rfl
  simp only [String.utf8EncodeChar, show c.val.toNat = c.toNat from rfl]
  split
  · have hb := toNat_ofNat_byte (n := c.toNat) (by omega)
    simp only [List.cons_append, List.nil_append, head, UInt8.lt_iff_toNat_lt, hb]
    rw [if_pos (by omega)]
    exact hc _ rfl
  · split
    · have hb0 := toNat_ofNat_byte (n := c.toNat / 64 % 32 + 192) (by omega)
      have hb1 := toNat_ofNat_byte (n := c.toNat % 64 + 128) (by omega)
      rw [← hc ((c.toNat / 64 % 32 + 192 - 0xC0) * 64 + (c.toNat % 64 + 128 - 0x80)) (by omega)]
      simp only [List.cons_append, List.nil_append]
      apply head_lead (by omega)
      · rw [Lead.ofByte?_eq, hb0, if_neg (by omega), if_pos (by omega)]
      · simp only
        rw [Tail.collect_cons (by omega) (by omega), hb1]
        rfl
    · split
      · have hb0 := toNat_ofNat_byte (n := c.toNat / 4096 % 16 + 224) (by omega)
        have hb1 := toNat_ofNat_byte (n := c.toNat / 64 % 64 + 128) (by omega)
        have hb2 := toNat_ofNat_byte (n := c.toNat % 64 + 128) (by omega)
        rw [← hc (((c.toNat / 4096 % 16 + 224 - 0xE0) * 64 + (c.toNat / 64 % 64 + 128 - 0x80)) * 64 +
          (c.toNat % 64 + 128 - 0x80)) (by omega)]
        simp only [List.cons_append, List.nil_append]
        have hbound : (c.toNat / 4096 % 16 + 224 = 0xE0 → 0xA0 ≤ c.toNat / 64 % 64 + 128) ∧
            (c.toNat / 4096 % 16 + 224 = 0xED → c.toNat / 64 % 64 + 128 ≤ 0x9F) := by omega
        have key : ∃ l : Lead, Lead.ofByte? (UInt8.ofNat (c.toNat / 4096 % 16 + 224)) = some l ∧ l.tails = 2 ∧
            l.low.toNat ≤ c.toNat / 64 % 64 + 128 ∧ c.toNat / 64 % 64 + 128 ≤ l.high.toNat ∧
            l.bits = c.toNat / 4096 % 16 + 224 - 0xE0 := by
          rw [Lead.ofByte?_eq, hb0, if_neg (by omega), if_neg (by omega)]
          split
          · exact ⟨_, rfl, rfl, by simp only; omega, by simp only; omega, by simp only; omega⟩
          · split
            · exact ⟨_, rfl, rfl, by simp only; omega, by simp only; omega, by simp only; omega⟩
            · rw [if_pos (by omega)]
              exact ⟨_, rfl, rfl, by simp only; omega, by simp only; omega, by simp only⟩
        obtain ⟨l, hl, ht, hlo, hhi, hbits⟩ := key
        apply head_lead (by omega) hl
        rw [ht, hbits, Tail.collect_cons (by omega) (by omega), hb1, Tail.collect_cons (by omega) (by omega), hb2]
        rfl
      · have hb0 := toNat_ofNat_byte (n := c.toNat / 262144 % 8 + 240) (by omega)
        have hb1 := toNat_ofNat_byte (n := c.toNat / 4096 % 64 + 128) (by omega)
        have hb2 := toNat_ofNat_byte (n := c.toNat / 64 % 64 + 128) (by omega)
        have hb3 := toNat_ofNat_byte (n := c.toNat % 64 + 128) (by omega)
        rw [← hc ((((c.toNat / 262144 % 8 + 240 - 0xF0) * 64 + (c.toNat / 4096 % 64 + 128 - 0x80)) * 64 +
          (c.toNat / 64 % 64 + 128 - 0x80)) * 64 + (c.toNat % 64 + 128 - 0x80)) (by omega)]
        simp only [List.cons_append, List.nil_append]
        have key : ∃ l : Lead, Lead.ofByte? (UInt8.ofNat (c.toNat / 262144 % 8 + 240)) = some l ∧ l.tails = 3 ∧
            l.low.toNat ≤ c.toNat / 4096 % 64 + 128 ∧ c.toNat / 4096 % 64 + 128 ≤ l.high.toNat ∧
            l.bits = c.toNat / 262144 % 8 + 240 - 0xF0 := by
          rw [Lead.ofByte?_eq, hb0, if_neg (by omega), if_neg (by omega), if_neg (by omega), if_neg (by omega),
            if_neg (by omega)]
          split
          · exact ⟨_, rfl, rfl, by simp only; omega, by simp only; omega, by simp only; omega⟩
          · split
            · exact ⟨_, rfl, rfl, by simp only; omega, by simp only; omega, by simp only⟩
            · rw [if_pos (by omega)]
              exact ⟨_, rfl, rfl, by simp only; omega, by simp only; omega, by simp only; omega⟩
        obtain ⟨l, hl, ht, hlo, hhi, hbits⟩ := key
        apply head_lead (by omega) hl
        rw [ht, hbits, Tail.collect_cons (by omega) (by omega), hb1, Tail.collect_cons (by omega) (by omega), hb2,
          Tail.collect_cons (by omega) (by omega), hb3]
        rfl

/-! ## A character that is read is encoded -/

/-- A valid number is the code point of its character. -/
theorem toNat_ofNat_char {n : Nat} (h : n < 0xD800 ∨ 0xDFFF < n ∧ n < 0x110000) : (Char.ofNat n).toNat = n := by
  have hv : n.isValidChar := h
  unfold Char.ofNat
  rw [dif_pos hv]
  rfl

/-- The encoding of the character with a given code point. -/
theorem encodeChar_ofNat {n : Nat} (h : n < 0xD800 ∨ 0xDFFF < n ∧ n < 0x110000) :
    String.utf8EncodeChar (Char.ofNat n) =
      if n ≤ 127 then [UInt8.ofNat n]
      else if n ≤ 2047 then [UInt8.ofNat (n / 64 % 32 + 192), UInt8.ofNat (n % 64 + 128)]
      else if n ≤ 65535 then
        [UInt8.ofNat (n / 4096 % 16 + 224), UInt8.ofNat (n / 64 % 64 + 128), UInt8.ofNat (n % 64 + 128)]
      else
        [UInt8.ofNat (n / 262144 % 8 + 240), UInt8.ofNat (n / 4096 % 64 + 128), UInt8.ofNat (n / 64 % 64 + 128),
          UInt8.ofNat (n % 64 + 128)] := by
  simp only [String.utf8EncodeChar, show (Char.ofNat n).val.toNat = (Char.ofNat n).toNat from rfl, toNat_ofNat_char h]

/-- Three bytes that spell a code point are its encoding. -/
theorem encodeChar_three {x y z : Nat} {b c d : UInt8} (hb : b.toNat = x + 0xE0) (hc : c.toNat = y + 0x80)
    (hd : d.toNat = z + 0x80) (hx : x < 16) (hy : y < 64) (hz : z < 64) (hlo : x = 0 → 32 ≤ y)
    (hsur : x = 13 → y < 32) : String.utf8EncodeChar (Char.ofNat ((x * 64 + y) * 64 + z)) = [b, c, d] := by
  rw [encodeChar_ofNat (by omega), if_neg (by omega), if_neg (by omega), if_pos (by omega)]
  rw [eq_ofNat_byte (b := b) (by omega), eq_ofNat_byte (b := c) (by omega), eq_ofNat_byte (b := d) (by omega)]

/-- Four bytes that spell a code point are its encoding. -/
theorem encodeChar_four {w x y z : Nat} {a b c d : UInt8} (ha : a.toNat = w + 0xF0) (hb : b.toNat = x + 0x80)
    (hc : c.toNat = y + 0x80) (hd : d.toNat = z + 0x80) (hw : w < 5) (hx : x < 64) (hy : y < 64) (hz : z < 64)
    (hlo : w = 0 → 16 ≤ x) (hhi : w = 4 → x < 16) :
    String.utf8EncodeChar (Char.ofNat (((w * 64 + x) * 64 + y) * 64 + z)) = [a, b, c, d] := by
  rw [encodeChar_ofNat (by omega), if_neg (by omega), if_neg (by omega), if_neg (by omega)]
  rw [eq_ofNat_byte (b := a) (by omega), eq_ofNat_byte (b := b) (by omega), eq_ofNat_byte (b := c) (by omega),
    eq_ofNat_byte (b := d) (by omega)]

/-- A first byte together with the bytes it announced is the encoding of the character they spell. -/
theorem eq_encodeChar_of_collect {b : UInt8} {l : Lead} {bs rest : Bytes} {code : Nat}
    (hl : Lead.ofByte? b = some l) (hc : Tail.collect l.tails l.low l.high l.bits bs = .complete code rest) :
    b :: bs = String.utf8EncodeChar (Char.ofNat code) ++ rest := by
  have h80 : (0x80 : UInt8).toNat = 0x80 := rfl
  have hBF : (0xBF : UInt8).toNat = 0xBF := rfl
  have hA0 : (0xA0 : UInt8).toNat = 0xA0 := rfl
  have h9F : (0x9F : UInt8).toNat = 0x9F := rfl
  have h90 : (0x90 : UInt8).toNat = 0x90 := rfl
  have h8F : (0x8F : UInt8).toNat = 0x8F := rfl
  obtain ⟨t, lo, hi, bits⟩ := l
  have hb := b.toNat_lt
  have shape :
      (t = 1 ∧ 0xC2 ≤ b.toNat ∧ b.toNat < 0xE0 ∧ bits = b.toNat - 0xC0 ∧ lo.toNat = 0x80 ∧ hi.toNat = 0xBF) ∨
      (t = 2 ∧ 0xE0 ≤ b.toNat ∧ b.toNat < 0xF0 ∧ bits = b.toNat - 0xE0 ∧ 0x80 ≤ lo.toNat ∧ hi.toNat ≤ 0xBF ∧
        (b.toNat = 0xE0 → lo.toNat = 0xA0) ∧ (b.toNat = 0xED → hi.toNat = 0x9F)) ∨
      (t = 3 ∧ 0xF0 ≤ b.toNat ∧ b.toNat < 0xF5 ∧ bits = b.toNat - 0xF0 ∧ 0x80 ≤ lo.toNat ∧ hi.toNat ≤ 0xBF ∧
        (b.toNat = 0xF0 → lo.toNat = 0x90) ∧ (b.toNat = 0xF4 → hi.toNat = 0x8F)) := by
    rw [Lead.ofByte?_eq] at hl
    repeat' split at hl
    all_goals cases hl
    all_goals omega
  rcases shape with ⟨ht, h1, h2, hbits, hlo, hhi⟩ | ⟨ht, h1, h2, hbits, hlo, hhi, hE0, hED⟩ |
    ⟨ht, h1, h2, hbits, hlo, hhi, hF0, hF4⟩
  all_goals
    simp only [ht] at hc
  · obtain ⟨c, bs', rfl, hcl, hch, hc⟩ := Tail.collect_succ hc
    simp only [Tail.collect, Tail.complete.injEq] at hc
    obtain ⟨rfl, rfl⟩ := hc
    rw [encodeChar_ofNat (by omega), if_neg (by omega), if_pos (by omega),
      eq_ofNat_byte (b := b) (by omega), eq_ofNat_byte (b := c) (by omega)]
    rfl
  · obtain ⟨c, bs', rfl, hcl, hch, hc⟩ := Tail.collect_succ hc
    obtain ⟨d, bs', rfl, hdl, hdh, hc⟩ := Tail.collect_succ hc
    simp only [Tail.collect, Tail.complete.injEq] at hc
    obtain ⟨rfl, rfl⟩ := hc
    rw [encodeChar_three (b := b) (c := c) (d := d) (by omega) (by omega) (by omega) (by omega) (by omega) (by omega)
      (by omega) (by omega)]
    rfl
  · obtain ⟨c, bs', rfl, hcl, hch, hc⟩ := Tail.collect_succ hc
    obtain ⟨d, bs', rfl, hdl, hdh, hc⟩ := Tail.collect_succ hc
    obtain ⟨e, bs', rfl, hel, heh, hc⟩ := Tail.collect_succ hc
    simp only [Tail.collect, Tail.complete.injEq] at hc
    obtain ⟨rfl, rfl⟩ := hc
    rw [encodeChar_four (a := b) (b := c) (c := d) (d := e) (by omega) (by omega) (by omega) (by omega) (by omega)
      (by omega) (by omega) (by omega) (by omega) (by omega)]
    rfl

/-- A character read at the front is encoded there. -/
theorem eq_of_head_whole {bs rest : Bytes} {c : Char} (h : head bs = .whole c rest) :
    bs = String.utf8EncodeChar c ++ rest := by
  cases bs with
  | nil => simp [head] at h
  | cons b bs =>
    simp only [head] at h
    split at h
    · rename_i hb
      rw [UInt8.lt_iff_toNat_lt] at hb
      have h80 : (0x80 : UInt8).toNat = 0x80 := rfl
      cases h
      rw [encodeChar_ofNat (by omega), if_pos (by omega), UInt8.ofNat_toNat]
      rfl
    · split at h
      · cases h
      · rename_i l hl
        split at h
        · rename_i code rest' hc
          cases h
          exact eq_encodeChar_of_collect hl hc
        · cases h
        · cases h

/-! ## More bytes behind a settled symbol -/

/-- A character at the front stays there when bytes are appended. -/
theorem head_append_whole {bs rest : Bytes} {c : Char} (h : head bs = .whole c rest) (more : Bytes) :
    head (bs ++ more) = .whole c (rest ++ more) := by
  rw [eq_of_head_whole h, List.append_assoc]
  exact head_encodeChar c (rest ++ more)

/-- A collection that met a byte out of range meets it whatever is appended. -/
theorem Tail.collect_append_broken {k : Nat} {low high : UInt8} {code : Nat} {bs : Bytes}
    (h : Tail.collect k low high code bs = .broken) (more : Bytes) :
    Tail.collect k low high code (bs ++ more) = .broken := by
  induction k generalizing low high code bs with
  | zero => cases h
  | succ k ih =>
    cases bs with
    | nil => cases h
    | cons b bs =>
      simp only [Tail.collect, List.cons_append] at h ⊢
      split at h
      · rename_i hb
        rw [if_pos hb]
        exact ih h
      · rename_i hb
        rw [if_neg hb]

/-- A stray byte at the front stays one when bytes are appended. -/
theorem head_append_stray {bs rest : Bytes} {b : UInt8} (h : head bs = .stray b rest) (more : Bytes) :
    head (bs ++ more) = .stray b (rest ++ more) := by
  obtain rfl := eq_of_head_stray h
  simp only [head, List.cons_append] at h ⊢
  split at h
  · cases h
  · rename_i hb
    rw [if_neg hb]
    split at h
    · rfl
    · split at h
      · cases h
      · rename_i hc
        rw [Tail.collect_append_broken hc]
      · cases h

/-! ## Characters behind bytes that settle no symbol -/

/-- The first byte of an encoded character is none of those that follow a first byte. -/
theorem exists_encodeChar_eq_cons (c : Char) :
    ∃ b bs, String.utf8EncodeChar c = b :: bs ∧ (b.toNat < 0x80 ∨ 0xBF < b.toNat) := by
  have hvalid := toNat_valid c
  simp only [String.utf8EncodeChar, show c.val.toNat = c.toNat from rfl]
  split
  · refine ⟨_, _, rfl, Or.inl ?_⟩
    rw [toNat_ofNat_byte (by omega)]
    omega
  · split
    · refine ⟨_, _, rfl, Or.inr ?_⟩
      rw [toNat_ofNat_byte (by omega)]
      omega
    · split
      · refine ⟨_, _, rfl, Or.inr ?_⟩
        rw [toNat_ofNat_byte (by omega)]
        omega
      · refine ⟨_, _, rfl, Or.inr ?_⟩
        rw [toNat_ofNat_byte (by omega)]
        omega

/-- The range that a first byte announces for the second lies in that of the following bytes. -/
theorem Lead.low_high {b : UInt8} {l : Lead} (h : Lead.ofByte? b = some l) :
    0x80 ≤ l.low.toNat ∧ l.high.toNat ≤ 0xBF := by
  unfold Lead.ofByte? at h
  repeat' split at h
  all_goals cases h
  all_goals simp only; decide

/-- A collection that ran out of bytes breaks at a byte that is none of the following bytes. -/
theorem Tail.collect_append_short {k : Nat} {low high b : UInt8} {code : Nat} {bs : Bytes} (hlow : 0x80 ≤ low.toNat)
    (hhigh : high.toNat ≤ 0xBF) (h : Tail.collect k low high code bs = .short) (hb : b.toNat < 0x80 ∨ 0xBF < b.toNat)
    (more : Bytes) : Tail.collect k low high code (bs ++ b :: more) = .broken := by
  induction k generalizing low high code bs with
  | zero => cases h
  | succ k ih =>
    cases bs with
    | nil =>
      simp only [Tail.collect, List.nil_append, UInt8.le_iff_toNat_le]
      rw [if_neg (by omega)]
    | cons b' bs =>
      simp only [Tail.collect, List.cons_append] at h ⊢
      split at h
      · rename_i hb'
        rw [if_pos hb']
        exact ih (by decide) (by decide) h
      · cases h

/-- A character behind the beginning of another one makes the first byte of that a stray one. -/
theorem head_append_short {b : UInt8} {bs : Bytes} (h : head (b :: bs) = .short) (c : Char) (more : Bytes) :
    head (b :: (bs ++ (String.utf8EncodeChar c ++ more))) = .stray b (bs ++ (String.utf8EncodeChar c ++ more)) := by
  obtain ⟨first, others, hc, hfirst⟩ := exists_encodeChar_eq_cons c
  rw [hc, List.cons_append]
  simp only [head] at h ⊢
  split at h
  · cases h
  · rename_i hb
    rw [if_neg hb]
    split at h
    · cases h
    · rename_i l hl
      split at h
      · cases h
      · cases h
      · rename_i hshort
        obtain ⟨hlow, hhigh⟩ := Lead.low_high hl
        rw [Tail.collect_append_short hlow hhigh hshort hfirst]

/-! ## Whole texts -/

/-- The first symbol and what is behind it make up the text. -/
theorem eq_of_uncons {bs rest : Bytes} {s : Symbol} (h : uncons bs = some (s, rest)) : bs = s.bytes ++ rest := by
  unfold uncons at h
  split at h
  · rename_i hw
    cases h
    exact eq_of_head_whole hw
  · rename_i hs
    cases h
    exact eq_of_head_stray hs
  · split at h
    · cases h
    · cases h
      rfl

/-- Only the empty text has no first symbol. -/
theorem uncons_eq_none_iff (bs : Bytes) : uncons bs = none ↔ bs = [] := by
  constructor
  · intro h
    unfold uncons at h
    split at h
    · cases h
    · cases h
    · split at h
      · rfl
      · cases h
  · intro h
    rw [h]
    rfl

/-- An encoded character is the first symbol of its text. -/
theorem uncons_encodeChar (c : Char) (rest : Bytes) :
    uncons (String.utf8EncodeChar c ++ rest) = some (.char c, rest) := by
  unfold uncons
  rw [head_encodeChar]

/-- The empty text has no symbols. -/
theorem decode_nil : decode [] = [] := by
  rw [decode]
  rfl

/-- The symbols of a text are the first one and those of the rest. -/
theorem decode_of_uncons {bs rest : Bytes} {s : Symbol} (h : uncons bs = some (s, rest)) :
    decode bs = s :: decode rest := by
  rw [decode]
  split
  · rename_i hn
    rw [hn] at h
    cases h
  · rename_i hs
    rw [hs] at h
    cases h
    rfl

/-- The symbols of a text spell the text. -/
theorem flatMap_bytes_decode (bs : Bytes) : (decode bs).flatMap Symbol.bytes = bs := by
  induction hn : bs.length using Nat.strongRecOn generalizing bs with
  | ind n ih =>
    cases h : uncons bs with
    | none =>
      rw [(uncons_eq_none_iff bs).mp h, decode_nil]
      rfl
    | some p =>
      obtain ⟨s, rest⟩ := p
      rw [decode_of_uncons h, List.flatMap_cons, ih rest.length (hn ▸ length_of_uncons h) rest rfl]
      exact (eq_of_uncons h).symm

/-- Different texts have different symbols. -/
theorem decode_injective {bs cs : Bytes} (h : decode bs = decode cs) : bs = cs := by
  rw [← flatMap_bytes_decode bs, h, flatMap_bytes_decode]

/-- Encoded characters in front of a text are read as themselves. -/
theorem decode_encode_append (cs : List Char) (bs : Bytes) :
    decode (encode cs ++ bs) = cs.map Symbol.char ++ decode bs := by
  induction cs with
  | nil => rfl
  | cons c cs ih =>
    have he : encode (c :: cs) ++ bs = String.utf8EncodeChar c ++ (encode cs ++ bs) := by
      simp [encode]
    rw [he, decode_of_uncons (uncons_encodeChar c _), ih]
    rfl

/-- Reading gives back the characters of a string. -/
theorem decode_encode (cs : List Char) : decode (encode cs) = cs.map Symbol.char := by
  have h := decode_encode_append cs []
  rw [List.append_nil, decode_nil, List.append_nil] at h
  exact h

/-- A character behind a complete text does not change the first symbol of that. -/
theorem uncons_append_encodeChar {bs rest : Bytes} {s : Symbol} (h : uncons bs = some (s, rest)) (c : Char) (more : Bytes) :
    uncons (bs ++ (String.utf8EncodeChar c ++ more)) = some (s, rest ++ (String.utf8EncodeChar c ++ more)) := by
  unfold uncons at h ⊢
  split at h
  · rename_i hw
    cases h
    rw [head_append_whole hw]
  · rename_i hs
    cases h
    rw [head_append_stray hs]
  · rename_i hshort
    split at h
    · cases h
    · cases h
      rw [List.cons_append, head_append_short hshort]

/-- Encoded characters behind a text are read as themselves, whatever the text ends with. -/
theorem decode_append_encode (bs : Bytes) (cs : List Char) :
    decode (bs ++ encode cs) = decode bs ++ cs.map Symbol.char := by
  cases cs with
  | nil => simp [encode]
  | cons c cs =>
    have hcons : encode (c :: cs) = String.utf8EncodeChar c ++ encode cs := List.flatMap_cons
    induction hn : bs.length using Nat.strongRecOn generalizing bs with
    | ind n ih =>
      cases h : uncons bs with
      | none =>
        rw [(uncons_eq_none_iff bs).mp h, decode_nil, List.nil_append, List.nil_append, decode_encode]
      | some p =>
        obtain ⟨s, rest⟩ := p
        have hmore := uncons_append_encodeChar h c (encode cs)
        rw [← hcons] at hmore
        rw [decode_of_uncons hmore, decode_of_uncons h, ih rest.length (hn ▸ length_of_uncons h) rest rfl]
        rfl

end LeadingTerms
