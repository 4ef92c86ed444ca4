import LeadingTerms.Text.Bytes

/-!
# Reading bytes as symbols

A byte text is read from the front as a sequence of symbols. A symbol is a character in its shortest UTF-8 form, or one
byte that belongs to no such form. `head` looks at the front of a text of which more may follow, so it also answers that
the bytes so far are the beginning of a character and nothing more; `uncons` looks at a text that is complete.
-/

namespace LeadingTerms

/-- One step of reading a byte text. -/
inductive Symbol where
  /-- A character that the text encodes. -/
  | char (c : Char)
  /-- A byte that is part of no encoded character. -/
  | stray (b : UInt8)
deriving DecidableEq

namespace Symbol

/-- The bytes that read as the symbol. -/
def bytes : Symbol → Bytes
  | char c => String.utf8EncodeChar c
  | stray b => [b]

end Symbol

/-! ## Characters of more than one byte -/

/-- What a first byte above the one-byte range announces: the number of bytes that must follow, the range of the first of
them, and the high bits of the character. -/
structure Lead where
  tails : Nat
  low : UInt8
  high : UInt8
  bits : Nat

namespace Lead

/-- The announcement that a byte makes. The bytes `C0`, `C1` and those from `F5` begin no character; the narrower ranges
after `E0`, `ED`, `F0` and `F4` exclude overlong forms, surrogates and code points past the last one. -/
def ofByte? (b : UInt8) : Option Lead :=
  if b < 0xC2 then none
  else if b < 0xE0 then some ⟨1, 0x80, 0xBF, b.toNat - 0xC0⟩
  else if b = 0xE0 then some ⟨2, 0xA0, 0xBF, 0x0⟩
  else if b = 0xED then some ⟨2, 0x80, 0x9F, 0xD⟩
  else if b < 0xF0 then some ⟨2, 0x80, 0xBF, b.toNat - 0xE0⟩
  else if b = 0xF0 then some ⟨3, 0x90, 0xBF, 0⟩
  else if b < 0xF4 then some ⟨3, 0x80, 0xBF, b.toNat - 0xF0⟩
  else if b = 0xF4 then some ⟨3, 0x80, 0x8F, 4⟩
  else none

end Lead

/-- The outcome of collecting the bytes that a first byte announced. -/
inductive Tail where
  /-- All of them were there; the code point they spell and the bytes behind them. -/
  | complete (code : Nat) (rest : Bytes)
  /-- A byte out of its range stands where one of them should. -/
  | broken
  /-- The bytes ran out. -/
  | short

/-- Collects `tails` bytes, the first of them in the given range and the others in the full range of following bytes. -/
def Tail.collect : (tails : Nat) → (low high : UInt8) → (code : Nat) → Bytes → Tail
  | 0, _, _, code, bs => .complete code bs
  | _ + 1, _, _, _, [] => .short
  | k + 1, low, high, code, b :: bs =>
    if low ≤ b ∧ b ≤ high then collect k 0x80 0xBF (code * 64 + (b.toNat - 0x80)) bs else .broken

/-! ## The front of a text -/

/-- What stands at the front of a byte text of which more may follow. -/
inductive Head where
  /-- An encoded character, and the bytes behind it. -/
  | whole (c : Char) (rest : Bytes)
  /-- A byte that no continuation turns into a character, and the bytes behind it. -/
  | stray (b : UInt8) (rest : Bytes)
  /-- Nothing, or the beginning of a character whose other bytes have not come yet. -/
  | short

/-- Reads the front of a byte text. -/
def head : Bytes → Head
  | [] => .short
  | b :: bs =>
    if b < 0x80 then .whole (Char.ofNat b.toNat) bs
    else match Lead.ofByte? b with
      | none => .stray b bs
      | some l => match Tail.collect l.tails l.low l.high l.bits bs with
        | .complete code rest => .whole (Char.ofNat code) rest
        | .broken => .stray b bs
        | .short => .short

/-- Whether the bytes already settle their first symbol, whatever follows. -/
def settled (bs : Bytes) : Bool :=
  match head bs with
  | .short => false
  | _ => true

/-- The first symbol of a complete byte text and the bytes behind it. A character cut off by the end of the text is a
stray first byte. -/
def uncons (bs : Bytes) : Option (Symbol × Bytes) :=
  match head bs with
  | .whole c rest => some (.char c, rest)
  | .stray b rest => some (.stray b, rest)
  | .short => match bs with
    | [] => none
    | b :: rest => some (.stray b, rest)

/-! ## Reading always moves on -/

/-- Collecting never lengthens a text. -/
theorem Tail.length_collect {tails : Nat} {low high : UInt8} {code code' : Nat} {bs rest : Bytes}
    (h : Tail.collect tails low high code bs = .complete code' rest) : rest.length ≤ bs.length := by
  induction tails generalizing low high code bs with
  | zero =>
    simp only [Tail.collect, Tail.complete.injEq] at h
    exact h.2 ▸ Nat.le_refl _
  | succ k ih =>
    cases bs with
    | nil => simp [Tail.collect] at h
    | cons b bs =>
      simp only [Tail.collect] at h
      split at h
      · exact Nat.le_succ_of_le (ih h)
      · cases h

/-- A character at the front leaves fewer bytes. -/
theorem length_of_head_whole {bs rest : Bytes} {c : Char} (h : head bs = .whole c rest) :
    rest.length < bs.length := by
  cases bs with
  | nil => simp [head] at h
  | cons b bs =>
    simp only [head] at h
    split at h
    · cases h
      simp
    · split at h
      · cases h
      · split at h
        · rename_i hc
          cases h
          have := Tail.length_collect hc
          simp only [List.length_cons]
          omega
        · cases h
        · cases h

/-- A stray byte at the front is the first byte. -/
theorem eq_of_head_stray {bs rest : Bytes} {b : UInt8} (h : head bs = .stray b rest) : bs = b :: rest := by
  cases bs with
  | nil => simp [head] at h
  | cons b bs =>
    simp only [head] at h
    split at h
    · cases h
    · split at h
      · cases h
        rfl
      · split at h
        · cases h
        · cases h
          rfl
        · cases h

/-- The first symbol takes at least one byte. -/
theorem length_of_uncons {bs rest : Bytes} {s : Symbol} (h : uncons bs = some (s, rest)) :
    rest.length < bs.length := by
  unfold uncons at h
  split at h
  · rename_i hw
    cases h
    exact length_of_head_whole hw
  · rename_i hs
    cases h
    rw [eq_of_head_stray hs]
    simp
  · split at h
    · cases h
    · cases h
      simp

/-! ## Whole texts -/

/-- The symbols of a complete byte text. -/
def decode (bs : Bytes) : List Symbol :=
  match _h : uncons bs with
  | none => []
  | some (s, rest) => s :: decode rest
termination_by bs.length
decreasing_by exact length_of_uncons _h

end LeadingTerms
