import LeadingTerms.Text.Symbol

/-!
# Sources of input

Input comes in one of two ways. A source of whole characters hands out one symbol at a time and can take the last one
back. A source of single bytes cannot: whoever looks for a symbol draws bytes until they settle one, and holds what was
drawn too far. What is held belongs to the reading at hand and is lost when that ends. A source of single bytes may also
break down instead of coming to an end.
-/

namespace LeadingTerms

/-- What comes behind the last byte. -/
inductive Ending where
  | endOfInput
  /-- Every further attempt to read fails with the message. -/
  | failure (message : Bytes)
deriving DecidableEq

/-- Input that is still to be read. -/
inductive Source where
  /-- Whole characters, ending with the end of input. -/
  | characters (unread : Bytes)
  /-- Single bytes: those drawn and held, those not yet drawn, and what comes behind them. -/
  | bytewise (held unread : Bytes) (ending : Ending)
deriving DecidableEq

/-- The answer to a look at the next symbol. -/
inductive Look where
  /-- A symbol, the source with the symbol still to be read, and the source past it. -/
  | symbol (s : Symbol) (before after : Source)
  /-- The end of input. -/
  | ended (source : Source)
  /-- The failure of the source. -/
  | failed (message : Bytes) (source : Source)

namespace Source

/-- A source of single bytes of which none is drawn yet. -/
def ofBytes (bytes : Bytes) (ending : Ending) : Source := bytewise [] bytes ending

/-- Draws bytes behind those held until they settle a symbol or no byte is left. -/
def draw (held : Bytes) : Bytes → Bytes × Bytes
  | [] => (held, [])
  | b :: bs => if settled held then (held, b :: bs) else draw (held ++ [b]) bs

/-- Looks at the next symbol. -/
def look : Source → Look
  | characters unread =>
    match uncons unread with
    | none => .ended (characters unread)
    | some (s, rest) => .symbol s (characters unread) (characters rest)
  | bytewise held unread ending =>
    let (held, unread) := draw held unread
    let here := bytewise held unread ending
    match head held with
    | .whole c rest => .symbol (.char c) here (bytewise rest unread ending)
    | .stray b rest => .symbol (.stray b) here (bytewise rest unread ending)
    | .short => match ending with
      | .failure message => .failed message here
      | .endOfInput => match held with
        | [] => .ended here
        | b :: rest => .symbol (.stray b) here (bytewise rest unread ending)

/-- The bytes that a later reading can still get. -/
def unread : Source → Bytes
  | characters u => u
  | bytewise _ u _ => u

/-- The source as a later reading finds it. -/
def released : Source → Source
  | characters u => characters u
  | bytewise _ u e => bytewise [] u e

/-- The number of bytes that the present reading can still get. -/
def size : Source → Nat
  | characters u => u.length
  | bytewise h u _ => h.length + u.length

/-- Drawing moves bytes and loses none. -/
theorem draw_append (held unread : Bytes) : (draw held unread).1 ++ (draw held unread).2 = held ++ unread := by
  induction unread generalizing held with
  | nil => simp [draw]
  | cons b bs ih =>
    simp only [draw]
    split
    · rfl
    · rw [ih]
      simp

/-- A symbol takes at least one byte of the source. -/
theorem size_of_look_symbol {source before after : Source} {s : Symbol}
    (h : source.look = .symbol s before after) : after.size < source.size := by
  cases source with
  | characters u =>
    simp only [look] at h
    split at h
    · cases h
    · rename_i hu
      cases h
      exact length_of_uncons hu
  | bytewise held u ending =>
    have hd := congrArg List.length (draw_append held u)
    simp only [List.length_append] at hd
    simp only [look] at h
    split at h
    · rename_i hw
      cases h
      have := length_of_head_whole hw
      simp only [size]
      omega
    · rename_i hs
      cases h
      have := congrArg List.length (eq_of_head_stray hs)
      simp only [List.length_cons] at this
      simp only [size]
      omega
    · split at h
      · cases h
      · split at h
        · cases h
        · rename_i hb
          cases h
          have := congrArg List.length hb
          simp only [List.length_cons] at this
          simp only [size]
          omega

end Source

end LeadingTerms
