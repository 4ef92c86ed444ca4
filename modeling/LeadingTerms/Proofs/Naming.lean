import Mathlib.Data.List.Forall2
import Mathlib.Data.List.TakeWhile
import LeadingTerms.Resolve
import LeadingTerms.Text.Encoding

/-!
# Names up to letter case and surrounding spaces

An algorithm is found under its name with any spaces around it and each letter small or capital (`Algorithm.NamedBy`). Of the
letters outside the one-byte range a single one counts, the dotted capital of `i`: it is the only character past that range
whose small form is a letter of a name (`lowerChar_eq_iff`). Bytes that are part of no character are neither letters nor
spaces, so a text with such a byte is no name.
-/

namespace LeadingTerms

/-! ## Letters -/

theorem isUpper_iff (c : Char) : c.isUpper = true ↔ 65 ≤ c.toNat ∧ c.toNat ≤ 90 := decide_eq_true_iff

theorem isLower_iff (c : Char) : c.isLower = true ↔ 97 ≤ c.toNat ∧ c.toNat ≤ 122 := by
  have hbounds : c.isLower = true ↔ decide (97 ≤ c.toNat) = true ∧ decide (c.toNat ≤ 122) = true := Bool.and_eq_true_iff
  rw [hbounds, decide_eq_true_iff, decide_eq_true_iff]

/-- The capital of a small letter stands 32 places in front of it. -/
theorem toNat_toUpper {letter : Char} (h : letter.isLower = true) : letter.toUpper.toNat + 32 = letter.toNat := by
  rw [isLower_iff] at h
  have hrange : 'a'.val ≤ letter.val ∧ letter.val ≤ 'z'.val := by
    rw [UInt32.le_iff_toNat_le, UInt32.le_iff_toNat_le]
    exact h
  unfold Char.toUpper
  rw [dif_pos hrange]
  show (letter.val + ('A'.val - 'a'.val)).toNat + 32 = letter.toNat
  rw [UInt32.toNat_add, show letter.val.toNat = letter.toNat from rfl,
    show ('A'.val - 'a'.val).toNat = 2 ^ 32 - 32 from rfl]
  omega

/-- The character stands for a small letter: it is the letter, its capital, or for `i` the dotted capital. -/
def CaseOf (letter c : Char) : Prop := c = letter ∨ c = letter.toUpper ∨ letter = 'i' ∧ c = '\u0130'

/-- The characters whose lower-case form is a given small letter other than `k`, which the Kelvin sign has too. -/
theorem lowerChar_eq_iff {letter c : Char} (hl : letter.isLower = true) (hk : letter ≠ 'k') :
    lowerChar c = letter ↔ CaseOf letter c := by
  have hupper := toNat_toUpper hl
  rw [isLower_iff] at hl
  have hi : 'i'.toNat = 105 := rfl
  have hdotted : '\u0130'.toNat = 304 := rfl
  have hkelvin : 'k'.toNat = 107 := rfl
  rw [ne_eq, ← Char.toNat_inj] at hk
  unfold lowerChar CaseOf
  simp only [← Char.toNat_inj]
  split
  · rename_i hc
    rw [isUpper_iff] at hc
    rw [toNat_ofNat_char (by omega)]
    omega
  · rename_i hc
    rw [isUpper_iff] at hc
    split
    · omega
    · split
      · omega
      · omega

/-- A symbol becomes a letter by lower-casing exactly if it is a character that stands for the letter. -/
theorem Symbol.lower_eq_char_iff {letter : Char} {s : Symbol} (hl : letter.isLower = true) (hk : letter ≠ 'k') :
    s.lower = .char letter ↔ ∃ c, s = .char c ∧ CaseOf letter c := by
  cases s with
  | stray b => simp [Symbol.lower]
  | char c => simp [Symbol.lower, lowerChar_eq_iff hl hk]

/-- A character that stands for a letter is no space. -/
theorem CaseOf.isSpace_eq_false {letter c : Char} (h : CaseOf letter c) (hl : letter.isLower = true) :
    isSpace c = false := by
  have hupper := toNat_toUpper hl
  rw [isLower_iff] at hl
  have hrange : 65 ≤ c.toNat ∧ c.toNat ≤ 90 ∨ 97 ≤ c.toNat ∧ c.toNat ≤ 122 ∨ c.toNat = 304 := by
    rcases h with rfl | rfl | ⟨-, rfl⟩
    · exact Or.inr (Or.inl hl)
    · exact Or.inl (by omega)
    · exact Or.inr (Or.inr rfl)
  rw [← Bool.not_eq_true]
  unfold isSpace
  simp only [Bool.or_eq_true, Bool.and_eq_true, decide_eq_true_eq, beq_iff_eq]
  omega

/-! ## Spelling -/

/-- The letters of a name: small ones, and no `k` among them. -/
def PlainLetters (letters : List Char) : Prop := ∀ letter ∈ letters, letter.isLower = true ∧ letter ≠ 'k'

/-- Symbols become letters by lower-casing exactly if they are characters that stand for them one by one. -/
theorem map_lower_eq_iff {letters : List Char} (h : PlainLetters letters) (symbols : List Symbol) :
    symbols.map Symbol.lower = letters.map Symbol.char ↔
      ∃ cs, symbols = cs.map Symbol.char ∧ List.Forall₂ CaseOf letters cs := by
  induction letters generalizing symbols with
  | nil => simp [List.forall₂_nil_left_iff]
  | cons letter letters ih =>
    obtain ⟨hl, hk⟩ := h letter (by simp)
    have hrest : PlainLetters letters := fun l hmem => h l (by simp [hmem])
    constructor
    · intro heq
      cases symbols with
      | nil => simp at heq
      | cons s symbols =>
        simp only [List.map_cons, List.cons.injEq] at heq
        obtain ⟨c, rfl, hc⟩ := (Symbol.lower_eq_char_iff hl hk).mp heq.1
        obtain ⟨cs, rfl, hcs⟩ := (ih hrest symbols).mp heq.2
        exact ⟨c :: cs, rfl, .cons hc hcs⟩
    · rintro ⟨cs, rfl, hcs⟩
      cases hcs with
      | cons hc hcs =>
        have htail := (ih hrest _).mpr ⟨_, rfl, hcs⟩
        simp only [List.map_cons, List.cons.injEq]
        exact ⟨(Symbol.lower_eq_char_iff hl hk).mpr ⟨_, rfl, hc⟩, htail⟩

/-- Characters that stand for the letters of a name are no spaces. -/
theorem not_isSpace_of_caseOf {letters cs : List Char} (h : PlainLetters letters) (hcs : List.Forall₂ CaseOf letters cs) :
    ∀ c ∈ cs, isSpace c = false := by
  induction hcs with
  | nil => simp
  | @cons letter c letters cs hc hcs ih =>
    intro c' hmem
    rcases List.mem_cons.mp hmem with rfl | hmem
    · exact hc.isSpace_eq_false (h letter (by simp)).1
    · exact ih (fun l hl => h l (by simp [hl])) c' hmem

/-! ## Trimming -/

/-- Spaces around symbols are trimmed away. -/
theorem trimmed_append {before after : List Symbol} (hbefore : ∀ s ∈ before, s.isSpace = true)
    (hafter : ∀ s ∈ after, s.isSpace = true) (symbols : List Symbol) :
    trimmed (before ++ symbols ++ after) = trimmed symbols := by
  have hreverse : ∀ s ∈ after.reverse, s.isSpace = true := by
    intro s hs
    exact hafter s (List.mem_reverse.mp hs)
  have hdropped : after.dropWhile Symbol.isSpace = [] := List.dropWhile_eq_nil_iff.mpr hafter
  unfold trimmed
  rw [List.append_assoc, List.dropWhile_append_of_pos hbefore, List.dropWhile_append]
  split
  · rename_i hempty
    -- Nothing but spaces in between, so the spaces at the end go with those at the front.
    rw [List.isEmpty_iff.mp hempty, hdropped]
  · rw [List.reverse_append, List.dropWhile_append_of_pos hreverse]

/-- What is trimmed away is spaces at both ends. -/
theorem exists_eq_append_trimmed (symbols : List Symbol) :
    ∃ before after, symbols = before ++ trimmed symbols ++ after ∧ (∀ s ∈ before, s.isSpace = true) ∧
      ∀ s ∈ after, s.isSpace = true := by
  have hback := congrArg List.reverse
    (List.takeWhile_append_dropWhile (p := Symbol.isSpace) (l := (symbols.dropWhile Symbol.isSpace).reverse))
  rw [List.reverse_append, List.reverse_reverse] at hback
  refine ⟨symbols.takeWhile Symbol.isSpace,
    ((symbols.dropWhile Symbol.isSpace).reverse.takeWhile Symbol.isSpace).reverse, ?_, ?_, ?_⟩
  · rw [List.append_assoc, trimmed, hback, List.takeWhile_append_dropWhile]
  · intro s hs
    exact List.mem_takeWhile_imp hs
  · intro s hs
    exact List.mem_takeWhile_imp (List.mem_reverse.mp hs)

/-- Symbols without a space among them stay as they are. -/
theorem trimmed_of_not_isSpace {symbols : List Symbol} (h : ∀ s ∈ symbols, s.isSpace = false) :
    trimmed symbols = symbols := by
  have hdrop : ∀ l : List Symbol, (∀ s ∈ l, s.isSpace = false) → l.dropWhile Symbol.isSpace = l := by
    intro l hl
    cases l with
    | nil => rfl
    | cons s l => simp [hl s (by simp)]
  unfold trimmed
  rw [hdrop symbols h, hdrop symbols.reverse (by simpa using h), List.reverse_reverse]

/-- Space symbols are space characters. -/
theorem exists_spaces {symbols : List Symbol} (h : ∀ s ∈ symbols, s.isSpace = true) :
    ∃ cs : List Char, symbols = cs.map Symbol.char ∧ ∀ c ∈ cs, isSpace c = true := by
  induction symbols with
  | nil => exact ⟨[], rfl, by simp⟩
  | cons s symbols ih =>
    obtain ⟨cs, rfl, hcs⟩ := ih fun s' hs' => h s' (by simp [hs'])
    have hs := h s (by simp)
    cases s with
    | stray b => cases hs
    | char c =>
      refine ⟨c :: cs, rfl, ?_⟩
      intro c' hc'
      rcases List.mem_cons.mp hc' with rfl | hc'
      · exact hs
      · exact hcs c' hc'

/-- Space characters are space symbols. -/
theorem isSpace_of_mem_map {cs : List Char} (h : ∀ c ∈ cs, isSpace c = true) : ∀ s ∈ cs.map Symbol.char, s.isSpace = true := by
  intro s hs
  obtain ⟨c, hc, rfl⟩ := List.mem_map.mp hs
  exact h c hc

/-! ## Names of algorithms -/

namespace Algorithm

/-- The text is the name of the algorithm, with spaces around it and its letters in any case. -/
def NamedBy (a : Algorithm) (text : Bytes) : Prop :=
  ∃ before core after : List Char, text = encode before ++ encode core ++ encode after ∧
    (∀ c ∈ before, isSpace c = true) ∧ (∀ c ∈ after, isSpace c = true) ∧ List.Forall₂ CaseOf a.name.toList core

theorem plainLetters_name (a : Algorithm) : PlainLetters a.name.toList := by
  unfold PlainLetters
  cases a <;> simp [name]

/-- No text spells both names, so the order in which they are tried does not matter. -/
theorem ofName?_eq_some_iff_spells (text : Bytes) (a : Algorithm) :
    ofName? text = some a ↔ spells a.name (trimmed (decode text)) = true := by
  have hboth : ¬(spells recursive.name (trimmed (decode text)) = true ∧
      spells iterative.name (trimmed (decode text)) = true) := by
    rintro ⟨hr, hi⟩
    have hr := eq_of_beq hr
    have hi := eq_of_beq hi
    rw [hr] at hi
    revert hi
    decide
  unfold ofName?
  by_cases hr : spells recursive.name (trimmed (decode text)) = true
  · have hi : ¬spells iterative.name (trimmed (decode text)) = true := fun hi => hboth ⟨hr, hi⟩
    cases a <;> simp [hr, hi]
  · by_cases hi : spells iterative.name (trimmed (decode text)) = true
    · cases a <;> simp [hr, hi]
    · cases a <;> simp [hr, hi]

/-- An algorithm is found under its names and no other text. -/
theorem ofName?_eq_some_iff_namedBy (text : Bytes) (a : Algorithm) : ofName? text = some a ↔ a.NamedBy text := by
  have hspells : spells a.name (trimmed (decode text)) = true ↔
      ∃ cs, trimmed (decode text) = cs.map Symbol.char ∧ List.Forall₂ CaseOf a.name.toList cs := by
    rw [spells, beq_iff_eq, map_lower_eq_iff a.plainLetters_name]
  rw [ofName?_eq_some_iff_spells, hspells]
  constructor
  · rintro ⟨core, hcore, hletters⟩
    obtain ⟨before, after, htext, hbefore, hafter⟩ := exists_eq_append_trimmed (decode text)
    obtain ⟨before, rfl, hspaces⟩ := exists_spaces hbefore
    obtain ⟨after, rfl, hspaces'⟩ := exists_spaces hafter
    refine ⟨before, core, after, ?_, hspaces, hspaces', hletters⟩
    rw [hcore, ← List.map_append, ← List.map_append, ← decode_encode] at htext
    rw [decode_injective htext, encode_append, encode_append]
  · rintro ⟨before, core, after, rfl, hbefore, hafter, hletters⟩
    refine ⟨core, ?_, hletters⟩
    have hplain : ∀ s ∈ core.map Symbol.char, s.isSpace = false := by
      intro s hs
      obtain ⟨c, hc, rfl⟩ := List.mem_map.mp hs
      exact not_isSpace_of_caseOf a.plainLetters_name hletters c hc
    rw [← encode_append, ← encode_append, decode_encode, List.map_append, List.map_append,
      trimmed_append (isSpace_of_mem_map hbefore) (isSpace_of_mem_map hafter), trimmed_of_not_isSpace hplain]

/-- Spaces around a text do not change which algorithm is found, whatever bytes the text consists of. -/
theorem ofName?_of_spaces {before after : List Char} (hbefore : ∀ c ∈ before, isSpace c = true)
    (hafter : ∀ c ∈ after, isSpace c = true) (text : Bytes) :
    ofName? (encode before ++ text ++ encode after) = ofName? text := by
  unfold ofName?
  rw [decode_append_encode, decode_encode_append,
    trimmed_append (isSpace_of_mem_map hbefore) (isSpace_of_mem_map hafter)]

end Algorithm

/-- An algorithm is found under a text exactly if the text is its name up to letter case and surrounding spaces, `i` having
the dotted capital besides its own. A text that is no name is an error that shows the text. Spaces around a text, which may
be any bytes, change nothing: the same algorithm is found, or none in both cases. -/
theorem findAlgorithm_namedBy (text : Bytes) :
    (∀ a : Algorithm, findAlgorithm text = .ok a ↔ a.NamedBy text) ∧
    ((∀ a : Algorithm, ¬a.NamedBy text) → findAlgorithm text = .error (.unknownAlgorithm text)) ∧
    ∀ before after : List Char, (∀ c ∈ before, isSpace c = true) → (∀ c ∈ after, isSpace c = true) →
      (∀ a : Algorithm, findAlgorithm (encode before ++ text ++ encode after) = .ok a ↔ findAlgorithm text = .ok a) ∧
      ((∃ e, findAlgorithm (encode before ++ text ++ encode after) = .error e) ↔ ∃ e, findAlgorithm text = .error e) := by
  refine ⟨?_, ?_, ?_⟩
  · intro a
    exact found_eq_ok_iff.trans (Algorithm.ofName?_eq_some_iff_namedBy text a)
  · intro hnone
    refine found_eq_error_iff.mpr ⟨?_, rfl⟩
    rw [Option.eq_none_iff_forall_ne_some]
    intro a ha
    exact hnone a ((Algorithm.ofName?_eq_some_iff_namedBy text a).mp ha)
  · intro before after hbefore hafter
    have hsame := Algorithm.ofName?_of_spaces hbefore hafter text
    refine ⟨?_, ?_⟩
    · intro a
      rw [findAlgorithm, findAlgorithm, found_eq_ok_iff, found_eq_ok_iff, hsame]
    · simp only [findAlgorithm, found_eq_error_iff, hsame, exists_and_left, exists_eq, and_true]

/-- The dotted capital counts as an `i`, and an ideographic space as a space; a zero-width space does not. -/
theorem findAlgorithm_namedBy_dotted :
    findAlgorithm (utf8 "\tRecurs\u0130ve\u3000") = .ok .recursive ∧
    findAlgorithm (utf8 "\u200brecursive") = .error (.unknownAlgorithm (utf8 "\u200brecursive")) := by
  obtain ⟨hnamed, hnone, -⟩ := findAlgorithm_namedBy (utf8 "\u200brecursive")
  obtain ⟨-, -, hspaces⟩ := findAlgorithm_namedBy (utf8 "Recurs\u0130ve")
  obtain ⟨hfound, -⟩ := hspaces ['\t'] ['\u3000'] (by simp [isSpace]) (by simp [isSpace])
  refine ⟨(hfound .recursive).mpr (by decide +kernel), hnone ?_⟩
  intro a ha
  have hok := (hnamed a).mpr ha
  revert hok
  cases a <;> decide +kernel

end LeadingTerms
