import LeadingTerms.Proofs.Decimal
import LeadingTerms.Proofs.Turns

/-!
# Numbers one after another

Numbers can be written one behind the other with spaces between them (`dictated`). A scan finds the first of them and leaves
spaces and the others: on single bytes the character that was drawn to see the end of the number is lost, but that character
is a space (`scan_dictated`). So dialogues that are held one after another find one number each, and answer it as if it had
stood alone; the dialogue behind the last number meets the end of input (`Turn.holdAll_dictated`).
-/

namespace LeadingTerms

/-! ## Texts of numbers -/

/-- The decimal numerals of numbers, each with what stands behind it, and what stands in front of them all. -/
def dictated (lead : List Char) (entries : List (Int64 × List Char)) : Bytes :=
  encode lead ++ entries.flatMap fun entry => signedDecimal entry.1.toInt ++ encode entry.2

/-- Nothing but spaces stands in front of the numbers and behind each of them, and some behind each but the last. -/
structure Spaced (lead : List Char) (entries : List (Int64 × List Char)) : Prop where
  lead : ∀ c ∈ lead, isSpace c = true
  gaps : ∀ entry ∈ entries, ∀ c ∈ entry.2, isSpace c = true
  parted : ∀ entry ∈ entries.dropLast, entry.2 ≠ []

/-- The text behind a number begins with the spaces that part it from the next. -/
theorem dictated_cons (lead gap : List Char) (v : Int64) (entries : List (Int64 × List Char)) :
    dictated lead ((v, gap) :: entries) = encode lead ++ signedDecimal v.toInt ++ dictated gap entries := by
  simp [dictated]

theorem dictated_lead_cons (c : Char) (lead : List Char) (entries : List (Int64 × List Char)) :
    dictated (c :: lead) entries = String.utf8EncodeChar c ++ dictated lead entries := by
  simp [dictated, encode]

namespace Spaced

variable {lead gap : List Char} {v : Int64} {entries : List (Int64 × List Char)}

/-- Behind the first number its spaces stand in front of the others. -/
theorem behind (h : Spaced lead ((v, gap) :: entries)) : Spaced gap entries := by
  refine ⟨h.gaps (v, gap) (by simp), fun entry hentry => h.gaps entry (by simp [hentry]), ?_⟩
  intro entry hentry
  cases entries with
  | nil => cases hentry
  | cons next entries => exact h.parted entry (List.mem_cons_of_mem _ hentry)

/-- A number with no space behind it is the last. -/
theorem last_of_gap_nil (h : Spaced lead ((v, []) :: entries)) : entries = [] := by
  cases entries with
  | nil => rfl
  | cons next entries => exact absurd rfl (h.parted (v, []) (by simp))

/-- A space in front may be missing. -/
theorem tail (h : Spaced lead entries) : Spaced lead.tail entries :=
  ⟨fun c hc => h.lead c (List.mem_of_mem_tail hc), h.gaps, h.parted⟩

end Spaced

/-! ## Scans -/

/-- The bytes of one character are drawn to see it. -/
theorem lookahead_encodeChar (c : Char) (rest : Bytes) :
    lookahead (String.utf8EncodeChar c ++ rest) = (String.utf8EncodeChar c).length := by
  rw [lookahead, Source.draw_encodeChar]

/-- On whole characters a scan finds the first number and leaves the spaces behind it and the others. -/
theorem scan_characters_dictated {lead gap : List Char} {v : Int64} {entries : List (Int64 × List Char)}
    (h : Spaced lead ((v, gap) :: entries)) :
    scan (.characters (dictated lead ((v, gap) :: entries))) = (.ok v, .characters (dictated gap entries)) := by
  obtain ⟨l, ht, hvalue, hchars⟩ := Literal.exists_of_signedDecimal v
  refine (Progress.scan_ok_iff_literal _ _ v).mpr ⟨lead, l, ?_, h.lead, ht, hvalue, ?_⟩
  · rw [dictated_cons, encode_append, hchars]
  · intro c after hu
    cases gap with
    | nil =>
      rw [h.last_of_gap_nil] at hu
      cases hu
    | cons space gap =>
      rw [dictated_lead_cons, uncons_encodeChar] at hu
      cases hu
      exact l.push?_of_isSpace (h.behind.lead c (by simp))

/-- In both ways a scan finds the first number and leaves spaces and the others. -/
theorem scan_dictated (reader : Reader) {lead gap : List Char} {v : Int64} {entries : List (Int64 × List Char)}
    (h : Spaced lead ((v, gap) :: entries)) :
    ∃ lead', Spaced lead' entries ∧
      scan (reader.source (dictated lead ((v, gap) :: entries))) = (.ok v, reader.source (dictated lead' entries)) := by
  have hscan := reader.scan_source (scan_characters_dictated h)
  cases reader with
  | characters => exact ⟨gap, h.behind, hscan⟩
  | bytes =>
    -- What is lost with the character that ends the number is the first space, if there is one.
    have hleft : Reader.bytes.left (dictated gap entries) = dictated gap.tail entries := by
      cases gap with
      | nil =>
        rw [h.last_of_gap_nil]
        rfl
      | cons space gap => rw [dictated_lead_cons, Reader.left, lookahead_encodeChar, List.drop_left, List.tail_cons]
    rw [hleft] at hscan
    exact ⟨gap.tail, h.behind.tail, hscan⟩

/-- A number that stands alone is found. -/
theorem scan_signedDecimal (reader : Reader) (v : Int64) : (scan (reader.source (signedDecimal v.toInt))).1 = .ok v := by
  have hspaced : Spaced [] [(v, [])] := by
    constructor <;> simp
  have halone : dictated [] [(v, [])] = signedDecimal v.toInt := by
    simp [dictated, encode]
  obtain ⟨lead', -, hscan⟩ := scan_dictated reader hspaced
  rw [halone] at hscan
  rw [hscan]

/-! ## Dialogues -/

namespace Turn

/-- A dialogue on numbers is, but for what it leaves, the dialogue on the first of them alone. -/
theorem hold_dictated_cons (reader : Reader) {turn : Turn} (hlimit : turn.limit ≠ some 0) {lead gap : List Char} {v : Int64}
    {entries : List (Int64 × List Char)} (h : Spaced lead ((v, gap) :: entries)) :
    ∃ rest, turn.hold (reader.source (dictated lead ((v, gap) :: entries))) =
      { turn.hold (reader.source (signedDecimal v.toInt)) with rest := rest } := by
  obtain ⟨lead', -, hscan⟩ := scan_dictated reader h
  have hsame : (scan (reader.source (dictated lead ((v, gap) :: entries)))).1 =
      (scan (reader.source (signedDecimal v.toInt))).1 := by
    rw [hscan, scan_signedDecimal]
  exact ⟨_, Dialogue.outcome_eq_of_scan turn.generator turn.threshold hlimit hsame⟩

/-- A dialogue without a limit succeeds on a number below which its generator gives all terms, and has written the whole
answer to it. -/
theorem hold_of_gives {turn : Turn} (hlimit : turn.limit = none) {source : Source} {v : Int64} {terms : Nat → UInt64}
    (hscan : (scan source).1 = .ok v) (hgives : turn.generator.Gives v terms) :
    (turn.hold source).error = none ∧
      (turn.hold source).output = Dialogue.prompt ++ (Dialogue.answerChunks terms v).flatten := by
  have hcount : ∀ count, (scan source).1 = .ok count → turn.generator.Gives count terms := by
    intro count hok
    rw [hscan] at hok
    cases hok
    exact hgives
  rw [hold, hlimit, Dialogue.outcome_unlimited turn.threshold source hcount, hscan]
  exact ⟨rfl, rfl⟩

/-- Dialogues take one number each. -/
theorem after_dictated (reader : Reader) {lead : List Char} {entries : List (Int64 × List Char)} (h : Spaced lead entries)
    {past : List Turn} (hlimits : ∀ turn ∈ past, turn.limit ≠ some 0) (hlength : past.length ≤ entries.length) :
    ∃ lead', Spaced lead' (entries.drop past.length) ∧
      after (reader.source (dictated lead entries)) past = reader.source (dictated lead' (entries.drop past.length)) := by
  induction past generalizing lead entries with
  | nil => exact ⟨lead, h, rfl⟩
  | cons turn past ih =>
    cases entries with
    | nil => cases hlength
    | cons entry entries =>
      obtain ⟨next, hnext, hscan⟩ := scan_dictated reader h
      have hrest := hold_rest (hlimits turn (by simp)) (reader.source (dictated lead (entry :: entries)))
      rw [hscan] at hrest
      obtain ⟨lead', hspaced, hafter⟩ := ih hnext (fun t ht => hlimits t (by simp [ht])) (Nat.le_of_succ_le_succ hlength)
      refine ⟨lead', hspaced, ?_⟩
      show after (turn.hold (reader.source (dictated lead (entry :: entries)))).rest past = _
      rw [hrest]
      exact hafter

/-- Which dialogue is held on which number. -/
theorem getElem?_holdAll_dictated (reader : Reader) {lead : List Char} {entries : List (Int64 × List Char)}
    (h : Spaced lead entries) {turns : List Turn} (hlimits : ∀ turn ∈ turns, turn.limit ≠ some 0) {i : Nat} {turn : Turn}
    (hturn : turns[i]? = some turn) (hi : i ≤ entries.length) :
    ∃ lead', Spaced lead' (entries.drop i) ∧
      (holdAll (reader.source (dictated lead entries)) turns)[i]? =
        some (turn.hold (reader.source (dictated lead' (entries.drop i)))) := by
  obtain ⟨hlt, rfl⟩ := List.getElem?_eq_some_iff.mp hturn
  have hlength : (turns.take i).length = i := List.length_take_of_le hlt.le
  have hpast : ∀ turn ∈ turns.take i, turn.limit ≠ some 0 := fun turn ht => hlimits turn (List.mem_of_mem_take ht)
  obtain ⟨lead', hspaced, hafter⟩ := after_dictated reader h hpast (by omega)
  have hget := getElem?_holdAll (reader.source (dictated lead entries)) (turns.take i) turns[i] (turns.drop (i + 1))
  rw [List.getElem_cons_drop, List.take_append_drop, hafter, hlength] at hget
  rw [hlength] at hspaced
  exact ⟨lead', hspaced, hget⟩

/-- Dialogues without a limit that are held one after another on numbers with spaces between them, one dialogue more than
there are numbers. Each of the first ones writes, logs and fails or succeeds exactly as on its own number alone; with a
generator that gives all terms below the number it succeeds, having written the whole answer to that number. The last one
writes its question only and fails with the end of input. -/
theorem holdAll_dictated (reader : Reader) {lead : List Char} {entries : List (Int64 × List Char)}
    (hspaced : Spaced lead entries) {turns : List Turn} (hlength : turns.length = entries.length + 1)
    (hlimits : ∀ turn ∈ turns, turn.limit = none) :
    (∀ (i : Nat) (turn : Turn) (v : Int64) (gap : List Char), turns[i]? = some turn → entries[i]? = some (v, gap) →
      ∃ o, (holdAll (reader.source (dictated lead entries)) turns)[i]? = some o ∧
        o.output = (turn.hold (reader.source (signedDecimal v.toInt))).output ∧
        o.log = (turn.hold (reader.source (signedDecimal v.toInt))).log ∧
        o.error = (turn.hold (reader.source (signedDecimal v.toInt))).error ∧
        ∀ terms, turn.generator.Gives v terms →
          o.error = none ∧ o.output = Dialogue.prompt ++ (Dialogue.answerChunks terms v).flatten) ∧
    ∃ o, (holdAll (reader.source (dictated lead entries)) turns)[entries.length]? = some o ∧
      o.output = Dialogue.prompt ∧ o.log = [] ∧ o.error = some (.scan .endOfInput) ∧
      o.error.map Error.message = some (utf8 "reading number of terms: EOF") := by
  have hunrefused : ∀ turn ∈ turns, turn.limit ≠ some 0 := by
    intro turn hturn
    rw [hlimits turn hturn]
    exact nofun
  constructor
  · intro i turn v gap hturn hentry
    have hmem : turn ∈ turns := List.mem_of_getElem? hturn
    obtain ⟨hlt, hget⟩ := List.getElem?_eq_some_iff.mp hentry
    obtain ⟨lead', hrest, hheld⟩ := getElem?_holdAll_dictated reader hspaced hunrefused hturn hlt.le
    rw [List.drop_eq_getElem_cons hlt, hget] at hrest hheld
    obtain ⟨rest, hsame⟩ := hold_dictated_cons reader (hunrefused turn hmem) hrest
    rw [hsame] at hheld
    exact ⟨_, hheld, rfl, rfl, rfl, fun terms => hold_of_gives (hlimits turn hmem) (scan_signedDecimal reader v)⟩
  · have hlt : entries.length < turns.length := by omega
    obtain ⟨lead', hrest, hheld⟩ := getElem?_holdAll_dictated reader hspaced hunrefused
      (List.getElem?_eq_getElem hlt) (Nat.le_refl _)
    rw [List.drop_length] at hrest hheld
    have hspaces : dictated lead' [] = encode lead' := by simp [dictated]
    rw [hspaces, hold_of_scan_error (hunrefused _ (List.getElem_mem hlt)) (reader.scan_spaces hrest.lead)] at hheld
    exact ⟨_, hheld, rfl, rfl, rfl, congrArg some (show (Error.scan .endOfInput).message = _ by decide)⟩

/-- The smallest number behind an ideographic space, of whose three bytes none is left when it comes to be read. -/
theorem holdAll_dictated_smallest :
    Spaced ['\t'] [(3, ['\u3000']), (Int64.minValue, [])] ∧
    ∃ first second last,
      holdAll (.ofBytes (utf8 "\t3\u3000-9223372036854775808") .endOfInput)
        [⟨Algorithm.iterative.generate, .warning, none⟩, ⟨.ofTable #[7], .debug, none⟩,
          ⟨Algorithm.recursive.generate, .info, none⟩] = [first, second, last] ∧
      first.error = none ∧
      first.output = utf8 "Enter the number of terms: Fibonacci Sequence up to 3 terms:\n0 1 1 \n" ∧
      second.error = none ∧
      second.output = utf8 "Enter the number of terms: Please enter a positive integer.\n" ∧
      last.error.map Error.message = some (utf8 "reading number of terms: EOF") ∧
      last.output = utf8 "Enter the number of terms: " := by
  have hspaced : Spaced ['\t'] [(3, ['\u3000']), (Int64.minValue, [])] := by
    refine ⟨?_, ?_, ?_⟩ <;> simp <;> decide
  have htext : utf8 "\t3\u3000-9223372036854775808" = dictated ['\t'] [(3, ['\u3000']), (Int64.minValue, [])] := by
    decide +kernel
  have hlimits : ∀ turn ∈ ([⟨Algorithm.iterative.generate, .warning, none⟩, ⟨.ofTable #[7], .debug, none⟩,
      ⟨Algorithm.recursive.generate, .info, none⟩] : List Turn), turn.limit = none := by simp
  obtain ⟨heach, last, hlast, houtput, -, -, hmessage⟩ := holdAll_dictated .bytes hspaced rfl hlimits
  obtain ⟨first, hfirst, -, -, -, hanswer⟩ := heach 0 _ _ _ rfl rfl
  obtain ⟨second, hsecond, -, -, -, hnotice⟩ := heach 1 _ _ _ rfl rfl
  obtain ⟨herror, hwritten⟩ := hanswer wordFib (Algorithm.iterative.generate_gives 3)
  obtain ⟨herror', hwritten'⟩ := hnotice _ (Generator.ofTable_gives #[7] Int64.minValue)
  cases hfirst
  cases hsecond
  cases hlast
  rw [htext]
  exact ⟨hspaced, _, _, _, rfl, herror, hwritten.trans (by decide +kernel), herror', hwritten'.trans (by decide +kernel),
    hmessage, houtput⟩

end Turn

end LeadingTerms
