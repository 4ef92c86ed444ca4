import LeadingTerms.Round
import LeadingTerms.Proofs.Diagnosis

/-!
# Dialogues one after another

Dialogues can be held one after another on the same input. What one of them takes from the input and what it leaves follows
from the scan alone, so it is the same for every generator, log and output that does not refuse the question. Whether input
comes in whole characters or in single bytes (`Reader`), what is left is the end of what there was. On whole characters a
dialogue takes nothing exactly if there is nothing, or if the first symbol can stand neither in front of a number nor in one
(`Barred`); then no further dialogue gets past it. On single bytes every dialogue takes something, so that the input is used
up after as many dialogues as it has bytes (`Turn.hold_progress`).
-/

namespace LeadingTerms

/-! ## The two ways of reading -/

/-- The ways in which an input comes that ends with the end of input. -/
inductive Reader where
  /-- As whole characters. -/
  | characters
  /-- As single bytes. -/
  | bytes
deriving DecidableEq

namespace Reader

/-- The source of a text, of which nothing has been read yet. -/
def source : Reader → Bytes → Source
  | characters, text => .characters text
  | bytes, text => .ofBytes text .endOfInput

/-- What is left to a later reading if one stops in front of a text: single bytes that were drawn are lost. -/
def left : Reader → Bytes → Bytes
  | characters, text => text
  | bytes, text => text.drop (lookahead text)

/-- A scan finds the same in both ways; what it leaves differs in the bytes that were drawn. -/
theorem scan_source (reader : Reader) {input rest : Bytes} {result : Except ScanError Int64}
    (h : scan (.characters input) = (result, .characters rest)) :
    scan (reader.source input) = (result, reader.source (reader.left rest)) := by
  cases reader with
  | characters => exact h
  | bytes =>
    obtain ⟨taken, rest', -, hrest, hscan⟩ := scan_ofBytes input
    rw [h] at hrest hscan
    cases hrest
    exact hscan

theorem left_suffix (reader : Reader) (text : Bytes) : reader.left text <:+ text := by
  cases reader with
  | characters => exact List.suffix_refl text
  | bytes => exact List.drop_suffix _ text

end Reader

/-- To see the first symbol of a text that has one, a byte must be drawn. -/
theorem lookahead_pos {text : Bytes} (h : text ≠ []) : 0 < lookahead text := by
  rcases isLookahead_lookahead text with ⟨hnil, -⟩ | ⟨-, hleast | ⟨-, hall⟩⟩
  · exact absurd hnil h
  · exact hleast.1.1
  · rw [hall]
    exact List.length_pos_iff.mpr h

/-! ## What a scan takes -/

/-- The first symbol of the text can stand neither in front of a number nor in one: it is no space, no sign, no decimal digit
and no underscore. -/
def Barred (text : Bytes) : Prop :=
  ∃ s after, uncons text = some (s, after) ∧
    ∀ c, s = .char c → isSpace c = false ∧ c ≠ '+' ∧ c ≠ '-' ∧ c ≠ '_' ∧ ∀ d, ¬DigitOf 10 c d

/-- Such a symbol is what a scan refuses at its beginning. -/
theorem barred_iff_halts (text : Bytes) : Barred text ↔ Progress.blank.Halts text .refused := by
  have hstep : ∀ s : Symbol, Progress.blank.step s = none ↔
      ∀ c, s = .char c → isSpace c = false ∧ c ≠ '+' ∧ c ≠ '-' ∧ c ≠ '_' ∧ ∀ d, ¬DigitOf 10 c d := by
    intro s
    cases s with
    | stray b => exact ⟨fun _ => nofun, fun _ => rfl⟩
    | char c =>
      rw [Progress.step_blank_eq_none_iff, not_or, not_exists, and_assoc]
      constructor
      · intro h c' heq
        cases heq
        exact h
      · intro h
        exact h c rfl
  constructor
  · rintro ⟨s, after, hu, hs⟩
    exact ⟨s, after, hu, (hstep s).mpr hs⟩
  · rintro ⟨s, after, hu, hs⟩
    exact ⟨s, after, hu, (hstep s).mp hs⟩

/-- In front of such a symbol a scan finds no integer and takes nothing. -/
theorem scan_of_barred {text : Bytes} (h : Barred text) :
    scan (.characters text) = (.error .notAnInteger, .characters text) := by
  have hstart : Progress.blank.steps [] = some .blank := rfl
  exact Progress.scan_encode_append hstart ((barred_iff_halts text).mp h)

/-- A scan leaves the end of the text, and the whole text exactly if that is empty or barred. -/
theorem scan_characters_left (input : Bytes) :
    ∃ result rest, scan (.characters input) = (result, .characters rest) ∧ rest <:+ input ∧
      (rest = input ↔ input = [] ∨ Barred input) := by
  obtain ⟨cs, rest, p, stop, rfl, hsteps, hhalts⟩ := Progress.exists_advance .blank input
  have hscan := Progress.scan_encode_append hsteps hhalts
  refine ⟨_, rest, hscan, List.suffix_append _ rest, ?_, ?_⟩
  · intro heq
    cases cs with
    | cons c cs =>
      -- The encoding of a character that was taken is not empty.
      have hlength := congrArg List.length heq
      have hpos := String.length_utf8EncodeChar c
      have hsize := Char.utf8Size_pos c
      simp only [encode, List.flatMap_cons, List.length_append] at hlength
      omega
    | nil =>
      cases hsteps
      cases stop with
      | failed message => exact absurd hhalts id
      | ended => exact Or.inl hhalts
      | refused => exact Or.inr ((barred_iff_halts rest).mpr hhalts)
  · rintro (hnil | hbarred)
    · rw [hnil]
      exact (List.append_eq_nil_iff.mp hnil).2
    · rw [scan_of_barred hbarred, Prod.mk.injEq, Source.characters.injEq] at hscan
      exact hscan.2.symm

/-- In both ways a scan leaves the end of the text, and of single bytes it takes at least one, if there is any. -/
theorem Reader.scan_left (reader : Reader) (input : Bytes) :
    ∃ result rest, scan (reader.source input) = (result, reader.source rest) ∧ rest <:+ input ∧
      (reader = .characters → (rest = input ↔ input = [] ∨ Barred input)) ∧
      (reader = .bytes → input ≠ [] → rest.length < input.length) := by
  obtain ⟨result, rest, hscan, hsuffix, hsame⟩ := scan_characters_left input
  refine ⟨result, reader.left rest, reader.scan_source hscan, (reader.left_suffix rest).trans hsuffix, ?_, ?_⟩
  · rintro rfl
    exact hsame
  · rintro rfl hne
    have hlength := hsuffix.length_le
    have hpos := List.length_pos_iff.mpr hne
    rw [left, List.length_drop]
    by_cases hrest : rest = []
    · rw [hrest]
      simpa using hpos
    · have hdrawn := lookahead_pos hrest
      have hsome := List.length_pos_iff.mpr hrest
      omega

/-- Where there is nothing but spaces, a scan takes them all and meets the end of input. -/
theorem Reader.scan_spaces (reader : Reader) {spaces : List Char} (h : ∀ c ∈ spaces, isSpace c = true) :
    scan (reader.source (encode spaces)) = (.error .endOfInput, reader.source []) := by
  have hhalts : Progress.blank.Halts [] .ended := rfl
  have hscan := Progress.scan_encode_append (Progress.steps_spaces h) hhalts
  rw [List.append_nil] at hscan
  have hleft : reader.left [] = [] := by cases reader <;> rfl
  have hsource := reader.scan_source hscan
  rw [hleft] at hsource
  exact hsource

/-! ## Turns -/

/-- A dialogue to be held, with everything it needs but a source. -/
structure Turn where
  generator : Generator
  threshold : Level
  /-- How many chunks the output takes. -/
  limit : Option Nat

namespace Turn

/-- Holds one dialogue. -/
def hold (turn : Turn) (source : Source) : Outcome := Dialogue.outcome turn.generator turn.threshold turn.limit source

/-- Holds dialogues one after another, each on what the one before has left. -/
def holdAll (source : Source) : List Turn → List Outcome
  | [] => []
  | turn :: turns => turn.hold source :: holdAll (turn.hold source).rest turns

/-- What dialogues leave of a source. -/
def after (source : Source) (turns : List Turn) : Source := turns.foldl (fun source turn => (turn.hold source).rest) source

end Turn

/-- The dialogue that a round comes to, if its level and its algorithm are found. -/
def Round.turn (r : Round) : Except Error Turn := do
  let level ← findLevel r.logLevel
  let generator ← r.generator
  return ⟨generator, level, r.limit⟩

/-- Such a round is the dialogue. -/
theorem Round.hold_of_turn {r : Round} {turn : Turn} (h : r.turn = .ok turn) (source : Source) :
    r.hold source = turn.hold source := by
  unfold Round.turn at h
  unfold Round.hold
  cases hlevel : findLevel r.logLevel with
  | error e =>
    rw [hlevel] at h
    cases h
  | ok level =>
    cases hgenerator : r.generator with
    | error e =>
      rw [hlevel, hgenerator] at h
      cases h
    | ok generator =>
      rw [hlevel, hgenerator] at h
      cases h
      rfl

/-- Rounds that come to dialogues are these dialogues, one after another. -/
theorem Round.holdAll_of_turns {rounds : List Round} {turns : List Turn}
    (h : List.Forall₂ (fun r turn => r.turn = .ok turn) rounds turns) (source : Source) :
    Round.holdAll source rounds = Turn.holdAll source turns := by
  induction h generalizing source with
  | nil => rfl
  | cons hturn _ ih =>
    rw [Round.holdAll, Turn.holdAll, Round.hold_of_turn hturn]
    exact congrArg _ (ih _)

namespace Turn

/-- A dialogue of many is held on what those before it have left. -/
theorem getElem?_holdAll (source : Source) (past : List Turn) (turn : Turn) (later : List Turn) :
    (holdAll source (past ++ turn :: later))[past.length]? = some (turn.hold (after source past)) := by
  induction past generalizing source with
  | nil => rfl
  | cons first past ih => exact ih (first.hold source).rest

/-- A dialogue whose question is not refused leaves what its scan leaves. -/
theorem hold_rest {turn : Turn} (h : turn.limit ≠ some 0) (source : Source) : (turn.hold source).rest = (scan source).2 :=
  (Dialogue.outcome_log_rest turn.generator turn.threshold h source).2

/-- A dialogue whose scan fails has written its question and nothing else. -/
theorem hold_of_scan_error {turn : Turn} (h : turn.limit ≠ some 0) {source rest : Source} {e : ScanError}
    (hs : scan source = (.error e, rest)) : turn.hold source = ⟨Dialogue.prompt, [], rest, some (.scan e)⟩ :=
  Dialogue.outcome_of_scan_error turn.generator turn.threshold h hs

/-- What dialogues leave of an input is the end of it, and with every dialogue there is one of the single bytes less. -/
theorem after_source (reader : Reader) (input : Bytes) {turns : List Turn} (h : ∀ turn ∈ turns, turn.limit ≠ some 0) :
    ∃ rest, after (reader.source input) turns = reader.source rest ∧ rest <:+ input ∧
      (reader = .bytes → rest.length ≤ input.length - turns.length) := by
  induction turns generalizing input with
  | nil => exact ⟨input, rfl, List.suffix_refl input, fun _ => Nat.le_refl _⟩
  | cons turn turns ih =>
    obtain ⟨result, next, hscan, hsuffix, -, hless⟩ := reader.scan_left input
    obtain ⟨rest, hafter, hsuffix', hle⟩ := ih next (fun t ht => h t (by simp [ht]))
    have hnext := hold_rest (h turn (by simp)) (reader.source input)
    rw [hscan] at hnext
    refine ⟨rest, ?_, hsuffix'.trans hsuffix, ?_⟩
    · show after (turn.hold (reader.source input)).rest turns = _
      rw [hnext, hafter]
    · intro hbytes
      have hrest := hle hbytes
      have hlength := hsuffix.length_le
      rw [List.length_cons]
      by_cases hinput : input = []
      · rw [hinput] at hlength
        simp only [List.length_nil] at hlength
        omega
      · have hlt := hless hbytes hinput
        omega

/-- In front of a barred text no dialogue gets any further, however many are held. -/
theorem holdAll_of_barred {text : Bytes} (hbarred : Barred text) {turns : List Turn}
    (h : ∀ turn ∈ turns, turn.limit ≠ some 0) :
    ∀ o ∈ holdAll (.characters text) turns,
      o = ⟨Dialogue.prompt, [], .characters text, some (.scan .notAnInteger)⟩ := by
  induction turns with
  | nil => exact nofun
  | cons turn turns ih =>
    have hturn := hold_of_scan_error (h turn (by simp)) (scan_of_barred hbarred)
    intro o ho
    rw [holdAll, hturn, List.mem_cons] at ho
    rcases ho with rfl | ho
    · rfl
    · exact ih (fun t ht => h t (by simp [ht])) o ho

/-- On an input that is used up a dialogue meets the end of input. -/
theorem hold_source_nil {turn : Turn} (h : turn.limit ≠ some 0) (reader : Reader) :
    turn.hold (reader.source []) = ⟨Dialogue.prompt, [], reader.source [], some (.scan .endOfInput)⟩ := by
  have hspaces : ∀ c ∈ ([] : List Char), isSpace c = true := nofun
  exact hold_of_scan_error h (reader.scan_spaces hspaces)

/-- The progress of dialogues that are held one after another on an input and whose questions are not refused. Every dialogue
leaves the end of what it has begun with. On whole characters it leaves all of it exactly if that is nothing or is barred; in
front of a barred text this and all further dialogues write their question only, fail because no integer stands there, and
leave the same. On single bytes every dialogue takes at least one byte, if there is any; so after as many dialogues as the
input has bytes nothing is left, and a further one fails with the end of input. -/
theorem hold_progress (reader : Reader) (input : Bytes) (past : List Turn) (turn : Turn)
    (hlimits : ∀ t ∈ past ++ [turn], t.limit ≠ some 0) :
    ∃ before rest,
      after (reader.source input) past = reader.source before ∧ before <:+ input ∧
      (∀ later, (holdAll (reader.source input) (past ++ turn :: later))[past.length]? =
        some (turn.hold (reader.source before))) ∧
      (turn.hold (reader.source before)).rest = reader.source rest ∧ rest <:+ before ∧
      (reader = .characters →
        (rest = before ↔ before = [] ∨ Barred before) ∧
        (Barred before → ∀ further, (∀ t ∈ further, t.limit ≠ some 0) →
          ∀ o ∈ holdAll (reader.source before) (turn :: further),
            o = ⟨Dialogue.prompt, [], reader.source before, some (.scan .notAnInteger)⟩ ∧
            o.error.map Error.message = some (utf8 "reading number of terms: expected integer"))) ∧
      (reader = .bytes →
        (before ≠ [] → rest.length < before.length) ∧
        (input.length ≤ past.length → before = [] ∧
          turn.hold (reader.source before) = ⟨Dialogue.prompt, [], reader.source [], some (.scan .endOfInput)⟩ ∧
          (turn.hold (reader.source before)).error.map Error.message =
            some (utf8 "reading number of terms: EOF"))) := by
  have hturn : turn.limit ≠ some 0 := hlimits turn (by simp)
  have hpast : ∀ t ∈ past, t.limit ≠ some 0 := fun t ht => hlimits t (by simp [ht])
  obtain ⟨before, hafter, hsuffix, hle⟩ := after_source reader input hpast
  obtain ⟨result, rest, hscan, hrest, hsame, hless⟩ := reader.scan_left before
  refine ⟨before, rest, hafter, hsuffix, ?_, ?_, hrest, ?_, ?_⟩
  · intro later
    rw [getElem?_holdAll, hafter]
  · rw [hold_rest hturn, hscan]
  · rintro rfl
    refine ⟨hsame rfl, ?_⟩
    intro hbarred further hfurther o ho
    have hall : ∀ t ∈ turn :: further, t.limit ≠ some 0 := by
      rw [List.forall_mem_cons]
      exact ⟨hturn, hfurther⟩
    rw [holdAll_of_barred hbarred hall o ho]
    exact ⟨rfl, congrArg some (show (Error.scan .notAnInteger).message = _ by decide)⟩
  · rintro rfl
    refine ⟨hless rfl, ?_⟩
    intro hpast
    have hlength := hle rfl
    have hnil : before = [] := List.eq_nil_of_length_eq_zero (by omega)
    rw [hnil, hold_source_nil hturn]
    exact ⟨rfl, rfl, by decide⟩

/-- Three rounds in front of a letter, under different limits and levels: none of them gets past it. -/
theorem hold_progress_letter :
    Barred (utf8 "x5") ∧
    ∀ o ∈ Round.holdAll (.characters (utf8 "x5"))
        [⟨.named (utf8 "iterative"), utf8 "debug", none⟩, ⟨.table #[7], utf8 "warn", some 1⟩,
          ⟨.named (utf8 "Recursive "), utf8 "info", none⟩],
      o = ⟨Dialogue.prompt, [], .characters (utf8 "x5"), some (.scan .notAnInteger)⟩ := by
  have hbarred : Barred (utf8 "x5") := by
    rw [barred_iff_halts]
    exact ⟨.char 'x', utf8 "5", by decide, by decide⟩
  have hrounds : List.Forall₂ (fun r turn => r.turn = .ok turn)
      [(⟨.named (utf8 "iterative"), utf8 "debug", none⟩ : Round), ⟨.table #[7], utf8 "warn", some 1⟩,
        ⟨.named (utf8 "Recursive "), utf8 "info", none⟩]
      [⟨Algorithm.iterative.generate, .debug, none⟩, ⟨.ofTable #[7], .warning, some 1⟩,
        ⟨Algorithm.recursive.generate, .info, none⟩] := by
    refine .cons ?_ (.cons ?_ (.cons ?_ .nil))
    · cbv
    · cbv
    · cbv
  obtain ⟨before, rest, hafter, -, -, -, -, hcharacters, -⟩ := hold_progress .characters (utf8 "x5") []
    ⟨Algorithm.iterative.generate, .debug, none⟩ (by simp)
  cases hafter
  obtain ⟨-, hstuck⟩ := hcharacters rfl
  refine ⟨hbarred, ?_⟩
  rw [Round.holdAll_of_turns hrounds]
  intro o ho
  exact (hstuck hbarred [⟨.ofTable #[7], .warning, some 1⟩, ⟨Algorithm.recursive.generate, .info, none⟩] (by simp) o ho).1

end Turn

end LeadingTerms
