import LeadingTerms.Proofs.Dialogue
import LeadingTerms.Proofs.Source

/-!
# What a dialogue takes from its source

Below its question a dialogue looks at its source once, in the scan; the answer is written without the source
(`Dialogue.indifferent_answer`). So two sources on which the scan finds the same lead to the same dialogue, and differ in
what is left (`Dialogue.outcome_eq_of_scan`). It follows that it makes no difference whether input comes in whole characters
or in single bytes, but for the bytes seen past the number (`Dialogue.outcome_ofBytes`), and that a dialogue on a source that
fails either fails with it or would have gone the same way however the source went on (`Dialogue.outcome_failure`).
-/

namespace LeadingTerms

variable {α β : Type}

/-! ## Actions that do not look at the source -/

/-- The console on another source. -/
def Console.onSource (c : Console) (source : Source) : Console := { c with source := source }

/-- The action does not look at the source: on another one it does the same, and its failure is not that of a scan. -/
structure Indifferent (action : Action α) : Prop where
  same : ∀ c source, action (c.onSource source) = mapConsole (·.onSource source) (action c)
  notScan : ∀ c e, Action.error? action c ≠ some (.scan e)

theorem indifferent_pure (x : α) : Indifferent (pure x : Action α) :=
  ⟨fun _ _ => rfl, fun _ _ => nofun⟩

theorem indifferent_write (chunk : Bytes) : Indifferent (Console.write chunk) := by
  constructor
  · intro c source
    have hsink : (c.onSource source).sink = c.sink := rfl
    unfold Console.write
    rw [hsink]
    cases c.sink.offer chunk <;> rfl
  · intro c e
    unfold Action.error? Console.write
    cases c.sink.offer chunk <;> exact nofun

theorem indifferent_ask (generator : Generator) (i : Int64) : Indifferent (Console.ask generator i) := by
  constructor
  · intro c source
    unfold Console.ask
    cases generator i <;> rfl
  · intro c e
    unfold Action.error? Console.ask
    cases generator i <;> exact nofun

/-- Indifferent actions compose. -/
theorem Indifferent.bind {action : Action α} {next : α → Action β} (ha : Indifferent action)
    (hn : ∀ x, Indifferent (next x)) : Indifferent (action >>= next) := by
  constructor
  · intro c source
    have hsame := ha.same c source
    cases hr : action c with
    | error e c₁ =>
      rw [hr] at hsame
      rw [Action.bind_of_error hr, Action.bind_of_error hsame]
      rfl
    | ok x c₁ =>
      rw [hr] at hsame
      rw [Action.bind_of_ok hr, Action.bind_of_ok hsame]
      exact (hn x).same c₁ source
  · intro c e
    cases hr : action c with
    | error e' c₁ =>
      rw [Action.error?_of_error (Action.bind_of_error hr), ← Action.error?_of_error hr]
      exact ha.notScan c e
    | ok x c₁ =>
      rw [Action.error?_congr (Action.bind_of_ok hr)]
      exact (hn x).notScan c₁ e

namespace Dialogue

theorem indifferent_answer (generator : Generator) (count : Int64) : Indifferent (answer generator count) :=
  answer_of_closed (P := Indifferent) (indifferent_pure ()) (indifferent_ask generator) indifferent_write
    Indifferent.bind count

/-! ## Dialogues by what is scanned -/

section Scanned

variable (generator : Generator) (threshold : Level) {limit : Option Nat} {source : Source}

/-- If the scan fails, a dialogue has written its question and nothing else. -/
theorem outcome_of_scan_error (hlimit : limit ≠ some 0) {e : ScanError} {rest : Source}
    (hs : scan source = (.error e, rest)) :
    outcome generator threshold limit source = ⟨prompt, [], rest, some (.scan e)⟩ := by
  obtain ⟨left, hwrite⟩ := exists_write_prompt hlimit
  have hrun := run_of_scan_error generator threshold (hwrite source) hs
  rw [outcome, Action.ofAction_eq, Action.leaves_of_error hrun, Action.error?_of_error hrun]
  simp [Sink.output]

/-- A dialogue fails for its scan exactly if that fails, and its question was not refused. -/
theorem outcome_error_eq_scan_iff (e : ScanError) :
    (outcome generator threshold limit source).error = some (.scan e) ↔ limit ≠ some 0 ∧ (scan source).1 = .error e := by
  by_cases hlimit : limit = some 0
  · subst hlimit
    simp [outcome_zero_limit]
  rcases hs : scan source with ⟨e' | count, rest⟩
  · rw [outcome_of_scan_error generator threshold hlimit hs]
    simp [hlimit]
  · obtain ⟨left, hwrite⟩ := exists_write_prompt hlimit
    have hrun := run_of_scan_ok generator threshold (hwrite source) hs
    have hnot := (indifferent_answer generator count).notScan
    rw [outcome, Action.ofAction_eq]
    simp only
    rw [Action.error?_congr hrun]
    constructor
    · intro herror
      exact absurd herror (hnot _ e)
    · rintro ⟨-, hok⟩
      cases hok

/-- A dialogue depends on its source only by what is scanned off it and what the scan leaves. -/
theorem outcome_eq_of_scan (hlimit : limit ≠ some 0) {source' : Source} (h : (scan source').1 = (scan source).1) :
    outcome generator threshold limit source' =
      { outcome generator threshold limit source with rest := (scan source').2 } := by
  rcases hs : scan source with ⟨e | count, rest⟩
  · rcases hs' : scan source' with ⟨result, rest'⟩
    rw [hs, hs'] at h
    subst h
    rw [outcome_of_scan_error generator threshold hlimit hs, outcome_of_scan_error generator threshold hlimit hs']
  · rcases hs' : scan source' with ⟨result, rest'⟩
    rw [hs, hs'] at h
    subst h
    obtain ⟨left, hwrite⟩ := exists_write_prompt hlimit
    -- Both dialogues come to their answer on the same console, the source apart.
    let c : Console := ⟨⟨[prompt], left⟩, logged threshold (.ok count), [], rest⟩
    have hrun : run generator threshold (.fresh limit source) = answer generator count c :=
      run_of_scan_ok generator threshold (hwrite source) hs
    have hrun' : run generator threshold (.fresh limit source') = answer generator count (c.onSource rest') :=
      run_of_scan_ok generator threshold (hwrite source') hs'
    obtain ⟨hleaves, herror⟩ := leaves_of_eq_mapConsole ((indifferent_answer generator count).same c rest')
    rw [outcome, outcome, Action.ofAction_eq, Action.ofAction_eq, Action.leaves_congr hrun, Action.leaves_congr hrun',
      Action.error?_congr hrun, Action.error?_congr hrun', hleaves, herror]
    rfl

end Scanned

/-! ## Whole characters and single bytes -/

/-- A dialogue on single bytes is the dialogue on the same bytes as whole characters: it writes and logs the same and has the
same error. If the question is refused, both leave the whole input. Otherwise the source of single bytes has also lost the
bytes that had to be seen to know the first symbol of what the other one leaves, at most four; they stand behind everything
that was taken. -/
theorem outcome_ofBytes (generator : Generator) (threshold : Level) (limit : Option Nat) (input : Bytes) :
    (outcome generator threshold limit (.ofBytes input .endOfInput)).output =
      (outcome generator threshold limit (.characters input)).output ∧
    (outcome generator threshold limit (.ofBytes input .endOfInput)).log =
      (outcome generator threshold limit (.characters input)).log ∧
    (outcome generator threshold limit (.ofBytes input .endOfInput)).error =
      (outcome generator threshold limit (.characters input)).error ∧
    (limit = some 0 →
      (outcome generator threshold limit (.characters input)).rest = .characters input ∧
      (outcome generator threshold limit (.ofBytes input .endOfInput)).rest = .ofBytes input .endOfInput) ∧
    (limit ≠ some 0 → ∃ taken rest j, input = taken ++ rest ∧ IsLookahead rest j ∧ j ≤ 4 ∧
      (outcome generator threshold limit (.characters input)).rest = .characters rest ∧
      (outcome generator threshold limit (.ofBytes input .endOfInput)).rest = .ofBytes (rest.drop j) .endOfInput) := by
  by_cases hlimit : limit = some 0
  · subst hlimit
    rw [outcome_zero_limit, outcome_zero_limit]
    exact ⟨rfl, rfl, rfl, fun _ => ⟨rfl, rfl⟩, fun hne => absurd rfl hne⟩
  · obtain ⟨taken, rest, hinput, hcharacters, hbytes⟩ := scan_ofBytes input
    have hfirst : (scan (.ofBytes input .endOfInput)).1 = (scan (.characters input)).1 := by rw [hbytes]
    have hrest := (outcome_log_rest generator threshold hlimit (.characters input)).2
    rw [outcome_eq_of_scan generator threshold hlimit hfirst]
    refine ⟨rfl, rfl, rfl, fun h => absurd h hlimit, ?_⟩
    intro _
    refine ⟨taken, rest, lookahead rest, hinput, isLookahead_lookahead rest, lookahead_le_four rest, ?_, ?_⟩
    · rw [hrest, hcharacters]
    · rw [hbytes]

/-- Behind the number stand two bytes of a character of three and then a digit, so three bytes have to be seen before it is
known that the first is stray. -/
theorem outcome_ofBytes_cut :
    (none : Option Nat) ≠ some 0 ∧
    (outcome Algorithm.iterative.generate .warning none (.characters [0x33, 0xE2, 0x82, 0x35, 0x36])).rest =
      .characters [0xE2, 0x82, 0x35, 0x36] ∧
    (outcome Algorithm.iterative.generate .warning none (.ofBytes [0x33, 0xE2, 0x82, 0x35, 0x36] .endOfInput)).rest =
      .ofBytes [0x36] .endOfInput := by
  have hscan : (scan (.characters [0x33, 0xE2, 0x82, 0x35, 0x36])).2 = .characters [0xE2, 0x82, 0x35, 0x36] := by cbv
  have hnone : (none : Option Nat) ≠ some 0 := by simp
  have hleft := (outcome_log_rest Algorithm.iterative.generate .warning hnone
    (.characters [0x33, 0xE2, 0x82, 0x35, 0x36])).2
  rw [hscan] at hleft
  obtain ⟨-, -, -, -, hsome⟩ := outcome_ofBytes Algorithm.iterative.generate .warning none [0x33, 0xE2, 0x82, 0x35, 0x36]
  obtain ⟨taken, rest, j, -, hj, -, hcharacters, hbytes⟩ := hsome hnone
  rw [hleft] at hcharacters
  cases hcharacters
  have hthree : lookahead [0xE2, 0x82, 0x35, 0x36] = 3 := by decide
  rw [hj.eq_lookahead, hthree] at hbytes
  exact ⟨hnone, hleft, hbytes⟩

/-! ## Sources that fail -/

/-- A dialogue on a source that fails behind its bytes. Either the scan meets the failure: then the error is that failure,
only the question is written, nothing is logged, and no byte is left. Or the error is another one or none, and the dialogue
would have been the same with any bytes and any ending behind those there were; all that follows would have been left. -/
theorem outcome_failure (generator : Generator) (threshold : Level) (limit : Option Nat) (input message : Bytes) :
    ((outcome generator threshold limit (.ofBytes input (.failure message))).error = some (.scan (.readFailure message)) ∧
      (outcome generator threshold limit (.ofBytes input (.failure message))).error.map Error.message =
        some (utf8 "reading number of terms: " ++ message) ∧
      (outcome generator threshold limit (.ofBytes input (.failure message))).output = prompt ∧
      (outcome generator threshold limit (.ofBytes input (.failure message))).log = [] ∧
      (outcome generator threshold limit (.ofBytes input (.failure message))).rest = .ofBytes [] (.failure message)) ∨
    ((∀ m, (outcome generator threshold limit (.ofBytes input (.failure message))).error ≠ some (.scan (.readFailure m))) ∧
      ∃ rest, (outcome generator threshold limit (.ofBytes input (.failure message))).rest =
          .ofBytes rest (.failure message) ∧
        ∀ more ending, outcome generator threshold limit (.ofBytes (input ++ more) ending) =
          { outcome generator threshold limit (.ofBytes input (.failure message)) with
            rest := .ofBytes (rest ++ more) ending }) := by
  by_cases hlimit : limit = some 0
  · subst hlimit
    refine Or.inr ⟨?_, input, ?_, ?_⟩
    · intro m
      simp [outcome_zero_limit]
    · rw [outcome_zero_limit]
    · intro more ending
      rw [outcome_zero_limit, outcome_zero_limit]
  rcases scan_ofBytes_failure input message with hfailed | ⟨result, rest, hresult, hscan⟩
  · rw [outcome_of_scan_error generator threshold hlimit hfailed]
    exact Or.inl ⟨rfl, rfl, rfl, rfl, rfl⟩
  · have hhere := hscan [] (.failure message)
    rw [List.append_nil, List.append_nil] at hhere
    refine Or.inr ⟨?_, rest, ?_, ?_⟩
    · intro m hm
      rw [outcome_error_eq_scan_iff, hhere] at hm
      exact hresult m hm.2
    · rw [(outcome_log_rest generator threshold hlimit _).2, hhere]
    · intro more ending
      have hsame : (scan (.ofBytes (input ++ more) ending)).1 = (scan (.ofBytes input (.failure message))).1 := by
        rw [hscan, hhere]
      rw [outcome_eq_of_scan generator threshold hlimit hsame, hscan]

end Dialogue

end LeadingTerms
