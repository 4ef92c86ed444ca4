import LeadingTerms.Proofs.Decimal
import LeadingTerms.Proofs.Turns

/-!
# What can be read off an output

The output of a dialogue that was answered with terms tells the count and the terms: the header holds the count, and the last
line holds the terms as numerals with a blank behind each (`Dialogue.splitOn_answered`). So the output of a shorter answer
goes on to that of a longer one, up to the end of the line.

Whether an answer is complete can be read off too. The chunks of a dialogue that has failed are those of one that has only
begun (`Dialogue.Begun`), those of one that has succeeded are a finished dialogue (`Dialogue.Finished`), and the two differ in
their ends of lines (`Dialogue.Begun.flatten_ne`).
-/

namespace LeadingTerms

/-- The last line of a text all of whose lines are ended. -/
def lastLine (text : Bytes) : Bytes := (text.splitOn 0x0A).dropLast.getLastD []

namespace Dialogue

/-! ## Ends of lines -/

/-- A number has no end of line in it. -/
theorem newline_not_mem_signedDecimal (z : Int) : (0x0A : UInt8) ∉ signedDecimal z := by
  intro h
  rcases mem_signedDecimal h with heq | ⟨hlo, -⟩
  · cases heq
  · exact absurd hlo (by decide)

/-- A term on its line has no end of line in it. -/
theorem newline_not_mem_termChunk (term : UInt64) : (0x0A : UInt8) ∉ termChunk term := by
  intro h
  rcases List.mem_append.mp h with h | h
  · exact absurd (mem_decimal h).1 (by decide)
  · cases List.mem_singleton.mp h

theorem newline_not_mem_termChunks (terms : List UInt64) : (0x0A : UInt8) ∉ (terms.map termChunk).flatten := by
  intro h
  obtain ⟨chunk, hchunk, h⟩ := List.mem_flatten.mp h
  obtain ⟨term, -, rfl⟩ := List.mem_map.mp hchunk
  exact newline_not_mem_termChunk term h

/-- The header without its end of line. -/
def headline (count : Int64) : Bytes :=
  utf8 "Fibonacci Sequence up to " ++ signedDecimal count.toInt ++ utf8 " terms:"

theorem header_eq (count : Int64) : header count = headline count ++ [0x0A] := by
  have hend : utf8 " terms:\n" = utf8 " terms:" ++ [0x0A] := rfl
  rw [header, headline, hend]
  simp only [List.append_assoc]

theorem newline_not_mem_headline (count : Int64) : (0x0A : UInt8) ∉ headline count := by
  intro h
  rcases List.mem_append.mp h with h | h
  · rcases List.mem_append.mp h with h | h
    · exact absurd h (by decide +kernel)
    · exact newline_not_mem_signedDecimal _ h
  · exact absurd h (by decide +kernel)

theorem newline_not_mem_prompt : (0x0A : UInt8) ∉ prompt := by decide +kernel

theorem count_newline_header (count : Int64) : (header count).count 0x0A = 1 := by
  rw [header_eq, List.count_append, List.count_eq_zero.mpr (newline_not_mem_headline count)]
  rfl

/-! ## Outputs with terms -/

/-- Between the blanks on a line of numerals with a blank behind each stand the numerals, and nothing behind the last one. -/
theorem splitOn_numerals (ns : List Nat) :
    (ns.flatMap fun n => decimal n ++ utf8 " ").splitOn 0x20 = ns.map decimal ++ [[]] := by
  induction ns with
  | nil => rfl
  | cons n ns ih =>
    have hblank : (0x20 : UInt8) ∉ decimal n := by
      intro h
      exact absurd (mem_decimal h).1 (by decide)
    have hcons : ((n :: ns).flatMap fun n => decimal n ++ utf8 " ") =
        decimal n ++ 0x20 :: (ns.flatMap fun n => decimal n ++ utf8 " ") := by
      rw [List.flatMap_cons, List.append_assoc]
      rfl
    rw [hcons, List.splitOn_append_cons_self_of_not_mem hblank, ih]
    rfl

/-- So it is with terms on their line. -/
theorem splitOn_termChunks (terms : List UInt64) :
    (terms.map termChunk).flatten.splitOn 0x20 = (terms.map fun term => decimal term.toNat) ++ [[]] := by
  have hnumerals := splitOn_numerals (terms.map UInt64.toNat)
  rw [List.flatMap_map, List.map_map] at hnumerals
  exact hnumerals

/-- The first terms on their line. -/
def termsText (terms : Nat → UInt64) (n : Nat) : Bytes := (((List.range n).map terms).map termChunk).flatten

/-- The output of a dialogue that was answered with terms: a line that ends with the header, and the line of terms. -/
def answered (terms : Nat → UInt64) (count : Int64) : Bytes :=
  prompt ++ headline count ++ 0x0A :: (termsText terms count.toNatClampNeg ++ [0x0A])

theorem flatten_chunks_eq_answered (terms : Nat → UInt64) {count : Int64} (h : 0 < count) :
    (chunks terms (.ok count)).flatten = answered terms count := by
  have hnewline : newline = [0x0A] := rfl
  rw [chunks, answerChunks, if_neg (Int64.not_le.mpr h), answered, termsText, header_eq, hnewline, List.map_map]
  simp [Function.comp_def]

/-- Such an output has two lines. -/
theorem splitOn_answered (terms : Nat → UInt64) (count : Int64) :
    (answered terms count).splitOn 0x0A = [prompt ++ headline count, termsText terms count.toNatClampNeg, []] := by
  have hfirst : (0x0A : UInt8) ∉ prompt ++ headline count := by
    intro h
    rcases List.mem_append.mp h with h | h
    · exact newline_not_mem_prompt h
    · exact newline_not_mem_headline count h
  rw [answered, termsText, List.splitOn_append_cons_self_of_not_mem hfirst,
    List.splitOn_append_cons_self_of_not_mem (newline_not_mem_termChunks _)]
  rfl

theorem lastLine_answered (terms : Nat → UInt64) (count : Int64) :
    lastLine (answered terms count) = termsText terms count.toNatClampNeg := by
  rw [lastLine, splitOn_answered]
  rfl

theorem splitOn_termsText (terms : Nat → UInt64) (n : Nat) :
    (termsText terms n).splitOn 0x20 = ((List.range n).map fun i => decimal (terms i).toNat) ++ [[]] := by
  rw [termsText, splitOn_termChunks, List.map_map]
  rfl

/-- Lines of as many terms are the same exactly if the terms are. -/
theorem termsText_eq_iff (terms terms' : Nat → UInt64) (n : Nat) :
    termsText terms n = termsText terms' n ↔ ∀ i < n, terms i = terms' i := by
  constructor
  · intro h i hi
    have hsplit := congrArg (List.splitOn 0x20) h
    rw [splitOn_termsText, splitOn_termsText] at hsplit
    have hnumeral := List.map_inj_left.mp (List.append_cancel_right hsplit) i (List.mem_range.mpr hi)
    exact UInt64.toNat_inj.mp (decimal_injective hnumeral)
  · intro h
    have hterms : (List.range n).map terms = (List.range n).map terms' := by
      apply List.map_congr_left
      intro i hi
      exact h i (List.mem_range.mp hi)
    rw [termsText, termsText, hterms]

/-- Outputs with terms are the same exactly if counts and terms are. -/
theorem answered_eq_iff (terms terms' : Nat → UInt64) (count count' : Int64) :
    answered terms count = answered terms' count' ↔ count = count' ∧ ∀ i < count.toNatClampNeg, terms i = terms' i := by
  constructor
  · intro h
    have hsplit := congrArg (List.splitOn 0x0A) h
    rw [splitOn_answered, splitOn_answered] at hsplit
    simp only [List.cons.injEq, and_true] at hsplit
    obtain ⟨hheadline, hterms⟩ := hsplit
    unfold headline at hheadline
    have hcount := List.append_cancel_left (List.append_cancel_right (List.append_cancel_left hheadline))
    obtain rfl := Int64.toInt_inj.mp (signedDecimal_injective hcount)
    exact ⟨rfl, (termsText_eq_iff terms terms' _).mp hterms⟩
  · rintro ⟨rfl, hterms⟩
    rw [answered, answered, (termsText_eq_iff terms terms' _).mpr hterms]

/-- Fewer terms are the beginning of more terms. -/
theorem termsText_isPrefix (terms : Nat → UInt64) {m n : Nat} (h : m ≤ n) : termsText terms m <+: termsText terms n := by
  obtain ⟨k, rfl⟩ := Nat.exists_eq_add_of_le h
  unfold termsText
  rw [List.range_add, List.map_append, List.map_append, List.flatten_append]
  exact List.prefix_append _ _

/-! ## Dialogues that were cut short -/

/-- The chunks of a dialogue that has not come to its end. -/
inductive Begun : List Bytes → Prop where
  | nothing : Begun []
  | asked : Begun [prompt]
  | answering (count : Int64) (terms : List UInt64) : Begun (prompt :: header count :: terms.map termChunk)

/-- The chunks of a dialogue that has come to its end. -/
inductive Finished : List Bytes → Prop where
  | noticed : Finished [prompt, notice]
  | answered (count : Int64) (terms : List UInt64) :
      Finished (prompt :: header count :: (terms.map termChunk ++ [newline]))

/-- A beginning of a dialogue that has begun is one. -/
theorem Begun.take {chunks : List Bytes} (h : Begun chunks) (k : Nat) : Begun (chunks.take k) := by
  cases h with
  | nothing =>
    rw [List.take_nil]
    exact .nothing
  | asked =>
    rcases k with _ | k
    · exact .nothing
    · rw [List.take_succ_cons, List.take_nil]
      exact .asked
  | answering count terms =>
    rcases k with _ | _ | k
    · exact .nothing
    · exact .asked
    · rw [List.take_succ_cons, List.take_succ_cons, ← List.map_take]
      exact .answering count (terms.take k)

/-- A finished dialogue without its last chunks has only begun. -/
theorem Finished.take {chunks : List Bytes} (h : Finished chunks) {k : Nat} (hk : k < chunks.length) :
    Begun (chunks.take k) := by
  cases h with
  | noticed =>
    rcases k with _ | _ | k
    · exact .nothing
    · exact .asked
    · simp at hk
  | answered count terms =>
    have hbegun := (Begun.answering count terms).take k
    have hle : k ≤ (prompt :: header count :: terms.map termChunk).length := by
      simp only [List.length_cons, List.length_append, List.length_nil] at hk ⊢
      omega
    rw [← List.cons_append, ← List.cons_append, List.take_append_of_le_length hle]
    exact hbegun

/-- A finished dialogue has ended a line. -/
theorem Finished.count_newline_pos {chunks : List Bytes} (h : Finished chunks) : 0 < chunks.flatten.count 0x0A := by
  cases h with
  | noticed => decide +kernel
  | answered count terms =>
    simp only [List.flatten_cons, List.count_append, count_newline_header]
    omega

/-- Nobody takes a dialogue that has only begun for a finished one. -/
theorem Begun.flatten_ne {chunks chunks' : List Bytes} (h : Begun chunks) (h' : Finished chunks') :
    chunks.flatten ≠ chunks'.flatten := by
  intro heq
  have hprompt : prompt.count 0x0A = 0 := List.count_eq_zero.mpr newline_not_mem_prompt
  have hpos := h'.count_newline_pos
  rw [← heq] at hpos
  cases h with
  | nothing => simp at hpos
  | asked => simp [hprompt] at hpos
  | answering count terms =>
    cases h' with
    | noticed =>
      -- As many ends of lines, but the header and the notice begin differently.
      have hanswer := List.append_cancel_left heq
      have hheader : (header count ++ (terms.map termChunk).flatten).head? = some 0x46 := rfl
      rw [List.flatten_cons] at hanswer
      rw [hanswer] at hheader
      revert hheader
      decide +kernel
    | answered count' terms' =>
      -- The end of the line of terms is missing.
      have hcount := congrArg (List.count 0x0A) heq
      have hnewline : newline.count 0x0A = 1 := rfl
      have hterms : (terms.map termChunk).flatten.count 0x0A = 0 := List.count_eq_zero.mpr (newline_not_mem_termChunks terms)
      simp only [List.flatten_cons, List.flatten_append, List.flatten_nil, List.count_append, hprompt, count_newline_header,
        hterms, List.append_nil, hnewline] at hcount
      omega

/-- Without a limit the line of terms is written as far as the generator gives terms. -/
theorem writeTerms_sink (generator : Generator) (count i : Int64) (c : Console) (hc : c.sink.left = none) :
    ∃ terms : List UInt64, (Action.leaves (writeTerms generator count i) c).sink =
      ⟨(terms.map termChunk).reverse ++ c.sink.chunks, none⟩ := by
  have hsame : c.sink = ⟨c.sink.chunks, none⟩ := by
    rw [← hc]
  induction i using writeTerms.induct count generalizing c with
  | case1 i h ih =>
    rw [writeTerms, dif_pos h]
    cases hg : generator i with
    | error fault =>
      have hask := Console.ask_of_error (c := c) hg
      rw [Action.leaves_of_error (Action.bind_of_error hask)]
      exact ⟨[], hsame⟩
    | ok term =>
      have hask := Console.ask_of_ok (c := c) hg
      have hwrite := write_of_left_none (c := { c with asked := i :: c.asked }) hc (termChunk term)
      obtain ⟨terms, hterms⟩ := ih { c with sink := ⟨termChunk term :: c.sink.chunks, none⟩, asked := i :: c.asked } rfl rfl
      refine ⟨term :: terms, ?_⟩
      rw [Action.leaves_congr (Action.bind_of_ok hask), Action.leaves_congr (Action.bind_of_ok hwrite), hterms]
      simp
  | case2 i h =>
    rw [writeTerms, dif_neg h]
    exact ⟨[], hsame⟩

/-- Behind the question, an answer that succeeds finishes the dialogue and one that fails leaves it begun. -/
theorem answer_shape (generator : Generator) (count : Int64) {c : Console} (hc : c.sink = ⟨[prompt], none⟩) :
    (Action.error? (answer generator count) c = none →
      Finished (Action.leaves (answer generator count) c).sink.chunks.reverse) ∧
    (Action.error? (answer generator count) c ≠ none →
      Begun (Action.leaves (answer generator count) c).sink.chunks.reverse) := by
  have hleft : c.sink.left = none := by
    rw [hc]
  unfold answer
  split
  · have hwrite := write_of_left_none hleft notice
    rw [Action.leaves_of_ok hwrite, Action.error?_of_ok hwrite, hc]
    exact ⟨fun _ => .noticed, fun h => absurd rfl h⟩
  · have hheader := write_of_left_none hleft (header count)
    rw [Action.leaves_congr (Action.bind_of_ok hheader), Action.error?_congr (Action.bind_of_ok hheader), hc]
    obtain ⟨terms, hterms⟩ := writeTerms_sink generator count 0 { c with sink := ⟨[header count, prompt], none⟩ } rfl
    cases hresult : writeTerms generator count 0 { c with sink := ⟨[header count, prompt], none⟩ } with
    | error e c₁ =>
      rw [Action.leaves_of_error hresult] at hterms
      rw [Action.leaves_of_error (Action.bind_of_error hresult), Action.error?_of_error (Action.bind_of_error hresult),
        hterms]
      refine ⟨fun h => absurd h (Option.some_ne_none _), fun _ => ?_⟩
      simpa using Begun.answering count terms
    | ok _ c₁ =>
      rw [Action.leaves_of_ok hresult] at hterms
      have hnewline := write_of_left_none (c := c₁) (by rw [hterms]) newline
      rw [Action.leaves_congr (Action.bind_of_ok hresult), Action.error?_congr (Action.bind_of_ok hresult),
        Action.leaves_of_ok hnewline, Action.error?_of_ok hnewline, hterms]
      refine ⟨fun _ => ?_, fun h => absurd rfl h⟩
      simpa using Finished.answered count terms

/-- Without a limit, a dialogue that succeeds is finished and one that fails has only begun, whatever the generator. -/
theorem written_shape (generator : Generator) (threshold : Level) (source : Source) :
    ((outcome generator threshold none source).error = none → Finished (written generator threshold source)) ∧
      ((outcome generator threshold none source).error ≠ none → Begun (written generator threshold source)) := by
  have hwrite : Console.write prompt (.fresh none source) = .ok () ⟨⟨[prompt], none⟩, [], [], source⟩ := rfl
  rw [outcome, Action.ofAction_eq, written]
  rcases hs : scan source with ⟨e | count, rest⟩
  · have hrun := run_of_scan_error generator threshold hwrite hs
    rw [Action.leaves_of_error hrun, Action.error?_of_error hrun]
    exact ⟨fun h => absurd h (Option.some_ne_none _), fun _ => .asked⟩
  · have hrun := run_of_scan_ok generator threshold hwrite hs
    rw [Action.leaves_congr hrun, Action.error?_congr hrun]
    exact answer_shape generator count rfl

/-- Without a limit no chunk is refused. -/
theorem outcome_none_not_refused (generator : Generator) (threshold : Level) (source : Source) :
    (outcome generator threshold none source).error ≠ some .writeRefused := by
  rw [outcome, Action.ofAction_eq]
  exact (meteredBy_written generator threshold source).notRefused

/-- If no chunk was refused, a dialogue has written what it writes without a limit, and ends as it does without one. -/
theorem outcome_of_not_refused {generator : Generator} {threshold : Level} {limit : Option Nat} {source : Source}
    (h : (outcome generator threshold limit source).error ≠ some .writeRefused) :
    (outcome generator threshold limit source).output = (written generator threshold source).flatten ∧
      (outcome generator threshold limit source).error = (outcome generator threshold none source).error := by
  cases limit with
  | none =>
    rw [outcome, Action.ofAction_eq]
    exact ⟨rfl, rfl⟩
  | some k =>
    obtain ⟨houtput, herror⟩ := outcome_some_limit generator threshold source k
    have hk : ¬k < (written generator threshold source).length := by
      intro hlt
      rw [herror, if_pos hlt] at h
      exact h rfl
    rw [houtput, herror, if_neg hk, List.take_of_length_le (Nat.not_lt.mp hk)]
    exact ⟨rfl, rfl⟩

/-- A dialogue that succeeds has written all of a finished one, and one that fails, for whatever reason, the chunks of one
that has only begun. -/
theorem outcome_shape (generator : Generator) (threshold : Level) (limit : Option Nat) (source : Source) :
    ((outcome generator threshold limit source).error = none →
      ∃ chunks, Finished chunks ∧ (outcome generator threshold limit source).output = chunks.flatten) ∧
    ((outcome generator threshold limit source).error ≠ none →
      ∃ chunks, Begun chunks ∧ (outcome generator threshold limit source).output = chunks.flatten) := by
  obtain ⟨hfinished, hbegun⟩ := written_shape generator threshold source
  by_cases hrefused : (outcome generator threshold limit source).error = some .writeRefused
  · rw [hrefused]
    refine ⟨fun h => absurd h (Option.some_ne_none _), fun _ => ?_⟩
    cases limit with
    | none => exact absurd hrefused (outcome_none_not_refused generator threshold source)
    | some k =>
      obtain ⟨houtput, herror⟩ := outcome_some_limit generator threshold source k
      refine ⟨(written generator threshold source).take k, ?_, houtput⟩
      -- The chunks up to the one refused are a beginning of those of a dialogue that is not refused any.
      by_cases hunlimited : (outcome generator threshold none source).error = none
      · have hlt : k < (written generator threshold source).length := by
          by_contra hk
          rw [herror, if_neg hk, hunlimited] at hrefused
          cases hrefused
        exact (hfinished hunlimited).take hlt
      · exact (hbegun hunlimited).take k
  · obtain ⟨houtput, herror⟩ := outcome_of_not_refused hrefused
    rw [herror]
    exact ⟨fun h => ⟨_, hfinished h, houtput⟩, fun h => ⟨_, hbegun h, houtput⟩⟩

end Dialogue

/-! ## Two dialogues -/

namespace Turn

/-- A dialogue in which no chunk is refused scans a positive count, and its generator gives these terms below the count. -/
structure Completes (turn : Turn) (source : Source) (count : Int64) (terms : Nat → UInt64) : Prop where
  scanned : (scan source).1 = .ok count
  positive : 0 < count
  gives : turn.generator.Gives count terms
  unrefused : (turn.hold source).error ≠ some .writeRefused

/-- Such a dialogue was answered with the terms. -/
theorem Completes.output_eq {turn : Turn} {source : Source} {count : Int64} {terms : Nat → UInt64}
    (h : turn.Completes source count terms) : (turn.hold source).output = Dialogue.answered terms count := by
  have hwritten := Dialogue.written_of_gives turn.threshold h.scanned h.gives
  rw [hold, (Dialogue.outcome_of_not_refused h.unrefused).1, hwritten, Dialogue.flatten_chunks_eq_answered terms h.positive]

/-- What the output of dialogues tells. Two dialogues that were answered with terms, none of their chunks being refused, have
the same output exactly if they have the same count and the same terms below it. The last line of such an output, split at
its blanks, is as many decimal numerals as the count says, which stand for the terms in order, and an empty piece. With the
same terms, the last line for a smaller count is the beginning of that for a greater one. And the output of a dialogue that
has failed, because a chunk was refused or the scan failed or for any other reason, is not that of one that has succeeded,
whatever the inputs and the generators of the two. -/
theorem hold_output_decodable :
    (∀ (turn turn' : Turn) (source source' : Source) (count count' : Int64) (terms terms' : Nat → UInt64),
      turn.Completes source count terms → turn'.Completes source' count' terms' →
      ((turn.hold source).output = (turn'.hold source').output ↔
        count = count' ∧ ∀ i < count.toNatClampNeg, terms i = terms' i)) ∧
    (∀ (turn : Turn) (source : Source) (count : Int64) (terms : Nat → UInt64), turn.Completes source count terms →
      ∃ numerals : List Bytes, (lastLine (turn.hold source).output).splitOn 0x20 = numerals ++ [[]] ∧
        numerals.length = count.toNatClampNeg ∧
        numerals = (List.range count.toNatClampNeg).map (fun i => decimal (terms i).toNat) ∧
        numerals.map decimalValue? = (List.range count.toNatClampNeg).map fun i => some (terms i).toNat) ∧
    (∀ (turn turn' : Turn) (source source' : Source) (count count' : Int64) (terms : Nat → UInt64),
      turn.Completes source count terms → turn'.Completes source' count' terms → count ≤ count' →
      lastLine (turn.hold source).output <+: lastLine (turn'.hold source').output) ∧
    ∀ (turn turn' : Turn) (source source' : Source), (turn.hold source).error ≠ none → (turn'.hold source').error = none →
      (turn.hold source).output ≠ (turn'.hold source').output := by
  refine ⟨?_, ?_, ?_, ?_⟩
  · intro turn turn' source source' count count' terms terms' h h'
    rw [h.output_eq, h'.output_eq, Dialogue.answered_eq_iff]
  · intro turn source count terms h
    refine ⟨(List.range count.toNatClampNeg).map fun i => decimal (terms i).toNat, ?_, by simp, rfl, ?_⟩
    · rw [h.output_eq, Dialogue.lastLine_answered, Dialogue.splitOn_termsText]
    · rw [List.map_map]
      apply List.map_congr_left
      intro i _
      exact decimalValue?_decimal _
  · intro turn turn' source source' count count' terms h h' hle
    have hnat : count.toNatClampNeg ≤ count'.toNatClampNeg := by
      rw [Int64.le_iff_toInt_le] at hle
      rw [← Int64.toNat_toInt, ← Int64.toNat_toInt]
      exact Int.toNat_le_toNat hle
    rw [h.output_eq, h'.output_eq, Dialogue.lastLine_answered, Dialogue.lastLine_answered]
    exact Dialogue.termsText_isPrefix terms hnat
  · intro turn turn' source source' herror hnone
    obtain ⟨chunks, hbegun, houtput⟩ :=
      (Dialogue.outcome_shape turn.generator turn.threshold turn.limit source).2 herror
    obtain ⟨chunks', hfinished, houtput'⟩ :=
      (Dialogue.outcome_shape turn'.generator turn'.threshold turn'.limit source').1 hnone
    rw [hold, hold, houtput, houtput']
    exact hbegun.flatten_ne hfinished

/-- The algorithms and a table of the same terms, the answer to another spelling of the count, are not told apart. A table that
begins with the greatest term there is tells it, and more terms of it go on from fewer. An output that refuses the end of the
line shows. -/
theorem hold_output_decodable_greatest :
    (hold ⟨Algorithm.iterative.generate, .debug, none⟩ (.characters (utf8 "2"))).output =
      (hold ⟨.ofTable #[0, 1], .warning, some 5⟩ (.ofBytes (utf8 "+2") .endOfInput)).output ∧
    (∃ numerals, (lastLine (hold ⟨.ofTable #[18446744073709551615, 7], .info, none⟩ (.characters (utf8 "2"))).output).splitOn
        0x20 = numerals ++ [[]] ∧ numerals.map decimalValue? = [some 18446744073709551615, some 7]) ∧
    lastLine (hold ⟨.ofTable #[18446744073709551615, 7], .info, none⟩ (.characters (utf8 "1"))).output <+:
      lastLine (hold ⟨.ofTable #[18446744073709551615, 7], .info, none⟩ (.characters (utf8 "2"))).output ∧
    (hold ⟨.ofTable #[0, 1], .warning, some 4⟩ (.characters (utf8 "2"))).output ≠
      (hold ⟨.ofTable #[0, 1], .warning, some 5⟩ (.ofBytes (utf8 "+2") .endOfInput)).output := by
  obtain ⟨hsame, hdecode, hgrows, hcut⟩ := hold_output_decodable
  have hfull : (hold ⟨.ofTable #[0, 1], .warning, some 5⟩ (.ofBytes (utf8 "+2") .endOfInput)).error = none := by cbv
  have hshort : (hold ⟨.ofTable #[0, 1], .warning, some 4⟩ (.characters (utf8 "2"))).error = some .writeRefused := by cbv
  have hiterative : Completes ⟨Algorithm.iterative.generate, .debug, none⟩ (.characters (utf8 "2")) 2 wordFib :=
    ⟨by cbv, by decide, Algorithm.iterative.generate_gives 2, Dialogue.outcome_none_not_refused _ _ _⟩
  have htable : Completes ⟨.ofTable #[0, 1], .warning, some 5⟩ (.ofBytes (utf8 "+2") .endOfInput) 2
      fun i => #[0, 1].getD (i % 2) 0 :=
    ⟨by cbv, by decide, Generator.ofTable_gives #[0, 1] 2, by rw [hfull]; simp⟩
  have hone : Completes ⟨.ofTable #[18446744073709551615, 7], .info, none⟩ (.characters (utf8 "1")) 1
      fun i => #[18446744073709551615, 7].getD (i % 2) 0 :=
    ⟨by cbv, by decide, Generator.ofTable_gives #[18446744073709551615, 7] 1, Dialogue.outcome_none_not_refused _ _ _⟩
  have htwo : Completes ⟨.ofTable #[18446744073709551615, 7], .info, none⟩ (.characters (utf8 "2")) 2
      fun i => #[18446744073709551615, 7].getD (i % 2) 0 :=
    ⟨by cbv, by decide, Generator.ofTable_gives #[18446744073709551615, 7] 2, Dialogue.outcome_none_not_refused _ _ _⟩
  refine ⟨?_, ?_, hgrows _ _ _ _ _ _ _ hone htwo (by decide), ?_⟩
  · exact (hsame _ _ _ _ _ _ _ _ hiterative htable).mpr ⟨rfl, by decide⟩
  · obtain ⟨numerals, hsplit, -, -, hvalues⟩ := hdecode _ _ _ _ htwo
    exact ⟨numerals, hsplit, hvalues⟩
  · exact hcut _ _ _ _ (by rw [hshort]; simp) hfull

end Turn

end LeadingTerms
