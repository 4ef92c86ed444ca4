import LeadingTerms.Dialogue
import LeadingTerms.Sequence.Algorithm
import LeadingTerms.Proofs.Console
import LeadingTerms.Proofs.Sequence

/-!
# What a dialogue writes

`Dialogue.chunks` lists the chunks of a dialogue in which nothing is refused, given what was scanned: they are what the
unlimited run writes (`Dialogue.outcome_unlimited`). A run under a limit takes the first of them, as many as there is room
for, and fails on the next one; log and input come out as without a limit unless the question itself is refused
(`Dialogue.outcome_limit`).
-/

namespace LeadingTerms

/-! ## Generators that give terms -/

/-- The generator gives these terms at all indices below the count. -/
def Generator.Gives (generator : Generator) (count : Int64) (terms : Nat → UInt64) : Prop :=
  ∀ i : Int64, 0 ≤ i.toInt → i < count → generator i = .ok (terms i.toInt.toNat)

/-- Every algorithm gives the sequence below every count: no count is past the greatest index. -/
theorem Algorithm.generate_gives (a : Algorithm) (count : Int64) : a.generate.Gives count wordFib := by
  intro i hi hlt
  rw [Int64.lt_iff_toInt_lt] at hlt
  have hcount := Int64.toInt_lt count
  cases a with
  | recursive => exact recursive_eq_wordFib i hi
  | iterative => exact iterative_eq_wordFib i hi (by omega)

/-- A table gives its terms over and over. -/
theorem Generator.ofTable_gives (table : Array UInt64) (count : Int64) :
    (Generator.ofTable table).Gives count (fun i => table.getD (i % table.size) 0) := by
  intro i _ _
  rw [Generator.ofTable, Int64.toNat_toInt]

namespace Dialogue

/-! ## The line of terms -/

/-- Without a limit, all terms from an index up to the count are written, one chunk each. -/
theorem writeTerms_of_gives {generator : Generator} {count : Int64} {terms : Nat → UInt64}
    (hg : generator.Gives count terms) (n : Nat) (i : Int64) (c : Console) (hi : 0 ≤ i.toInt)
    (hn : count.toInt = i.toInt + n) (hc : c.sink.left = none) :
    ∃ c', writeTerms generator count i c = .ok () c' ∧
      c'.sink = ⟨((List.range' i.toInt.toNat n).map fun j => termChunk (terms j)).reverse ++ c.sink.chunks, none⟩ := by
  induction n generalizing i c with
  | zero =>
    refine ⟨c, ?_, ?_⟩
    · rw [writeTerms, dif_neg]
      · rfl
      · rw [Int64.lt_iff_toInt_lt]
        omega
    · show c.sink = ⟨c.sink.chunks, none⟩
      rw [← hc]
  | succ n ih =>
    have hlt : i < count := by
      rw [Int64.lt_iff_toInt_lt]
      omega
    have hsucc := toInt_add_one hlt
    have hask := Console.ask_of_ok (c := c) (hg i hi hlt)
    have hwrite := write_of_left_none (c := { c with asked := i :: c.asked }) hc (termChunk (terms i.toInt.toNat))
    obtain ⟨c', hc', hsink⟩ := ih (i + 1)
      { c with sink := ⟨termChunk (terms i.toInt.toNat) :: c.sink.chunks, none⟩, asked := i :: c.asked }
      (by omega) (by omega) rfl
    refine ⟨c', ?_, ?_⟩
    · rw [writeTerms, dif_pos hlt, Action.bind_of_ok hask, Action.bind_of_ok hwrite]
      exact hc'
    · rw [hsink, hsucc, List.range'_succ, show (i.toInt + 1).toNat = i.toInt.toNat + 1 by omega]
      simp

/-! ## The whole dialogue -/

/-- What can be seen of one dialogue. -/
def outcome (generator : Generator) (threshold : Level) (limit : Option Nat) (source : Source) : Outcome :=
  .ofAction (run generator threshold) limit source

/-- The chunks of the answer to a count: the notice, or the header, the terms and the end of their line. -/
def answerChunks (terms : Nat → UInt64) (count : Int64) : List Bytes :=
  if count ≤ 0 then [notice]
  else header count :: ((List.range count.toNatClampNeg).map fun i => termChunk (terms i)) ++ [newline]

/-- The chunks of a dialogue in which nothing is refused, given what was scanned. -/
def chunks (terms : Nat → UInt64) : Except ScanError Int64 → List Bytes
  | .error _ => [prompt]
  | .ok count => prompt :: answerChunks terms count

/-- What a dialogue logs, given what was scanned. -/
def logged (threshold : Level) : Except ScanError Int64 → Bytes
  | .error _ => []
  | .ok count => (if count ≤ 0 then rejecting count else generating count).shownAt threshold

/-- The failure of a dialogue in which nothing is refused, given what was scanned. -/
def failure : Except ScanError Int64 → Option Error
  | .error e => some (.scan e)
  | .ok _ => none

/-- The answer to a count: what a dialogue writes below its question. -/
def answer (generator : Generator) (count : Int64) : Action Unit :=
  if count ≤ 0 then Console.write notice
  else do
    Console.write (header count)
    writeTerms generator count 0
    Console.write newline

/-- A dialogue asks, reads, makes a note of the count and answers. -/
theorem run_eq (generator : Generator) (threshold : Level) :
    run generator threshold = (do
      Console.write prompt
      let count ← Console.readInteger
      Console.note threshold (if count ≤ 0 then rejecting count else generating count)
      answer generator count) := by
  unfold run answer
  congr 1
  funext _
  congr 1
  funext count
  split <;> rfl

section Closed

variable {P : {α : Type} → Action α → Prop} {generator : Generator}
  (hpure : P (pure () : Action Unit)) (hask : ∀ i, P (Console.ask generator i)) (hwrite : ∀ chunk, P (Console.write chunk))
  (hbind : ∀ {α β : Type} {action : Action α} {next : α → Action β},
    P action → (∀ x, P (next x)) → P (action >>= next))
include hpure hask hwrite hbind

/-- What holds of asking and of writing, and is kept by composition, holds of the line of terms. -/
theorem writeTerms_of_closed (count i : Int64) : P (writeTerms generator count i) := by
  induction i using writeTerms.induct count with
  | case1 i h ih =>
    rw [writeTerms, dif_pos h]
    exact hbind (hask i) fun term => hbind (hwrite _) fun _ => ih
  | case2 i h =>
    rw [writeTerms, dif_neg h]
    exact hpure

/-- So it holds of the whole answer. -/
theorem answer_of_closed (count : Int64) : P (answer generator count) := by
  unfold answer
  split
  · exact hwrite notice
  · exact hbind (hwrite _) fun _ => hbind (writeTerms_of_closed hpure hask hwrite hbind count 0) fun _ => hwrite newline

end Closed

theorem metered_answer (generator : Generator) (count : Int64) : Metered (answer generator count) :=
  answer_of_closed (P := Metered) (metered_pure ()) (metered_ask generator) metered_write Metered.bind count

theorem quiet_answer (generator : Generator) (count : Int64) : Quiet (answer generator count) :=
  answer_of_closed (P := Quiet) (quiet_pure ()) (quiet_ask generator) quiet_write Quiet.bind count

/-- A limit changes nothing about a dialogue but the point at which it stops. -/
theorem metered_run (generator : Generator) (threshold : Level) : Metered (run generator threshold) := by
  rw [run_eq]
  exact (metered_write prompt).bind fun _ => metered_readInteger.bind fun count =>
    (metered_note threshold _).bind fun _ => metered_answer generator count

/-- Without a limit, and with a generator that gives all terms, the whole answer is written. -/
theorem answer_of_gives {generator : Generator} {count : Int64} {terms : Nat → UInt64}
    (hg : generator.Gives count terms) (c : Console) (hc : c.sink.left = none) :
    ∃ c', answer generator count c = .ok () c' ∧
      c'.sink = ⟨(answerChunks terms count).reverse ++ c.sink.chunks, none⟩ := by
  by_cases hcount : count ≤ 0
  · rw [answer, answerChunks, if_pos hcount, if_pos hcount]
    exact ⟨_, write_of_left_none hc notice, rfl⟩
  · rw [answer, answerChunks, if_neg hcount, if_neg hcount]
    rw [Int64.le_iff_toInt_le, Int64.toInt_zero] at hcount
    have hheader := write_of_left_none hc (header count)
    obtain ⟨c₁, hc₁, hsink₁⟩ := writeTerms_of_gives hg count.toNatClampNeg 0
      { c with sink := ⟨header count :: c.sink.chunks, none⟩ } (by decide)
      (by rw [← Int64.toNat_toInt, Int64.toInt_zero]; omega) rfl
    have hnewline := write_of_left_none (c := c₁) (by rw [hsink₁]) newline
    refine ⟨{ c₁ with sink := ⟨newline :: c₁.sink.chunks, none⟩ }, ?_, ?_⟩
    · rw [Action.bind_of_ok hheader, Action.bind_of_ok hc₁, hnewline]
    · rw [hsink₁, Int64.toInt_zero, Int.toNat_zero, List.range_eq_range']
      simp

/-- Once the question is written, a dialogue fails with the scan. -/
theorem run_of_scan_error {c c₁ : Console} (generator : Generator) (threshold : Level)
    (h : Console.write prompt c = .ok () c₁) {e : ScanError} {rest : Source} (hs : scan c₁.source = (.error e, rest)) :
    run generator threshold c = .error (.scan e) { c₁ with source := rest } := by
  have hread : Console.readInteger c₁ = .error (.scan e) { c₁ with source := rest } := by
    unfold Console.readInteger
    rw [hs]
  rw [run_eq, Action.bind_of_ok h, Action.bind_of_error hread]

/-- If the scan succeeds, the dialogue goes on to its answer, with a note of the count in the log. -/
theorem run_of_scan_ok {c c₁ : Console} (generator : Generator) (threshold : Level)
    (h : Console.write prompt c = .ok () c₁) {count : Int64} {rest : Source} (hs : scan c₁.source = (.ok count, rest)) :
    run generator threshold c = answer generator count { c₁ with
      source := rest
      log := c₁.log ++ logged threshold (.ok count) } := by
  have hread : Console.readInteger c₁ = .ok count { c₁ with source := rest } := by
    unfold Console.readInteger
    rw [hs]
  rw [run_eq, Action.bind_of_ok h, Action.bind_of_ok hread]
  rfl

/-- Once the question is written, log and input come out the same, whatever becomes of the answer. -/
theorem run_log_source {c c₁ : Console} (generator : Generator) (threshold : Level)
    (h : Console.write prompt c = .ok () c₁) :
    (Action.leaves (run generator threshold) c).log = c₁.log ++ logged threshold (scan c₁.source).1 ∧
      (Action.leaves (run generator threshold) c).source = (scan c₁.source).2 := by
  rcases hs : scan c₁.source with ⟨e | count, rest⟩
  · rw [Action.leaves_of_error (run_of_scan_error generator threshold h hs)]
    exact ⟨(List.append_nil _).symm, rfl⟩
  · rw [Action.leaves_congr (run_of_scan_ok generator threshold h hs)]
    exact quiet_answer generator count _

/-- An output that takes a chunk at all takes the question, whatever the source. -/
theorem exists_write_prompt {limit : Option Nat} (h : limit ≠ some 0) :
    ∃ left, ∀ source, Console.write prompt (.fresh limit source) = .ok () ⟨⟨[prompt], left⟩, [], [], source⟩ := by
  match limit with
  | none => exact ⟨none, fun _ => rfl⟩
  | some 0 => exact absurd rfl h
  | some (k + 1) => exact ⟨some k, fun _ => rfl⟩

/-- Log and input after a dialogue whose question was not refused. -/
theorem outcome_log_rest (generator : Generator) (threshold : Level) {limit : Option Nat} (h : limit ≠ some 0)
    (source : Source) :
    (outcome generator threshold limit source).log = logged threshold (scan source).1 ∧
      (outcome generator threshold limit source).rest = (scan source).2 := by
  obtain ⟨left, hwrite⟩ := exists_write_prompt h
  have hrun := run_log_source generator threshold (hwrite source)
  rw [outcome, Action.ofAction_eq]
  exact hrun

/-- A dialogue without a limit, with a generator that gives all terms below the count: everything follows from what was
scanned. -/
theorem run_unlimited {generator : Generator} {terms : Nat → UInt64} (threshold : Level) {c : Console}
    (hc : c.sink.left = none) (hg : ∀ count, (scan c.source).1 = .ok count → generator.Gives count terms) :
    (Action.leaves (run generator threshold) c).sink = ⟨(chunks terms (scan c.source).1).reverse ++ c.sink.chunks, none⟩ ∧
      Action.error? (run generator threshold) c = failure (scan c.source).1 := by
  have hwrite := write_of_left_none hc prompt
  rcases hs : scan c.source with ⟨e | count, rest⟩
  · have hrun := run_of_scan_error generator threshold hwrite hs
    rw [Action.leaves_of_error hrun, Action.error?_of_error hrun]
    exact ⟨rfl, rfl⟩
  · have hrun := run_of_scan_ok generator threshold hwrite hs
    obtain ⟨c', hc', hsink⟩ := answer_of_gives (hg count (by rw [hs])) { c with
      sink := ⟨prompt :: c.sink.chunks, none⟩
      source := rest
      log := c.log ++ logged threshold (.ok count) } rfl
    rw [Action.leaves_of_ok (hrun.trans hc'), Action.error?_of_ok (hrun.trans hc'), hsink]
    refine ⟨?_, rfl⟩
    rw [chunks, List.reverse_cons, List.append_assoc, List.singleton_append]

/-- What can be seen of a dialogue without a limit, with a generator that gives all terms below the count. -/
theorem outcome_unlimited {generator : Generator} {terms : Nat → UInt64} (threshold : Level) (source : Source)
    (hg : ∀ count, (scan source).1 = .ok count → generator.Gives count terms) :
    outcome generator threshold none source =
      ⟨(chunks terms (scan source).1).flatten, logged threshold (scan source).1, (scan source).2,
        failure (scan source).1⟩ := by
  obtain ⟨hsink, herror⟩ := run_unlimited (c := .fresh none source) threshold rfl hg
  have hnone : (none : Option Nat) ≠ some 0 := nofun
  obtain ⟨hlog, hrest⟩ := outcome_log_rest generator threshold hnone source
  rw [outcome, Action.ofAction_eq] at hlog hrest ⊢
  simp only at hlog hrest
  rw [hsink, herror, hlog, hrest, Sink.output]
  simp

/-! ## Outputs that refuse -/

/-- The chunks that a dialogue writes when none is refused. -/
def written (generator : Generator) (threshold : Level) (source : Source) : List Bytes :=
  (Action.leaves (run generator threshold) (.fresh none source)).sink.chunks.reverse

/-- The chunks of a dialogue without a limit meter it. -/
theorem meteredBy_written (generator : Generator) (threshold : Level) (source : Source) :
    MeteredBy (run generator threshold) (.fresh none source) (written generator threshold source) := by
  obtain ⟨chunks, hm⟩ := metered_run generator threshold (.fresh none source) rfl
  have hchunks : written generator threshold source = chunks := by
    rw [written, hm.unlimited]
    simp
  rw [hchunks]
  exact hm

/-- With a generator that gives all terms below the count, the chunks written are the ones that the count tells. -/
theorem written_of_gives {generator : Generator} {terms : Nat → UInt64} (threshold : Level) {source : Source} {count : Int64}
    (hscan : (scan source).1 = .ok count) (hg : generator.Gives count terms) :
    written generator threshold source = chunks terms (.ok count) := by
  have hgives : ∀ count', (scan source).1 = .ok count' → generator.Gives count' terms := by
    intro count' hcount'
    rw [hscan] at hcount'
    cases hcount'
    exact hg
  obtain ⟨hsink, -⟩ := run_unlimited (c := .fresh none source) threshold rfl hgives
  rw [written, hsink, Console.fresh_source, hscan]
  simp

/-- Under a limit with room for every chunk, a dialogue is what it is without one; otherwise it takes as many chunks as there
is room for and fails with the refusal. -/
theorem outcome_some_limit (generator : Generator) (threshold : Level) (source : Source) (k : Nat) :
    (outcome generator threshold (some k) source).output =
        ((written generator threshold source).take k).flatten ∧
      (outcome generator threshold (some k) source).error =
        if k < (written generator threshold source).length then some .writeRefused
        else (outcome generator threshold none source).error := by
  have hm := meteredBy_written generator threshold source
  have hroom : Console.fresh (some k) source = (Console.fresh none source).withRoom k := rfl
  rw [outcome, outcome, Action.ofAction_eq, Action.ofAction_eq, hroom]
  simp only
  by_cases hk : k < (written generator threshold source).length
  · obtain ⟨c', hc', hsink⟩ := hm.refused k hk
    rw [Action.leaves_of_error hc', Action.error?_of_error hc', if_pos hk]
    refine ⟨?_, rfl⟩
    rw [hsink, Sink.output, Console.fresh_chunks, List.append_nil, List.reverse_reverse]
  · obtain ⟨hleaves, herror⟩ := leaves_of_eq_mapConsole (hm.fits k (by omega))
    rw [if_neg hk, List.take_of_length_le (by omega), hleaves, herror]
    exact ⟨rfl, rfl⟩

/-- A refused question ends the dialogue before anything is read or logged. -/
theorem outcome_zero_limit (generator : Generator) (threshold : Level) (source : Source) :
    outcome generator threshold (some 0) source = ⟨[], [], source, some .writeRefused⟩ := by
  have hwrite : Console.write prompt (.fresh (some 0) source) = .error .writeRefused (.fresh (some 0) source) := rfl
  rw [outcome, Outcome.ofAction, run_eq, Action.bind_of_error hwrite]
  rfl

/-- The outcome of a dialogue under every limit. Without a limit it writes its chunks, one after the other: with a generator
that gives all terms below the count, they are the question alone if the scan fails, the question and the notice for a count
that is not positive, and else the question, the header, the terms and the end of their line. Under a limit it writes the
first of them, as many as are taken, and its error is the refusal exactly if one is not taken. Log and input come out as
without a limit, unless the question itself is refused: then nothing is logged or read. -/
theorem outcome_limit (generator : Generator) (threshold : Level) (source : Source) :
    (∀ terms, (∀ count, (scan source).1 = .ok count → generator.Gives count terms) →
      written generator threshold source = chunks terms (scan source).1 ∧
      (outcome generator threshold none source).error = failure (scan source).1) ∧
    (∀ e, (scan source).1 = .error e → (outcome generator threshold none source).error.map Error.message =
      some (utf8 "reading number of terms: " ++ e.message)) ∧
    (outcome generator threshold none source).output = (written generator threshold source).flatten ∧
    ∀ k,
      (outcome generator threshold (some k) source).output = ((written generator threshold source).take k).flatten ∧
      ((outcome generator threshold (some k) source).error = some .writeRefused ↔
        k < (written generator threshold source).length) ∧
      ((written generator threshold source).length ≤ k →
        (outcome generator threshold (some k) source).error = (outcome generator threshold none source).error) ∧
      (1 ≤ k →
        (outcome generator threshold (some k) source).log = (outcome generator threshold none source).log ∧
        (outcome generator threshold (some k) source).rest = (outcome generator threshold none source).rest) ∧
      (k = 0 →
        (outcome generator threshold (some k) source).log = [] ∧
        (outcome generator threshold (some k) source).rest = source) := by
  have hm := meteredBy_written generator threshold source
  refine ⟨fun terms hg => ?_, fun e he => ?_, ?_, fun k => ?_⟩
  · refine ⟨?_, ?_⟩
    · obtain ⟨hsink, -⟩ := run_unlimited (c := .fresh none source) threshold rfl hg
      rw [written, hsink]
      simp
    · rw [outcome_unlimited threshold source hg]
  · have hg : ∀ count, (scan source).1 = .ok count → generator.Gives count wordFib := by
      intro count hcount
      rw [he] at hcount
      cases hcount
    rw [outcome_unlimited threshold source hg, he]
    rfl
  · rw [outcome, Action.ofAction_eq]
    rfl
  · obtain ⟨houtput, herror⟩ := outcome_some_limit generator threshold source k
    have hnone : (none : Option Nat) ≠ some 0 := nofun
    refine ⟨houtput, ?_, fun hk => ?_, fun hk => ?_, fun hk => ?_⟩
    · have hunlimited : (outcome generator threshold none source).error ≠ some .writeRefused := by
        rw [outcome, Action.ofAction_eq]
        exact hm.notRefused
      rw [herror]
      by_cases hk : k < (written generator threshold source).length
      · rw [if_pos hk]
        exact ⟨fun _ => hk, fun _ => rfl⟩
      · rw [if_neg hk]
        exact ⟨fun h => absurd h hunlimited, fun h => absurd h hk⟩
    · rw [herror, if_neg (by omega)]
    · have hsome : some k ≠ some 0 := by
        intro h
        rw [Option.some.injEq] at h
        omega
      obtain ⟨hlog, hrest⟩ := outcome_log_rest generator threshold hsome source
      obtain ⟨hlog', hrest'⟩ := outcome_log_rest generator threshold hnone source
      exact ⟨hlog.trans hlog'.symm, hrest.trans hrest'.symm⟩
    · subst hk
      rw [outcome_zero_limit]
      exact ⟨rfl, rfl⟩

/-- Three terms by iteration on an output that takes four chunks: the third term is refused. -/
theorem outcome_limit_four :
    (outcome Algorithm.iterative.generate .warning (some 4) (.characters (utf8 "3\n"))).output =
        utf8 "Enter the number of terms: Fibonacci Sequence up to 3 terms:\n0 1 " ∧
      (outcome Algorithm.iterative.generate .warning (some 4) (.characters (utf8 "3\n"))).error =
        some .writeRefused := by
  obtain ⟨hwritten, -, -, hlimit⟩ := outcome_limit Algorithm.iterative.generate .warning (.characters (utf8 "3\n"))
  have hscan : (scan (.characters (utf8 "3\n"))).1 = .ok 3 := by cbv
  have hchunks := (hwritten wordFib fun count _ => Algorithm.iterative.generate_gives count).1
  rw [hscan] at hchunks
  obtain ⟨houtput, herror, -⟩ := hlimit 4
  rw [hchunks] at houtput herror
  refine ⟨houtput.trans ?_, herror.mpr ?_⟩
  · decide +kernel
  · decide +kernel

end Dialogue

end LeadingTerms
