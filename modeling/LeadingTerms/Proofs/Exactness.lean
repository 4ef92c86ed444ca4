import LeadingTerms.Proofs.Transcript

/-!
# Which terms are exact

A word has room for the terms up to the one at index 93 (`fib_lt_iff`), and the remainder of a term that does not fit is
another number. So a generator gives a term of the sequence as it is exactly up to that index (`wordFib_exact_iff`).

The terms that a dialogue has written can be read off the second line of its output, whether or not a chunk was refused
(`Dialogue.secondLine_outcome`): they are a beginning of the terms asked for. Those up to index 93 are the terms of the
sequence, and no later one is (`Dialogue.terms_exact_iff`).
-/

namespace LeadingTerms

/-! ## Terms that fit into a word -/

/-- The sequence is the one of the library. -/
theorem fib_eq_natFib (n : Nat) : fib n = Nat.fib n := by
  induction n using fib.induct with
  | case1 => rfl
  | case2 => rfl
  | case3 n ih₁ ih₂ => rw [fib, ih₁, ih₂, Nat.fib_add_two, Nat.add_comm]

/-- The terms that fit into a word. -/
theorem fib_lt_iff (n : Nat) : fib n < 2 ^ 64 ↔ n ≤ 93 := by
  have hlast : Nat.fib 93 < 2 ^ 64 := by norm_num
  have hfirst : 2 ^ 64 ≤ Nat.fib 94 := by norm_num
  rw [fib_eq_natFib]
  constructor
  · intro h
    by_contra hn
    have hmono := Nat.fib_mono (show 94 ≤ n by omega)
    omega
  · intro h
    exact Nat.lt_of_le_of_lt (Nat.fib_mono h) hlast

/-- A word holds a term as it is exactly if the term fits. -/
theorem wordFib_exact_iff (n : Nat) : (wordFib n).toNat = fib n ↔ n ≤ 93 := by
  rw [toNat_wordFib, ← fib_lt_iff]
  exact Nat.mod_eq_iff_lt (by decide)

namespace Dialogue

/-! ## Reading the terms off an output -/

/-- The second line of an output, ended or not. -/
def secondLine (output : Bytes) : Bytes := (output.splitOn 0x0A)[1]?.getD []

/-- The numerals on the second line of an output: what stands in front of its blanks. -/
def numeralsOf (output : Bytes) : List Bytes := ((secondLine output).splitOn 0x20).dropLast

/-- How many terms an output takes: the question and the header come before them. -/
def termsTaken (limit : Option Nat) (count : Int64) : Nat :=
  match limit with
  | none => count.toNatClampNeg
  | some k => min count.toNatClampNeg (k - 2)

/-- The first terms of the sequence on their line. -/
def sequenceText (n : Nat) : Bytes := (List.range n).flatMap fun i => decimal (fib i) ++ utf8 " "

/-- The first line of a text, ended or not. -/
theorem getElem?_zero_splitOn {line tail : Bytes} (h : (0x0A : UInt8) ∉ line)
    (htail : tail = [] ∨ ∃ rest, tail = 0x0A :: rest) : ((line ++ tail).splitOn 0x0A)[0]? = some line := by
  rcases htail with rfl | ⟨rest, rfl⟩
  · rw [List.append_nil, List.splitOn_eq_singleton h]
    rfl
  · rw [List.splitOn_append_cons_self_of_not_mem h]
    rfl

theorem newline_not_mem_termsText (terms : Nat → UInt64) (n : Nat) : (0x0A : UInt8) ∉ termsText terms n :=
  newline_not_mem_termChunks _

/-- The first chunks of terms are the terms as far as they go. -/
theorem flatten_take_termChunks (terms : Nat → UInt64) (n k : Nat) :
    (((List.range n).map fun i => termChunk (terms i)).take k).flatten = termsText terms (min n k) := by
  rw [← List.map_take, List.take_range, Nat.min_comm, termsText, List.map_map]
  rfl

/-- Behind the terms that are taken comes the end of their line, or nothing. -/
theorem flatten_take_newline (k : Nat) :
    (([newline] : List Bytes).take k).flatten = [] ∨ ∃ rest, (([newline] : List Bytes).take k).flatten = 0x0A :: rest := by
  cases k with
  | zero => exact Or.inl rfl
  | succ k =>
    rw [List.take_succ_cons, List.take_nil]
    exact Or.inr ⟨[], rfl⟩

/-- The first chunks of an answer with terms, from the header on: a line, and the terms that there is room for behind it. -/
theorem flatten_take_chunks (terms : Nat → UInt64) {count : Int64} (h : 0 < count) (k : Nat) :
    ((chunks terms (.ok count)).take (k + 2)).flatten = prompt ++ headline count ++ 0x0A ::
      (termsText terms (min count.toNatClampNeg k) ++
        (([newline] : List Bytes).take (k - count.toNatClampNeg)).flatten) := by
  rw [chunks, answerChunks, if_neg (Int64.not_le.mpr h), List.cons_append, List.take_succ_cons, List.take_succ_cons,
    List.take_append, List.flatten_cons, List.flatten_cons, List.flatten_append, flatten_take_termChunks, header_eq,
    List.length_map, List.length_range]
  simp only [List.append_assoc, List.singleton_append]

/-- The first chunks of an answer with terms show the terms that there is room for. -/
theorem secondLine_take (terms : Nat → UInt64) {count : Int64} (h : 0 < count) (k : Nat) :
    secondLine ((chunks terms (.ok count)).take k).flatten = termsText terms (min count.toNatClampNeg (k - 2)) := by
  -- With no chunk, and with the question alone, there is no second line.
  rcases k with _ | _ | k
  · rw [Nat.zero_sub, Nat.min_zero]
    rfl
  · have hprompt : secondLine prompt = [] := by
      rw [secondLine, List.splitOn_eq_singleton newline_not_mem_prompt]
      rfl
    rw [Nat.sub_eq_zero_of_le (by omega), Nat.min_zero, chunks, List.take_succ_cons, List.take_zero, List.flatten_singleton,
      hprompt]
    rfl
  · have hfirst : (0x0A : UInt8) ∉ prompt ++ headline count := by
      rw [List.mem_append, not_or]
      exact ⟨newline_not_mem_prompt, newline_not_mem_headline count⟩
    rw [flatten_take_chunks terms h, secondLine, List.splitOn_append_cons_self_of_not_mem hfirst, List.getElem?_cons_succ,
      getElem?_zero_splitOn (newline_not_mem_termsText terms _) (flatten_take_newline _)]
    rfl

theorem length_chunks_of_pos (terms : Nat → UInt64) {count : Int64} (h : 0 < count) :
    (chunks terms (.ok count)).length = count.toNatClampNeg + 3 := by
  rw [chunks, answerChunks, if_neg (Int64.not_le.mpr h)]
  simp

/-- The second line of the output of a dialogue with a positive count holds the terms that were taken. -/
theorem secondLine_outcome {generator : Generator} {terms : Nat → UInt64} (threshold : Level) (limit : Option Nat)
    {source : Source} {count : Int64} (hscan : (scan source).1 = .ok count) (hpos : 0 < count)
    (hg : generator.Gives count terms) :
    secondLine (outcome generator threshold limit source).output = termsText terms (termsTaken limit count) := by
  have hwritten := written_of_gives threshold hscan hg
  cases limit with
  | none =>
    have hall := secondLine_take terms hpos (count.toNatClampNeg + 3)
    rw [List.take_of_length_le (Nat.le_of_eq (length_chunks_of_pos terms hpos)), Nat.min_eq_left (by omega)] at hall
    rw [(outcome_of_not_refused (outcome_none_not_refused generator threshold source)).1, hwritten, hall]
    rfl
  | some k => rw [(outcome_some_limit generator threshold source k).1, hwritten, secondLine_take terms hpos, termsTaken]

/-! ## Exact terms -/

/-- The numerals that can be read off the output are those of the terms that were taken. -/
theorem numeralsOf_eq {output : Bytes} {terms : Nat → UInt64} {n : Nat} (h : secondLine output = termsText terms n) :
    numeralsOf output = (List.range n).map fun i => decimal (terms i).toNat := by
  rw [numeralsOf, h, splitOn_termsText, List.dropLast_concat]

/-- The terms in words make the line of the sequence exactly if all of them fit. -/
theorem termsText_wordFib_eq_iff (n : Nat) : termsText wordFib n = sequenceText n ↔ n ≤ 94 := by
  have hnumerals : (sequenceText n).splitOn 0x20 = ((List.range n).map fun i => decimal (fib i)) ++ [[]] := by
    have h := splitOn_numerals ((List.range n).map fib)
    rw [List.flatMap_map, List.map_map] at h
    exact h
  constructor
  · intro h
    by_contra hn
    have hsplit := congrArg (List.splitOn 0x20) h
    rw [splitOn_termsText, hnumerals] at hsplit
    have hsame := List.map_inj_left.mp (List.append_cancel_right hsplit) 94 (List.mem_range.mpr (by omega))
    have hfits := (wordFib_exact_iff 94).mp (decimal_injective hsame)
    omega
  · intro hn
    rw [termsText, List.map_map, sequenceText, List.flatMap_def]
    congr 1
    apply List.map_congr_left
    intro i hi
    have hlt := List.mem_range.mp hi
    show termChunk (wordFib i) = _
    rw [termChunk, (wordFib_exact_iff i).mpr (by omega)]

/-- At every index from zero on but the greatest, both algorithms give the term of the sequence exactly if the index is not
past 93. So it is with the terms that can be read off the output of a dialogue with a positive count, whatever its input, its
log and the limit of its output: there are as many as there is room for, without a limit as many as the count says; each of
them is the term of the sequence exactly if its index is not past 93; and the line of terms is the line of the sequence
exactly if there are not more than 94 of them. -/
theorem terms_exact_iff :
    (∀ (algorithm : Algorithm) (n : Int64), 0 ≤ n.toInt → n.toInt ≤ 2 ^ 63 - 2 →
      ∃ term, algorithm.generate n = .ok term ∧ (term.toNat = fib n.toInt.toNat ↔ n.toInt ≤ 93)) ∧
    ∀ (algorithm : Algorithm) (threshold : Level) (limit : Option Nat) (source : Source) (count : Int64),
      (scan source).1 = .ok count → 0 < count →
      (numeralsOf (outcome algorithm.generate threshold limit source).output).length = termsTaken limit count ∧
      (∀ i numeral, (numeralsOf (outcome algorithm.generate threshold limit source).output)[i]? = some numeral →
        (numeral = decimal (fib i) ↔ i ≤ 93)) ∧
      (secondLine (outcome algorithm.generate threshold limit source).output = sequenceText (termsTaken limit count) ↔
        termsTaken limit count ≤ 94) := by
  constructor
  · intro algorithm n hn hle
    refine ⟨wordFib n.toInt.toNat, algorithm.generate_gives Int64.maxValue n hn ?_, ?_⟩
    · have hgreatest := Int64.toInt_maxValue
      rw [Int64.lt_iff_toInt_lt]
      omega
    · rw [wordFib_exact_iff]
      omega
  · intro algorithm threshold limit source count hscan hpos
    have hline := secondLine_outcome threshold limit hscan hpos (algorithm.generate_gives count)
    have hnumerals := numeralsOf_eq hline
    refine ⟨?_, ?_, ?_⟩
    · rw [hnumerals, List.length_map, List.length_range]
    · intro i numeral hi
      rw [hnumerals, List.getElem?_map, Option.map_eq_some_iff] at hi
      obtain ⟨j, hj, rfl⟩ := hi
      obtain ⟨hlt, rfl⟩ := List.getElem?_eq_some_iff.mp hj
      rw [List.getElem_range, ← wordFib_exact_iff]
      exact ⟨decimal_injective, fun h => congrArg decimal h⟩
    · rw [hline, termsText_wordFib_eq_iff]

/-- With a count of 94 the line of terms is that of the sequence; with one more it is not, and the last term on it is another
number than the term of the sequence. On an output that takes 94 of these 95 terms it is again. -/
theorem terms_exact_iff_ninetyFive :
    (scan (.characters (utf8 "94"))).1 = .ok 94 ∧ (scan (.characters (utf8 "95"))).1 = .ok 95 ∧
    secondLine (outcome Algorithm.recursive.generate .warning none (.characters (utf8 "94"))).output = sequenceText 94 ∧
    secondLine (outcome Algorithm.iterative.generate .warning none (.characters (utf8 "95"))).output ≠ sequenceText 95 ∧
    (numeralsOf (outcome Algorithm.iterative.generate .warning none (.characters (utf8 "95"))).output)[94]? ≠
      some (decimal (fib 94)) ∧
    secondLine (outcome Algorithm.iterative.generate .warning (some 96) (.characters (utf8 "95"))).output =
      sequenceText 94 := by
  have hfour : (scan (.characters (utf8 "94"))).1 = .ok 94 := by cbv
  have hfive : (scan (.characters (utf8 "95"))).1 = .ok 95 := by cbv
  obtain ⟨-, hdialogue⟩ := terms_exact_iff
  obtain ⟨-, -, hexact⟩ := hdialogue .recursive .warning none _ 94 hfour (by decide)
  obtain ⟨-, hterm, hinexact⟩ := hdialogue .iterative .warning none _ 95 hfive (by decide)
  obtain ⟨-, -, hcut⟩ := hdialogue .iterative .warning (some 96) _ 95 hfive (by decide)
  refine ⟨hfour, hfive, hexact.mpr (by decide), mt hinexact.mp (by decide), ?_, hcut.mpr (by decide)⟩
  intro h
  exact absurd ((hterm 94 _ h).mp rfl) (by decide)

end Dialogue

end LeadingTerms
