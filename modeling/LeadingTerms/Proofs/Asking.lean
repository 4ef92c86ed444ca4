import LeadingTerms.Resolve
import LeadingTerms.Proofs.Dialogue

/-!
# What is asked of a generator

The loop that writes the terms is followed step by step (`Dialogue.TermLoop.Step`): from each place that it comes to, it goes
on as before (`Dialogue.TermLoop.result_eq`), until it ends in one of three ways (`Dialogue.TermLoop.Ends`). Its counter stays
between zero and the count, and counts what was asked for and how much room was used (`Dialogue.TermLoop.Within`). So the
indices asked for are the first ones, in order, as many as are needed (`Dialogue.needed`) or up to a fault
(`Dialogue.Asked`), and nothing else about a generator matters (`Dialogue.run_asks`).
-/

namespace LeadingTerms

/-! ## Indices -/

/-- The indices asked for so far, as numbers, the first one first. -/
def Console.indices (c : Console) : List Int := c.asked.reverse.map Int64.toInt

/-- The indices below a number, in order. -/
def indicesBelow (m : Nat) : List Int := (List.range m).map fun (i : Nat) => (i : Int)

namespace Dialogue

/-! ## The loop, step by step -/

/-- Where the loop that writes the terms stands: at an index, on a console. -/
structure TermLoop where
  counter : Int64
  console : Console

namespace TermLoop

/-- What becomes of the loop from here on. -/
def result (generator : Generator) (count : Int64) (s : TermLoop) : EStateM.Result Error Console Unit :=
  writeTerms generator count s.counter s.console

/-- One step of the loop: the term at the index is given, and its chunk is taken. -/
inductive Step (generator : Generator) (count : Int64) : TermLoop → TermLoop → Prop where
  | written {i : Int64} {c c' : Console} {term : UInt64} (hlt : i < count) (hgiven : generator i = .ok term)
      (htaken : Console.write (termChunk term) { c with asked := i :: c.asked } = .ok () c') :
      Step generator count ⟨i, c⟩ ⟨i + 1, c'⟩

/-- The ways in which the loop ends: the count is reached, the generator gives no term, or its chunk is refused. -/
inductive Ends (generator : Generator) (count : Int64) : TermLoop → EStateM.Result Error Console Unit → Prop where
  | counted {i : Int64} {c : Console} (hge : ¬i < count) : Ends generator count ⟨i, c⟩ (.ok () c)
  | faulted {i : Int64} {c : Console} {fault : Fault} (hlt : i < count) (hfault : generator i = .error fault) :
      Ends generator count ⟨i, c⟩ (.error (.fault fault) { c with asked := i :: c.asked })
  | refused {i : Int64} {c : Console} {term : UInt64} (hlt : i < count) (hgiven : generator i = .ok term)
      (hfull : c.sink.left = some 0) :
      Ends generator count ⟨i, c⟩ (.error .writeRefused { c with asked := i :: c.asked })

variable {generator generator' : Generator} {count : Int64}

/-- After a step the loop goes on as before. -/
theorem Step.result_eq {s s' : TermLoop} (h : Step generator count s s') :
    s.result generator count = s'.result generator count := by
  cases h with
  | written hlt hgiven htaken =>
    rw [result, writeTerms, dif_pos hlt, Action.bind_of_ok (Console.ask_of_ok hgiven), Action.bind_of_ok htaken]
    rfl

/-- After any number of steps it does. -/
theorem result_eq {s s' : TermLoop} (h : Relation.ReflTransGen (Step generator count) s s') :
    s.result generator count = s'.result generator count := by
  induction h with
  | refl => rfl
  | tail _ hstep ih => exact ih.trans hstep.result_eq

/-- Where the loop ends, this is what becomes of it. -/
theorem Ends.result_eq {s : TermLoop} {r : EStateM.Result Error Console Unit} (h : Ends generator count s r) :
    s.result generator count = r := by
  cases h with
  | counted hge =>
    rw [result, writeTerms, dif_neg hge]
    rfl
  | faulted hlt hfault =>
    rw [result, writeTerms, dif_pos hlt, Action.bind_of_error (Console.ask_of_error hfault)]
  | @refused i c term hlt hgiven hfull =>
    have hwrite := Console.write_of_left_zero (c := { c with asked := i :: c.asked }) hfull (termChunk term)
    rw [result, writeTerms, dif_pos hlt, Action.bind_of_ok (Console.ask_of_ok hgiven), Action.bind_of_error hwrite]

/-- The loop comes to its end. -/
theorem exists_ends (generator : Generator) (count i : Int64) (c : Console) :
    ∃ s r, Relation.ReflTransGen (Step generator count) ⟨i, c⟩ s ∧ Ends generator count s r := by
  -- The loop's own induction: the count less the counter goes down. The console changes from turn to turn.
  induction i using writeTerms.induct count generalizing c with
  | case1 i hlt ih =>
    cases hg : generator i with
    | error fault => exact ⟨_, _, .refl, .faulted hlt hg⟩
    | ok term =>
      by_cases hfull : c.sink.left = some 0
      · exact ⟨_, _, .refl, .refused hlt hg hfull⟩
      · obtain ⟨c', htaken, -⟩ := Console.exists_write (c := { c with asked := i :: c.asked }) hfull (termChunk term)
        obtain ⟨s, r, hsteps, hends⟩ := ih c'
        exact ⟨s, r, .head (.written hlt hg htaken) hsteps, hends⟩
  | case2 i hge => exact ⟨_, _, .refl, .counted hge⟩

/-! ## What the counter counts -/

/-- What holds wherever the loop comes to, if it begins at zero on a console: the counter is between zero and the count, and it
is the number of indices asked for and of chunks taken since. -/
structure Within (count : Int64) (begin : Console) (s : TermLoop) : Prop where
  nonneg : 0 ≤ s.counter.toInt
  le_count : s.counter.toInt ≤ count.toInt
  indices : s.console.indices = begin.indices ++ indicesBelow s.counter.toInt.toNat
  left : s.console.sink.left = begin.sink.left.map (· - s.counter.toInt.toNat)
  le_left : ∀ k, begin.sink.left = some k → s.counter.toInt.toNat ≤ k

variable {begin : Console} {s s' : TermLoop}

/-- It holds at the beginning. -/
theorem within_begin {count : Int64} (hcount : 0 ≤ count.toInt) (begin : Console) : Within count begin ⟨0, begin⟩ := by
  refine ⟨Int.le_refl 0, hcount, (List.append_nil _).symm, ?_, fun k _ => Nat.zero_le k⟩
  show begin.sink.left = begin.sink.left.map (· - 0)
  simp

/-- One more index is asked for. -/
theorem Within.indices_cons {i : Int64} {c : Console} (h : Within count begin ⟨i, c⟩) :
    Console.indices { c with asked := i :: c.asked } = begin.indices ++ indicesBelow (i.toInt.toNat + 1) := by
  have hnonneg : 0 ≤ i.toInt := h.nonneg
  have hbefore : c.asked.reverse.map Int64.toInt = begin.indices ++ indicesBelow i.toInt.toNat := h.indices
  have hlast : indicesBelow (i.toInt.toNat + 1) = indicesBelow i.toInt.toNat ++ [i.toInt] := by
    rw [indicesBelow, List.range_succ, List.map_append, List.map_singleton, Int.toNat_of_nonneg hnonneg]
    rfl
  rw [Console.indices, List.reverse_cons, List.map_append, hbefore, hlast, List.map_singleton, List.append_assoc]

/-- A step keeps it. -/
theorem Within.step (h : Within count begin s) (hstep : Step generator count s s') : Within count begin s' := by
  cases hstep with
  | @written i c c' term hlt hgiven htaken =>
    obtain ⟨hroom, hleft, hasked⟩ := Console.of_write_ok htaken
    have hnonneg : 0 ≤ i.toInt := h.nonneg
    have hbefore : c.sink.left = begin.sink.left.map (· - i.toInt.toNat) := h.left
    have hsucc := toInt_add_one hlt
    have hcounter : (i + 1).toInt.toNat = i.toInt.toNat + 1 := by omega
    rw [Int64.lt_iff_toInt_lt] at hlt
    refine ⟨?_, ?_, ?_, ?_, ?_⟩
    · show 0 ≤ (i + 1).toInt
      omega
    · show (i + 1).toInt ≤ count.toInt
      omega
    · show c'.indices = begin.indices ++ indicesBelow (i + 1).toInt.toNat
      rw [hcounter, ← h.indices_cons, Console.indices, hasked]
      rfl
    · show c'.sink.left = begin.sink.left.map (· - (i + 1).toInt.toNat)
      rw [hleft, hbefore, hcounter, Option.map_map]
      rfl
    · -- The chunk was taken, so there was room for one more.
      intro k hk
      show (i + 1).toInt.toNat ≤ k
      have hle : i.toInt.toNat ≤ k := h.le_left k hk
      have hne : k - i.toInt.toNat ≠ 0 := by
        intro hzero
        apply hroom
        show c.sink.left = some 0
        rw [hbefore, hk, Option.map_some, hzero]
      omega

/-- So it holds wherever the loop comes to. -/
theorem Within.steps (h : Within count begin s) (hsteps : Relation.ReflTransGen (Step generator count) s s') :
    Within count begin s' := by
  induction hsteps with
  | refl => exact h
  | tail _ hstep ih => exact ih.step hstep

end TermLoop

/-! ## The indices needed -/

/-- How many terms a dialogue needs, given what was scanned: none without a count, and none for a count that is not positive.
A term is needed to find its chunk refused, so an output that takes only so many chunks needs one less than that: two of them
come before the terms. -/
def needed (limit : Option Nat) : Except ScanError Int64 → Nat
  | .error _ => 0
  | .ok count => match limit with
    | none => count.toNatClampNeg
    | some k => min count.toNatClampNeg (k - 1)

/-- What is asked for by the end of a run of which so many terms are needed: all of their indices, or those up to one at which
the generator gives no term. -/
inductive Asked (generator : Generator) (m : Nat) : EStateM.Result Error Console Unit → Prop where
  | succeeded {c : Console} (hindices : c.indices = indicesBelow m) : Asked generator m (.ok () c)
  | failed {e : Error} {c : Console} (hindices : c.indices = indicesBelow m) (hnot : ∀ fault, e ≠ .fault fault) :
      Asked generator m (.error e c)
  | faulted {i : Int64} {fault : Fault} {c : Console} (hnonneg : 0 ≤ i.toInt) (hlt : i.toInt < m)
      (hfault : generator i = .error fault) (hindices : c.indices = indicesBelow (i.toInt.toNat + 1)) :
      Asked generator m (.error (.fault fault) c)

/-- A refused chunk is no fault. -/
theorem writeRefused_ne_fault (fault : Fault) : Error.writeRefused ≠ .fault fault := by
  intro h
  cases h

/-- Nor is a scan that fails. -/
theorem scan_ne_fault (e : ScanError) (fault : Fault) : Error.scan e ≠ .fault fault := by
  intro h
  cases h

namespace TermLoop

variable {generator generator' : Generator} {count : Int64} {limit : Option Nat} {begin : Console} {s s' : TermLoop}
  (hlimit : ∀ k, limit = some k → 2 ≤ k) (hleft : begin.sink.left = limit.map (· - 2))
include hlimit hleft

/-- The index at which the loop goes on is needed. -/
theorem Within.lt_needed (h : Within count begin s) (hlt : s.counter < count) :
    s.counter.toInt < needed limit (.ok count) := by
  have hnonneg := h.nonneg
  rw [Int64.lt_iff_toInt_lt] at hlt
  cases limit with
  | none =>
    rw [needed, ← Int64.toNat_toInt]
    omega
  | some k =>
    have hroom := h.le_left (k - 2) hleft
    have htwo := hlimit k rfl
    simp only [needed, ← Int64.toNat_toInt]
    omega

/-- Where the loop ends, all indices needed have been asked for, or there was a fault. -/
theorem Ends.asked {r : EStateM.Result Error Console Unit} (hbegin : begin.indices = []) (h : Within count begin s)
    (hends : Ends generator count s r) : Asked generator (needed limit (.ok count)) r := by
  cases hends with
  | @counted i c hge =>
    have hle : i.toInt ≤ count.toInt := h.le_count
    rw [Int64.lt_iff_toInt_lt] at hge
    have hall : needed limit (.ok count) = i.toInt.toNat := by
      cases limit with
      | none =>
        rw [needed, ← Int64.toNat_toInt]
        omega
      | some k =>
        have hroom : i.toInt.toNat ≤ k - 2 := h.le_left (k - 2) hleft
        simp only [needed, ← Int64.toNat_toInt]
        omega
    refine .succeeded ?_
    have hindices := h.indices
    rw [hbegin] at hindices
    rw [hall]
    exact hindices
  | @faulted i c fault hlt hfault =>
    have hindices := h.indices_cons
    rw [hbegin] at hindices
    exact .faulted h.nonneg (h.lt_needed hlimit hleft hlt) hfault hindices
  | @refused i c term hlt hgiven hfull =>
    have hneeded := h.lt_needed hlimit hleft hlt
    have hnonneg : 0 ≤ i.toInt := h.nonneg
    have hroom : c.sink.left = begin.sink.left.map (· - i.toInt.toNat) := h.left
    -- The term whose chunk is refused is the last one needed: the room is used up, but the term was asked for.
    have hlast : needed limit (.ok count) = i.toInt.toNat + 1 := by
      rw [hfull, hleft] at hroom
      cases limit with
      | none => cases hroom
      | some k =>
        have hused : 0 = k - 2 - i.toInt.toNat := Option.some.inj hroom
        have htwo := hlimit k rfl
        simp only [needed] at hneeded ⊢
        omega
    refine .failed ?_ writeRefused_ne_fault
    have hindices := h.indices_cons
    rw [hbegin] at hindices
    rw [hlast]
    exact hindices

variable (hagree : ∀ i : Int64, 0 ≤ i.toInt → i.toInt < needed limit (.ok count) → generator i = generator' i)
include hagree

/-- With another generator that agrees on the indices needed the loop takes the same steps. -/
theorem steps_of_agree (h : Within count begin s) (hsteps : Relation.ReflTransGen (Step generator count) s s') :
    Relation.ReflTransGen (Step generator' count) s s' := by
  induction hsteps with
  | refl => exact .refl
  | tail hsteps hstep ih =>
    have hwithin := h.steps hsteps
    refine .tail ih ?_
    cases hstep with
    | written hlt hgiven htaken =>
      have hsame := hagree _ hwithin.nonneg (hwithin.lt_needed hlimit hleft hlt)
      exact .written hlt (hsame ▸ hgiven) htaken

/-- And it ends in the same way. -/
theorem Ends.of_agree {r : EStateM.Result Error Console Unit} (h : Within count begin s)
    (hends : Ends generator count s r) : Ends generator' count s r := by
  cases hends with
  | counted hge => exact .counted hge
  | faulted hlt hfault => exact .faulted hlt (hagree _ h.nonneg (h.lt_needed hlimit hleft hlt) ▸ hfault)
  | refused hlt hgiven hfull => exact .refused hlt (hagree _ h.nonneg (h.lt_needed hlimit hleft hlt) ▸ hgiven) hfull

end TermLoop

/-! ## The whole dialogue -/

/-- A chunk on which a run ends asks for nothing. -/
theorem Asked.write {generator : Generator} {m : Nat} {c : Console} (h : c.indices = indicesBelow m) (chunk : Bytes) :
    Asked generator m (Console.write chunk c) := by
  by_cases hfull : c.sink.left = some 0
  · rw [Console.write_of_left_zero hfull]
    exact .failed h writeRefused_ne_fault
  · obtain ⟨c', hwrite, -, hasked⟩ := Console.exists_write hfull chunk
    rw [hwrite]
    refine .succeeded ?_
    rw [Console.indices, hasked]
    exact h

/-- The loop and the end of the line of terms: what a dialogue does below its header. -/
def writeLine (generator : Generator) (count : Int64) : Action Unit := do
  writeTerms generator count 0
  Console.write newline

section Line

variable {generator generator' : Generator} {count : Int64} {limit : Option Nat} {begin : Console}
  (hcount : 0 ≤ count.toInt) (hlimit : ∀ k, limit = some k → 2 ≤ k) (hleft : begin.sink.left = limit.map (· - 2))
include hcount hlimit hleft

/-- All indices needed are asked for on the line of terms, or there was a fault. -/
theorem asked_writeLine (hbegin : begin.indices = []) :
    Asked generator (needed limit (.ok count)) (writeLine generator count begin) := by
  obtain ⟨s, r, hsteps, hends⟩ := TermLoop.exists_ends generator count 0 begin
  have hresult : writeTerms generator count 0 begin = r := (TermLoop.result_eq hsteps).trans hends.result_eq
  have hasked := hends.asked hlimit hleft hbegin ((TermLoop.within_begin hcount begin).steps hsteps)
  cases hasked with
  | succeeded hindices =>
    rw [writeLine, Action.bind_of_ok hresult]
    exact .write hindices newline
  | failed hindices hnot =>
    rw [writeLine, Action.bind_of_error hresult]
    exact .failed hindices hnot
  | faulted hnonneg hlt hfault hindices =>
    rw [writeLine, Action.bind_of_error hresult]
    exact .faulted hnonneg hlt hfault hindices

/-- The line of terms is the same with every generator that agrees on the indices needed. -/
theorem writeLine_congr
    (hagree : ∀ i : Int64, 0 ≤ i.toInt → i.toInt < needed limit (.ok count) → generator i = generator' i) :
    writeLine generator count begin = writeLine generator' count begin := by
  obtain ⟨s, r, hsteps, hends⟩ := TermLoop.exists_ends generator count 0 begin
  have hbegin := TermLoop.within_begin hcount begin
  have hsteps' := TermLoop.steps_of_agree hlimit hleft hagree hbegin hsteps
  have hends' := hends.of_agree hlimit hleft hagree (hbegin.steps hsteps)
  have hsame : writeTerms generator count 0 begin = writeTerms generator' count 0 begin :=
    calc writeTerms generator count 0 begin
      _ = r := (TermLoop.result_eq hsteps).trans hends.result_eq
      _ = writeTerms generator' count 0 begin := ((TermLoop.result_eq hsteps').trans hends'.result_eq).symm
  show EStateM.bind _ _ begin = EStateM.bind _ _ begin
  unfold EStateM.bind
  rw [hsame]

end Line

/-- What becomes of a run is the same with every generator, and nothing is asked for. -/
def AsksNothing (result : Generator → EStateM.Result Error Console Unit) : Prop :=
  ∃ r, ∀ generator, result generator = r ∧ Asked generator 0 r

/-- What becomes of a run is what becomes of the line of terms, on a console on which nothing was asked for yet and which has
the room that the question and the header leave. -/
def AsksOnLine (limit : Option Nat) (count : Int64) (result : Generator → EStateM.Result Error Console Unit) : Prop :=
  ∃ begin : Console, (∀ k, limit = some k → 2 ≤ k) ∧ begin.sink.left = limit.map (· - 2) ∧ begin.indices = [] ∧
    ∀ generator, result generator = writeLine generator count begin

/-- The answer to a count that is not positive asks for nothing, and so does one with no room for the header. Any other comes
to the line of terms. -/
theorem answer_asks {limit : Option Nat} {c : Console} (hzero : limit ≠ some 0) (hleft : c.sink.left = limit.map (· - 1))
    (hindices : c.indices = []) (count : Int64) :
    needed limit (.ok count) = 0 ∧ AsksNothing (fun generator => answer generator count c) ∨
      0 ≤ count.toInt ∧ AsksOnLine limit count (fun generator => answer generator count c) := by
  by_cases hcount : count ≤ 0
  · refine Or.inl ⟨?_, Console.write notice c, fun generator => ⟨?_, .write hindices notice⟩⟩
    · rw [Int64.le_iff_toInt_le, Int64.toInt_zero] at hcount
      have hnone : count.toNatClampNeg = 0 := by
        rw [← Int64.toNat_toInt]
        omega
      cases limit with
      | none => exact hnone
      | some k => rw [needed, hnone, Nat.zero_min]
    · show answer generator count c = _
      rw [answer, if_pos hcount]
  · by_cases hfull : c.sink.left = some 0
    · have hheader := Console.write_of_left_zero hfull (header count)
      refine Or.inl ⟨?_, .error .writeRefused c, fun generator => ⟨?_, .failed hindices writeRefused_ne_fault⟩⟩
      · rw [hfull] at hleft
        cases limit with
        | none => cases hleft
        | some k =>
          have hone : 0 = k - 1 := Option.some.inj hleft
          rw [needed, ← hone, Nat.min_zero]
      · show answer generator count c = _
        rw [answer, if_neg hcount, Action.bind_of_error hheader]
    · obtain ⟨begin, hheader, hroom, hasked⟩ := Console.exists_write hfull (header count)
      refine Or.inr ⟨?_, begin, ?_, ?_, ?_, fun generator => ?_⟩
      · rw [Int64.le_iff_toInt_le, Int64.toInt_zero] at hcount
        omega
      · rintro k rfl
        have hpos : k ≠ 0 := fun h => hzero (h ▸ rfl)
        have hmore : k - 1 ≠ 0 := fun h => hfull (hleft.trans (congrArg some h))
        omega
      · rw [hroom, hleft, Option.map_map]
        rfl
      · rw [Console.indices, hasked]
        exact hindices
      · show answer generator count c = _
        rw [answer, if_neg hcount, Action.bind_of_ok hheader]
        rfl

/-- So it is with the whole dialogue; a question that is refused and a scan that fails end it before anything is asked for. -/
theorem run_asks_cases (threshold : Level) (limit : Option Nat) (source : Source) :
    needed limit (scan source).1 = 0 ∧ AsksNothing (fun generator => run generator threshold (.fresh limit source)) ∨
      ∃ count, (scan source).1 = .ok count ∧ 0 ≤ count.toInt ∧
        AsksOnLine limit count (fun generator => run generator threshold (.fresh limit source)) := by
  by_cases hzero : limit = some 0
  · subst hzero
    have hprompt : Console.write prompt (.fresh (some 0) source) = .error .writeRefused (.fresh (some 0) source) := rfl
    refine Or.inl ⟨?_, .error .writeRefused (.fresh (some 0) source), fun generator => ⟨?_, .failed rfl writeRefused_ne_fault⟩⟩
    · cases (scan source).1 with
      | error e => rfl
      | ok count => exact Nat.min_zero _
    · show run generator threshold _ = _
      rw [run_eq, Action.bind_of_error hprompt]
  · obtain ⟨left, hprompt⟩ := exists_write_prompt hzero
    have hleft : left = limit.map (· - 1) := (Console.of_write_ok (hprompt source)).2.1
    rcases hs : scan source with ⟨e | count, rest⟩
    · exact Or.inl ⟨rfl, _, fun generator =>
        ⟨run_of_scan_error generator threshold (hprompt source) hs, .failed rfl (scan_ne_fault e)⟩⟩
    · have hrun := fun generator => run_of_scan_ok generator threshold (hprompt source) hs
      have hbefore : Console.indices ⟨⟨[prompt], left⟩, [] ++ logged threshold (.ok count), [], rest⟩ = [] := rfl
      rcases answer_asks hzero hleft hbefore count with ⟨hnone, r, hr⟩ | ⟨hnonneg, begin, htwo, hroom, hbegin, hline⟩
      · exact Or.inl ⟨hnone, r, fun generator => ⟨(hrun generator).trans (hr generator).1, (hr generator).2⟩⟩
      · exact Or.inr ⟨count, rfl, hnonneg, begin, htwo, hroom, hbegin, fun generator =>
          (hrun generator).trans (hline generator)⟩

/-- By the end of a dialogue all indices needed are asked for, or there was a fault. -/
theorem asked_run (generator : Generator) (threshold : Level) (limit : Option Nat) (source : Source) :
    Asked generator (needed limit (scan source).1) (run generator threshold (.fresh limit source)) := by
  rcases run_asks_cases threshold limit source with ⟨hnone, r, hr⟩ | ⟨count, hscan, hnonneg, begin, htwo, hleft, hbegin, hline⟩
  · have hrun : run generator threshold (.fresh limit source) = r := (hr generator).1
    rw [hnone, hrun]
    exact (hr generator).2
  · have hrun : run generator threshold (.fresh limit source) = writeLine generator count begin := hline generator
    rw [hscan, hrun]
    exact asked_writeLine hnonneg htwo hleft hbegin

/-- Dialogues with generators that agree on the indices needed are the same. -/
theorem run_congr {generator generator' : Generator} (threshold : Level) {limit : Option Nat} {source : Source}
    (hagree : ∀ i : Int64, 0 ≤ i.toInt → i.toInt < needed limit (scan source).1 → generator i = generator' i) :
    run generator threshold (.fresh limit source) = run generator' threshold (.fresh limit source) := by
  rcases run_asks_cases threshold limit source with ⟨-, r, hr⟩ | ⟨count, hscan, hnonneg, begin, htwo, hleft, -, hline⟩
  · exact (hr generator).1.trans (hr generator').1.symm
  · rw [hscan] at hagree
    calc run generator threshold (.fresh limit source)
      _ = writeLine generator count begin := hline generator
      _ = writeLine generator' count begin := writeLine_congr hnonneg htwo hleft hagree
      _ = run generator' threshold (.fresh limit source) := (hline generator').symm

/-- The indices that a dialogue asks for. -/
def askedIndices (generator : Generator) (threshold : Level) (limit : Option Nat) (source : Source) : List Int :=
  (Action.leaves (run generator threshold) (.fresh limit source)).indices

section Indices

variable {generator : Generator} {m : Nat} {action : Action Unit} {c : Console}

/-- What is asked for are the first indices, and not more than are needed. -/
theorem Asked.exists_indices (h : Asked generator m (action c)) :
    ∃ p ≤ m, (Action.leaves action c).indices = indicesBelow p := by
  unfold Action.leaves
  generalize action c = r at h
  cases h with
  | succeeded hindices => exact ⟨m, Nat.le_refl m, hindices⟩
  | failed hindices _ => exact ⟨m, Nat.le_refl m, hindices⟩
  | @faulted i _ _ hnonneg hlt _ hindices => exact ⟨i.toInt.toNat + 1, by omega, hindices⟩

/-- A generator that gives the terms needed is asked for all of them, and there is no fault. -/
theorem Asked.of_gives (hgives : ∀ i : Int64, 0 ≤ i.toInt → i.toInt < m → ∃ term, generator i = .ok term)
    (h : Asked generator m (action c)) :
    (Action.leaves action c).indices = indicesBelow m ∧ ∀ fault, Action.error? action c ≠ some (.fault fault) := by
  unfold Action.leaves Action.error?
  generalize action c = r at h
  cases h with
  | succeeded hindices => exact ⟨hindices, fun _ => (Option.some_ne_none _).symm⟩
  | failed hindices hnot => exact ⟨hindices, fun fault heq => hnot fault (Option.some.inj heq)⟩
  | @faulted i _ _ hnonneg hlt hfault _ =>
    obtain ⟨term, hterm⟩ := hgives i hnonneg hlt
    rw [hterm] at hfault
    cases hfault

end Indices

/-- Not more terms are needed than the count says. -/
theorem needed_le (limit : Option Nat) (count : Int64) : needed limit (.ok count) ≤ count.toNatClampNeg := by
  cases limit with
  | none => exact Nat.le_refl _
  | some k => exact Nat.min_le_left _ _

/-- An algorithm gives all terms needed. -/
theorem generate_gives_needed (algorithm : Algorithm) (limit : Option Nat) (scanned : Except ScanError Int64) (i : Int64)
    (hi : 0 ≤ i.toInt) (hlt : i.toInt < needed limit scanned) : ∃ term, algorithm.generate i = .ok term := by
  cases scanned with
  | error e =>
    rw [needed] at hlt
    omega
  | ok count =>
    have hle := needed_le limit count
    refine ⟨_, algorithm.generate_gives count i hi ?_⟩
    rw [Int64.lt_iff_toInt_lt]
    rw [← Int64.toNat_toInt] at hle
    omega

/-- What a dialogue asks of its generator, whatever its input, its log and the limit of its output. Every generator is asked
for the first indices, in order and each once, and for no more than are needed; one that gives the terms needed is asked for
all of them, and there is no fault, whatever it does elsewhere. Dialogues with generators that agree on the indices needed
are the same in everything. An algorithm that is found by its name gives the terms needed, so there is no fault. The loop
that writes the terms goes step by step to one of its ends, for every count and on every console; wherever it comes to, its
counter is between zero and the count and can be counted up without wrapping around. -/
theorem run_asks (threshold : Level) (limit : Option Nat) (source : Source) :
    (∀ generator : Generator,
      (∃ m ≤ needed limit (scan source).1, askedIndices generator threshold limit source = indicesBelow m) ∧
      ((∀ i : Int64, 0 ≤ i.toInt → i.toInt < needed limit (scan source).1 → ∃ term, generator i = .ok term) →
        askedIndices generator threshold limit source = indicesBelow (needed limit (scan source).1) ∧
        ∀ fault, (outcome generator threshold limit source).error ≠ some (.fault fault))) ∧
    (∀ generator generator' : Generator,
      (∀ i : Int64, 0 ≤ i.toInt → i.toInt < needed limit (scan source).1 → generator i = generator' i) →
      run generator threshold (.fresh limit source) = run generator' threshold (.fresh limit source)) ∧
    (∀ name algorithm, findAlgorithm name = .ok algorithm →
      askedIndices algorithm.generate threshold limit source = indicesBelow (needed limit (scan source).1) ∧
      ∀ fault, (outcome algorithm.generate threshold limit source).error ≠ some (.fault fault)) ∧
    ∀ (generator : Generator) (count : Int64) (begin : Console), 0 ≤ count.toInt →
      (∃ s r, Relation.ReflTransGen (TermLoop.Step generator count) ⟨0, begin⟩ s ∧ TermLoop.Ends generator count s r ∧
        writeTerms generator count 0 begin = r) ∧
      ∀ s, Relation.ReflTransGen (TermLoop.Step generator count) ⟨0, begin⟩ s →
        0 ≤ s.counter.toInt ∧ s.counter.toInt ≤ count.toInt ∧
        (s.counter < count → (s.counter + 1).toInt = s.counter.toInt + 1) := by
  have herror : ∀ generator, (outcome generator threshold limit source).error =
      Action.error? (run generator threshold) (.fresh limit source) := by
    intro generator
    rw [outcome, Action.ofAction_eq]
  refine ⟨?_, ?_, ?_, ?_⟩
  · intro generator
    have hasked := asked_run generator threshold limit source
    rw [herror]
    exact ⟨hasked.exists_indices, fun hgives => hasked.of_gives hgives⟩
  · intro generator generator' hagree
    exact run_congr threshold hagree
  · intro name algorithm _
    rw [herror]
    exact (asked_run algorithm.generate threshold limit source).of_gives (generate_gives_needed algorithm limit _)
  · intro generator count begin hcount
    constructor
    · obtain ⟨s, r, hsteps, hends⟩ := TermLoop.exists_ends generator count 0 begin
      exact ⟨s, r, hsteps, hends, (TermLoop.result_eq hsteps).trans hends.result_eq⟩
    · intro s hsteps
      have hwithin := (TermLoop.within_begin hcount begin).steps hsteps
      exact ⟨hwithin.nonneg, hwithin.le_count, toInt_add_one⟩

/-- A generator that gives two terms and no more. -/
def twoTerms : Generator := fun i => if i = 0 ∨ i = 1 then .ok 7 else .error (.negativeIndex i)

/-- The greatest count there is, on an output that takes the question, the header and one term: two terms are needed, and a
generator that gives no others is asked for no others. -/
theorem run_asks_twoTerms :
    (scan (.characters (utf8 "9223372036854775807"))).1 = .ok 9223372036854775807 ∧
    (∀ i : Int64, 0 ≤ i.toInt → i.toInt < needed (some 3) (.ok 9223372036854775807) → ∃ term, twoTerms i = .ok term) ∧
    askedIndices twoTerms .debug (some 3) (.characters (utf8 "9223372036854775807")) = [0, 1] ∧
    ∀ fault, (outcome twoTerms .debug (some 3) (.characters (utf8 "9223372036854775807"))).error ≠ some (.fault fault) := by
  have hscan : (scan (.characters (utf8 "9223372036854775807"))).1 = .ok 9223372036854775807 := by cbv
  have hneeded : needed (some 3) (.ok 9223372036854775807) = 2 := by decide
  have hgives : ∀ i : Int64, 0 ≤ i.toInt → i.toInt < needed (some 3) (.ok 9223372036854775807) →
      ∃ term, twoTerms i = .ok term := by
    intro i hi hlt
    rw [hneeded] at hlt
    have hi01 : i = 0 ∨ i = 1 := by
      rw [← Int64.toInt_inj, ← Int64.toInt_inj, Int64.toInt_zero, Int64.toInt_one]
      omega
    exact ⟨7, if_pos hi01⟩
  obtain ⟨hall, -⟩ := run_asks .debug (some 3) (.characters (utf8 "9223372036854775807"))
  rw [hscan] at hall
  obtain ⟨hindices, hnofault⟩ := (hall twoTerms).2 hgives
  rw [hneeded] at hindices
  exact ⟨hscan, hgives, hindices, hnofault⟩

end Dialogue

end LeadingTerms
