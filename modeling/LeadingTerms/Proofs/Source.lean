import Mathlib.Order.Bounds.Basic
import LeadingTerms.Proofs.Scan

/-!
# Scanning single bytes

Bytes settle a symbol exactly if they are an encoded character or nothing behind them makes them one (`settled_iff`). Whoever
looks for a symbol in single bytes draws the fewest that settle one, `lookahead` of them, and at most four
(`isLookahead_lookahead`, `lookahead_le_four`).

A scan steps from character to character on single bytes as it does on whole characters, and nothing is held between two
steps (`Progress.advance_ofBytes_encode`). It differs only where it stops: it has drawn the symbol that it does not take. So
it finds the same number, and leaves what a scan of whole characters leaves without those bytes (`scan_ofBytes`). If the
source fails behind its bytes, either the scan meets the failure, or it has stopped before the last symbol was in doubt and
does not depend on anything that may follow (`scan_ofBytes_failure`).
-/

namespace LeadingTerms

/-! ## What settles a symbol -/

/-- Bytes that settle a symbol settle it whatever follows. -/
theorem settled_append {bs : Bytes} (h : settled bs = true) (more : Bytes) : settled (bs ++ more) = true := by
  unfold settled at h ⊢
  cases hh : head bs with
  | whole c rest => rw [head_append_whole hh]
  | stray b rest => rw [head_append_stray hh]
  | short =>
    rw [hh] at h
    cases h

/-- The bytes that a first byte announced can always be supplied. -/
theorem Tail.exists_collect (k : Nat) (low high : UInt8) (code : Nat) (h : low ≤ high) :
    ∃ more code', Tail.collect k low high code more = .complete code' [] := by
  induction k generalizing low high code with
  | zero => exact ⟨[], code, rfl⟩
  | succ k ih =>
    obtain ⟨more, code', hmore⟩ := ih 0x80 0xBF (code * 64 + (low.toNat - 0x80)) (by decide)
    refine ⟨low :: more, code', ?_⟩
    rw [Tail.collect, if_pos ⟨UInt8.le_refl low, h⟩]
    exact hmore

/-- So can those that are still missing. -/
theorem Tail.exists_collect_append {k : Nat} {low high : UInt8} {code : Nat} {bs : Bytes} (hle : low ≤ high)
    (h : Tail.collect k low high code bs = .short) :
    ∃ more code', Tail.collect k low high code (bs ++ more) = .complete code' [] := by
  induction k generalizing low high code bs with
  | zero => cases h
  | succ k ih =>
    cases bs with
    | nil => exact Tail.exists_collect (k + 1) low high code hle
    | cons b bs =>
      simp only [Tail.collect, List.cons_append] at h ⊢
      by_cases hb : low ≤ b ∧ b ≤ high
      · rw [if_pos hb] at h
        simp only [hb, and_self, if_true]
        exact ih (by decide) h
      · rw [if_neg hb] at h
        cases h

/-- The range that a first byte announces for the second is not empty. -/
theorem Lead.low_le_high {b : UInt8} {l : Lead} (h : Lead.ofByte? b = some l) : l.low ≤ l.high := by
  unfold Lead.ofByte? at h
  repeat' split at h
  all_goals cases h
  all_goals simp only; decide

/-- Bytes that do not settle a symbol are the beginning of an encoded character. -/
theorem exists_encodeChar_of_head_short {bs : Bytes} (h : head bs = .short) :
    ∃ c more, bs ++ more = String.utf8EncodeChar c := by
  cases bs with
  | nil => exact ⟨'0', String.utf8EncodeChar '0', rfl⟩
  | cons b bs =>
    simp only [head] at h
    by_cases hb : b < 0x80
    · rw [if_pos hb] at h
      cases h
    · rw [if_neg hb] at h
      cases hl : Lead.ofByte? b with
      | none =>
        rw [hl] at h
        cases h
      | some l =>
        rw [hl] at h
        cases hc : Tail.collect l.tails l.low l.high l.bits bs with
        | complete code rest => simp [hc] at h
        | broken => simp [hc] at h
        | short =>
          obtain ⟨more, code, hmore⟩ := Tail.exists_collect_append (Lead.low_le_high hl) hc
          have h80 : 0x80 ≤ b.toNat := by
            rw [UInt8.lt_iff_toNat_lt] at hb
            exact Nat.not_lt.mp hb
          have hwhole := eq_of_head_whole (head_lead h80 hl hmore)
          rw [List.append_nil] at hwhole
          exact ⟨Char.ofNat code, more, hwhole⟩

/-- The bytes are an encoded character, or can no longer become the beginning of one. -/
def Determined (bs : Bytes) : Prop :=
  (∃ c, bs = String.utf8EncodeChar c) ∨ ∀ c, ¬bs <+: String.utf8EncodeChar c

/-- No encoded character is the beginning of another one. -/
theorem eq_nil_of_encodeChar_append {c c' : Char} {more : Bytes}
    (h : String.utf8EncodeChar c ++ more = String.utf8EncodeChar c') : more = [] := by
  have hc := head_encodeChar c more
  have hc' := head_encodeChar c' []
  rw [List.append_nil, ← h, hc] at hc'
  cases hc'
  rfl

/-- Bytes settle a symbol exactly if they are an encoded character or can no longer become one. -/
theorem settled_iff (bs : Bytes) : settled bs = true ↔ Determined bs := by
  constructor
  · intro h
    cases hh : head bs with
    | whole c rest =>
      have hbs := eq_of_head_whole hh
      by_cases hrest : rest = []
      · rw [hrest, List.append_nil] at hbs
        exact Or.inl ⟨c, hbs⟩
      · refine Or.inr ?_
        rintro c' ⟨more, hmore⟩
        rw [hbs, List.append_assoc] at hmore
        exact hrest (List.append_eq_nil_iff.mp (eq_nil_of_encodeChar_append hmore)).1
    | stray b rest =>
      refine Or.inr ?_
      rintro c ⟨more, hmore⟩
      have hstray := head_append_stray hh more
      have hwhole := head_encodeChar c []
      rw [List.append_nil, ← hmore, hstray] at hwhole
      cases hwhole
    | short =>
      unfold settled at h
      rw [hh] at h
      cases h
  · intro h
    cases hh : head bs with
    | whole c rest => simp [settled, hh]
    | stray b rest => simp [settled, hh]
    | short =>
      obtain ⟨c, more, hmore⟩ := exists_encodeChar_of_head_short hh
      rcases h with ⟨c', hc'⟩ | hnone
      · have hwhole := head_encodeChar c' []
        rw [List.append_nil, ← hc', hh] at hwhole
        cases hwhole
      · exact absurd ⟨more, hmore⟩ (hnone c)

/-- Bytes that do not settle a symbol are none or too few. -/
theorem head_of_not_settled {bs : Bytes} (h : settled bs = false) : head bs = .short := by
  cases hh : head bs with
  | whole c rest => simp [settled, hh] at h
  | stray b rest => simp [settled, hh] at h
  | short => rfl

/-- They are fewer than four. -/
theorem length_lt_four {bs : Bytes} (h : settled bs = false) : bs.length < 4 := by
  have hshort := head_of_not_settled h
  obtain ⟨c, more, hmore⟩ := exists_encodeChar_of_head_short hshort
  have hsize : (String.utf8EncodeChar c).length ≤ 4 := by
    rw [String.length_utf8EncodeChar]
    exact Char.utf8Size_le_four c
  have hne : more ≠ [] := by
    intro hnil
    rw [hnil, List.append_nil] at hmore
    have hwhole := head_encodeChar c []
    rw [List.append_nil, ← hmore, hshort] at hwhole
    cases hwhole
  have hlength := congrArg List.length hmore
  have hpos := List.length_pos_iff.mpr hne
  rw [List.length_append] at hlength
  omega

/-! ## What is drawn -/

namespace Source

/-- If the bytes held settle a symbol, none is drawn. -/
theorem draw_of_settled {held : Bytes} (h : settled held = true) (unread : Bytes) : draw held unread = (held, unread) := by
  cases unread with
  | nil => rfl
  | cons b bs => rw [draw, if_pos h]

/-- If they do not, the next byte is drawn. -/
theorem draw_cons_of_not_settled {held : Bytes} (h : settled held = false) (b : UInt8) (bs : Bytes) :
    draw held (b :: bs) = draw (held ++ [b]) bs := by
  rw [draw, if_neg (by simp [h])]

/-- The bytes drawn settle a symbol if all the bytes there are do. -/
theorem settled_draw (held unread : Bytes) : settled (draw held unread).1 = settled (held ++ unread) := by
  induction unread generalizing held with
  | nil => simp [draw]
  | cons b bs ih =>
    cases hs : settled held with
    | true => rw [draw_of_settled hs, settled_append hs, hs]
    | false =>
      rw [draw_cons_of_not_settled hs, ih, List.append_assoc]
      rfl

/-- No fewer bytes than those drawn settle a symbol. -/
theorem settled_take_of_lt_draw (held unread : Bytes) {i : Nat} (hlo : held.length ≤ i)
    (hhi : i < (draw held unread).1.length) : settled ((held ++ unread).take i) = false := by
  induction unread generalizing held with
  | nil => exact absurd hhi (Nat.not_lt.mpr hlo)
  | cons b bs ih =>
    cases hs : settled held with
    | true =>
      rw [draw_of_settled hs] at hhi
      exact absurd hhi (Nat.not_lt.mpr hlo)
    | false =>
      rw [draw_cons_of_not_settled hs] at hhi
      by_cases hi : i = held.length
      · rw [hi, List.take_left]
        exact hs
      · have hrest := ih (held ++ [b]) (by simp; omega) hhi
        rw [List.append_assoc] at hrest
        exact hrest

/-- If the bytes drawn settle a symbol, those behind them are not drawn. -/
theorem draw_append_of_settled (held unread : Bytes) (h : settled (held ++ unread) = true) (more : Bytes) :
    draw held (unread ++ more) = ((draw held unread).1, (draw held unread).2 ++ more) := by
  induction unread generalizing held with
  | nil =>
    rw [List.append_nil] at h
    rw [draw_of_settled h, draw_of_settled h]
  | cons b bs ih =>
    cases hs : settled held with
    | true => rw [draw_of_settled hs, draw_of_settled hs]
    | false =>
      rw [List.cons_append, draw_cons_of_not_settled hs, draw_cons_of_not_settled hs]
      apply ih
      rw [List.append_assoc]
      exact h

/-- If all the bytes there are do not settle a symbol, all are drawn. -/
theorem draw_of_not_settled (held unread : Bytes) (h : settled (held ++ unread) = false) :
    draw held unread = (held ++ unread, []) := by
  induction unread generalizing held with
  | nil => rw [draw, List.append_nil]
  | cons b bs ih =>
    cases hs : settled held with
    | true =>
      rw [settled_append hs] at h
      cases h
    | false =>
      have heq : held ++ b :: bs = held ++ [b] ++ bs := by simp
      rw [heq] at h ⊢
      rw [draw_cons_of_not_settled hs]
      exact ih (held ++ [b]) h

/-- An encoded character is drawn, and nothing behind it. -/
theorem draw_encodeChar (c : Char) (rest : Bytes) :
    draw [] (String.utf8EncodeChar c ++ rest) = (String.utf8EncodeChar c, rest) := by
  have hwhole := head_encodeChar c []
  rw [List.append_nil] at hwhole
  have hsettled : settled (String.utf8EncodeChar c) = true := by simp [settled, hwhole]
  have hparts := draw_append [] (String.utf8EncodeChar c)
  rw [List.nil_append] at hparts
  have hfst := settled_draw [] (String.utf8EncodeChar c)
  rw [List.nil_append, hsettled, settled_iff] at hfst
  -- What is drawn of the character alone is the beginning of it, so it is another character or the whole of it.
  rcases hfst with ⟨c', hc'⟩ | hnone
  · rw [hc'] at hparts
    have hnil := eq_nil_of_encodeChar_append hparts
    rw [hnil, List.append_nil, ← hc'] at hparts
    rw [draw_append_of_settled [] (String.utf8EncodeChar c) hsettled, hparts, hnil, List.nil_append]
  · exact absurd ⟨_, hparts⟩ (hnone c)

end Source

/-- The number of bytes that are drawn to look at the first symbol of a text. -/
def lookahead (bs : Bytes) : Nat := (Source.draw [] bs).1.length

/-- What is drawn is the front of the text. -/
theorem draw_nil_eq (bs : Bytes) : Source.draw [] bs = (bs.take (lookahead bs), bs.drop (lookahead bs)) := by
  have hparts := Source.draw_append [] bs
  unfold lookahead
  rcases hd : Source.draw [] bs with ⟨held, unread⟩
  rw [hd, List.nil_append] at hparts
  rw [← hparts, List.take_left, List.drop_left]

theorem lookahead_le_length (bs : Bytes) : lookahead bs ≤ bs.length := by
  have hparts := congrArg List.length (Source.draw_append [] bs)
  rw [List.nil_append, List.length_append] at hparts
  unfold lookahead
  omega

theorem settled_take_lookahead (bs : Bytes) : settled (bs.take (lookahead bs)) = settled bs := by
  have h := Source.settled_draw [] bs
  rw [draw_nil_eq] at h
  exact h

theorem settled_take_of_lt {bs : Bytes} {i : Nat} (h : i < lookahead bs) : settled (bs.take i) = false :=
  Source.settled_take_of_lt_draw [] bs (Nat.zero_le i) h

/-- A text that settles no symbol is drawn as a whole. -/
theorem lookahead_of_not_settled {bs : Bytes} (h : settled bs = false) : lookahead bs = bs.length := by
  unfold lookahead
  rw [Source.draw_of_not_settled [] bs h]
  rfl

/-- The number of bytes that have to be seen to know the first symbol of a text: none of an empty text, else the least number
from one on that determines a symbol, and all of them if no number does. -/
def IsLookahead (bs : Bytes) (j : Nat) : Prop :=
  bs = [] ∧ j = 0 ∨ bs ≠ [] ∧
    (IsLeast {i | 1 ≤ i ∧ Determined (bs.take i)} j ∨ (∀ i, 1 ≤ i → ¬Determined (bs.take i)) ∧ j = bs.length)

/-- As many bytes are drawn as have to be seen. -/
theorem isLookahead_lookahead (bs : Bytes) : IsLookahead bs (lookahead bs) := by
  by_cases hbs : bs = []
  · rw [hbs]
    exact Or.inl ⟨rfl, rfl⟩
  refine Or.inr ⟨hbs, ?_⟩
  cases hs : settled bs with
  | true =>
    have hfront := settled_take_lookahead bs
    rw [hs] at hfront
    refine Or.inl ⟨⟨?_, (settled_iff _).mp hfront⟩, ?_⟩
    · rw [Nat.one_le_iff_ne_zero]
      intro hzero
      rw [hzero] at hfront
      cases hfront
    · rintro i ⟨-, hi⟩
      rw [← settled_iff] at hi
      by_contra hlt
      rw [settled_take_of_lt (Nat.not_le.mp hlt)] at hi
      cases hi
  | false =>
    refine Or.inr ⟨?_, lookahead_of_not_settled hs⟩
    intro i _ hi
    rw [← settled_iff] at hi
    have hall := settled_append hi (bs.drop i)
    rw [List.take_append_drop, hs] at hall
    cases hall

/-- Only one number of bytes has to be seen. -/
theorem IsLookahead.eq_lookahead {bs : Bytes} {j : Nat} (h : IsLookahead bs j) : j = lookahead bs := by
  rcases h with ⟨hnil, hj⟩ | ⟨hne, h⟩
  · rw [hj, hnil]
    rfl
  rcases isLookahead_lookahead bs with ⟨hnil, -⟩ | ⟨-, h'⟩
  · exact absurd hnil hne
  rcases h with hleast | ⟨hnone, hj⟩
  · rcases h' with hleast' | ⟨hnone, -⟩
    · exact hleast.unique hleast'
    · exact absurd hleast.1.2 (hnone j hleast.1.1)
  · rcases h' with hleast' | ⟨-, hj'⟩
    · exact absurd hleast'.1.2 (hnone _ hleast'.1.1)
    · rw [hj, hj']

/-- No more than four bytes have to be seen. -/
theorem lookahead_le_four (bs : Bytes) : lookahead bs ≤ 4 := by
  cases hj : lookahead bs with
  | zero => exact Nat.zero_le 4
  | succ j =>
    have hnot : settled (bs.take j) = false := settled_take_of_lt (by omega)
    have hlt := length_lt_four hnot
    have hle := lookahead_le_length bs
    rw [List.length_take] at hlt
    omega

/-! ## Steps of a scan -/

namespace Source

/-- An encoded character is seen, whatever comes behind it, and nothing is held past it. -/
theorem look_ofBytes_encodeChar (c : Char) (rest : Bytes) (ending : Ending) :
    (ofBytes (String.utf8EncodeChar c ++ rest) ending).look =
      .symbol (.char c) (.bytewise (String.utf8EncodeChar c) rest ending) (ofBytes rest ending) := by
  have hwhole := head_encodeChar c []
  rw [List.append_nil] at hwhole
  simp only [ofBytes, look, draw_encodeChar, hwhole]

/-- A symbol that the bytes settle is seen, whatever comes behind them, and with it the bytes that are drawn are held. -/
theorem look_ofBytes_of_settled {bs rest : Bytes} {s : Symbol} (hs : settled bs = true) (hu : uncons bs = some (s, rest))
    (more : Bytes) (ending : Ending) :
    ∃ after, (ofBytes (bs ++ more) ending).look =
      .symbol s (.bytewise (bs.take (lookahead bs)) (bs.drop (lookahead bs) ++ more) ending) after := by
  have hdraw := draw_append_of_settled [] bs hs more
  rw [draw_nil_eq bs] at hdraw
  have hfront := settled_take_lookahead bs
  rw [hs] at hfront
  cases hh : head (bs.take (lookahead bs)) with
  | whole c after =>
    have hwhole := head_append_whole hh (bs.drop (lookahead bs))
    rw [List.take_append_drop] at hwhole
    simp only [uncons, hwhole, Option.some.injEq, Prod.mk.injEq] at hu
    obtain ⟨rfl, -⟩ := hu
    refine ⟨.bytewise after (bs.drop (lookahead bs) ++ more) ending, ?_⟩
    simp only [ofBytes, look, hdraw, hh]
  | stray b after =>
    have hstray := head_append_stray hh (bs.drop (lookahead bs))
    rw [List.take_append_drop] at hstray
    simp only [uncons, hstray, Option.some.injEq, Prod.mk.injEq] at hu
    obtain ⟨rfl, -⟩ := hu
    refine ⟨.bytewise after (bs.drop (lookahead bs) ++ more) ending, ?_⟩
    simp only [ofBytes, look, hdraw, hh]
  | short => simp [settled, hh] at hfront

/-- Where the bytes settle no symbol and the source fails behind them, the failure is seen. -/
theorem look_ofBytes_failure {bs : Bytes} (h : settled bs = false) (message : Bytes) :
    (ofBytes bs (.failure message)).look = .failed message (.bytewise bs [] (.failure message)) := by
  have hdraw := draw_of_not_settled [] bs h
  rw [List.nil_append] at hdraw
  simp only [ofBytes, look, hdraw, head_of_not_settled h]

/-- Where they settle none and the input ends behind them, the end is seen if there are none, and else their first byte. -/
theorem look_ofBytes_endOfInput {bs : Bytes} (h : settled bs = false) :
    (ofBytes bs .endOfInput).look = match bs with
      | [] => .ended (.bytewise [] [] .endOfInput)
      | b :: rest => .symbol (.stray b) (.bytewise bs [] .endOfInput) (.bytewise rest [] .endOfInput) := by
  have hdraw := draw_of_not_settled [] bs h
  rw [List.nil_append] at hdraw
  simp only [ofBytes, look, hdraw, head_of_not_settled h]
  cases bs <;> rfl

end Source

namespace Progress

/-- If the source fails, so does the scan. -/
theorem advance_of_look_failed {source here : Source} {message : Bytes} (p : Progress)
    (h : source.look = .failed message here) : p.advance source = (p, .failed message, here) := by
  rw [advance]
  split
  · rename_i h'
    rw [h] at h'
    cases h'
  · rename_i h'
    rw [h] at h'
    cases h'
  · rename_i h'
    rw [h] at h'
    cases h'
    rfl

/-- Characters that can be taken are taken off single bytes, and nothing is held behind them. -/
theorem advance_ofBytes_encode {p p' : Progress} {cs : List Char} (h : p.steps cs = some p') (rest : Bytes)
    (ending : Ending) : p.advance (.ofBytes (encode cs ++ rest) ending) = p'.advance (.ofBytes rest ending) := by
  induction cs generalizing p with
  | nil =>
    cases h
    rfl
  | cons c cs ih =>
    have he : encode (c :: cs) ++ rest = String.utf8EncodeChar c ++ (encode cs ++ rest) := by
      simp [encode]
    simp only [steps, Option.bind_eq_some_iff] at h
    obtain ⟨p₁, hstep, hsteps⟩ := h
    rw [he, advance_of_look_symbol p (Source.look_ofBytes_encodeChar c _ ending), hstep]
    exact ih hsteps

/-- In front of a settled symbol that it does not take, a scan stops whatever comes behind. -/
theorem advance_ofBytes_of_settled {p : Progress} {rest : Bytes} {stop : Stop} (h : p.Halts rest stop)
    (hs : settled rest = true) (more : Bytes) (ending : Ending) :
    stop = .refused ∧ p.advance (.ofBytes (rest ++ more) ending) =
      (p, .refused, .bytewise (rest.take (lookahead rest)) (rest.drop (lookahead rest) ++ more) ending) := by
  cases stop with
  | refused =>
    obtain ⟨s, after, hu, hstep⟩ := h
    obtain ⟨after', hlook⟩ := Source.look_ofBytes_of_settled hs hu more ending
    rw [advance_of_look_symbol p hlook, hstep]
    exact ⟨rfl, rfl⟩
  | ended =>
    have h : rest = [] := h
    rw [h] at hs
    cases hs
  | failed message => exact absurd h id

/-- Where a scan of whole characters has to stop, a scan of single bytes stops for the same reason and holds what it has
drawn. -/
theorem advance_ofBytes_of_halts {p : Progress} {rest : Bytes} {stop : Stop} (h : p.Halts rest stop) :
    p.advance (.ofBytes rest .endOfInput) =
      (p, stop, .bytewise (rest.take (lookahead rest)) (rest.drop (lookahead rest)) .endOfInput) := by
  cases hs : settled rest with
  | true =>
    obtain ⟨rfl, hadvance⟩ := advance_ofBytes_of_settled h hs [] .endOfInput
    rw [List.append_nil, List.append_nil] at hadvance
    exact hadvance
  | false =>
    have hlook := Source.look_ofBytes_endOfInput hs
    rw [lookahead_of_not_settled hs, List.take_length, List.drop_length]
    cases stop with
    | refused =>
      obtain ⟨s, after, hu, hstep⟩ := h
      simp only [uncons, head_of_not_settled hs] at hu
      cases rest with
      | nil => cases hu
      | cons b bs =>
        cases hu
        rw [advance_of_look_symbol p hlook, hstep]
    | ended =>
      have h : rest = [] := h
      subst h
      exact advance_of_look_ended p hlook
    | failed message => exact absurd h id

end Progress

/-! ## Scans -/

/-- A scan of single bytes finds what a scan of whole characters finds, and leaves what that leaves without the bytes that it
has drawn to see where to stop. -/
theorem scan_ofBytes (input : Bytes) :
    ∃ taken rest, input = taken ++ rest ∧ (scan (.characters input)).2 = .characters rest ∧
      scan (.ofBytes input .endOfInput) =
        ((scan (.characters input)).1, .ofBytes (rest.drop (lookahead rest)) .endOfInput) := by
  obtain ⟨cs, rest, p, stop, rfl, hsteps, hhalts⟩ := Progress.exists_advance .blank input
  have hcharacters := Progress.advance_encode_append hsteps rest
  have hbytes := Progress.advance_ofBytes_encode hsteps rest .endOfInput
  rw [Progress.advance_of_halts hhalts] at hcharacters
  rw [Progress.advance_ofBytes_of_halts hhalts] at hbytes
  refine ⟨encode cs, rest, rfl, ?_, ?_⟩
  · rw [scan, hcharacters]
    rfl
  · rw [scan, scan, hcharacters, hbytes]
    rfl

/-- A scan of a source that fails behind its bytes meets the failure, and then nothing is left; or it finds, and leaves, the
same whatever comes behind the bytes. -/
theorem scan_ofBytes_failure (input message : Bytes) :
    scan (.ofBytes input (.failure message)) = (.error (.readFailure message), .ofBytes [] (.failure message)) ∨
      ∃ result rest, (∀ m, result ≠ .error (.readFailure m)) ∧
        ∀ more ending, scan (.ofBytes (input ++ more) ending) = (result, .ofBytes (rest ++ more) ending) := by
  obtain ⟨cs, rest, p, stop, rfl, hsteps, hhalts⟩ := Progress.exists_advance .blank input
  cases hs : settled rest with
  | true =>
    refine Or.inr ⟨p.result .refused, rest.drop (lookahead rest), ?_, ?_⟩
    · intro m
      cases p with
      | within l =>
        simp only [Progress.result]
        cases l.value <;> simp
      | blank => simp [Progress.result]
      | signed s => simp [Progress.result]
    · intro more ending
      obtain ⟨-, hadvance⟩ := Progress.advance_ofBytes_of_settled hhalts hs more ending
      rw [scan, List.append_assoc, Progress.advance_ofBytes_encode hsteps, hadvance]
      rfl
  | false =>
    have hadvance := Progress.advance_of_look_failed p (Source.look_ofBytes_failure hs message)
    refine Or.inl ?_
    rw [scan, Progress.advance_ofBytes_encode hsteps, hadvance]
    cases p <;> rfl

/-- A number is known to be complete when something stands behind it, and not before. -/
example : scan (.ofBytes (utf8 "12") (.failure (utf8 "gone"))) =
      (.error (.readFailure (utf8 "gone")), .ofBytes [] (.failure (utf8 "gone"))) ∧
    scan (.ofBytes (utf8 "12 3") (.failure (utf8 "gone"))) =
      (.ok 12, .ofBytes (utf8 "3") (.failure (utf8 "gone"))) := by
  constructor <;> cbv

end LeadingTerms
