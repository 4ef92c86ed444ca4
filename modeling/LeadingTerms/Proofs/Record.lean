import Mathlib.Data.Bool.AllAny
import LeadingTerms.Diagnostics.Record
import LeadingTerms.Resolve
import LeadingTerms.Proofs.Quoted

/-!
# What the lines of a log tell

A record is written on one line: everything in front of its end is visible, whatever bytes its message and its value consist
of (`Record.exists_line_eq`). The line tells the record. Its level ends at the first blank. A message is there exactly if the
next field has the key `msg`, because no other field can have that key. A text in it is bare and ends where a byte stands
that no bare text contains, or it is quoted and ends with its quote (`Record.shown_append_inj`). So different records with
the same key have different lines (`Record.line_inj`).
-/

namespace LeadingTerms

/-- A byte that two lists do not contain ends both at the same place. -/
theorem append_cons_inj_of_not_mem {b : UInt8} {l l' r r' : Bytes} (h : b ∉ l) (h' : b ∉ l')
    (heq : l ++ b :: r = l' ++ b :: r') : l = l' ∧ r = r' := by
  have hsplit := congrArg (List.splitOn b) heq
  rw [List.splitOn_append_cons_self_of_not_mem h, List.splitOn_append_cons_self_of_not_mem h', List.cons.injEq] at hsplit
  obtain ⟨rfl, -⟩ := hsplit
  exact ⟨rfl, (List.cons.inj (List.append_cancel_left heq)).2⟩

/-- A level is found under the name it is printed under. -/
theorem Level.ofName?_name (l : Level) : Level.ofName? (utf8 l.name) = some l := by
  cases l <;> decide +kernel

/-- The level of a text is the one of which it spells a name. -/
theorem Level.exists_name_of_findLevel {text : Bytes} {level : Level} (h : findLevel text = .ok level) :
    ∃ name ∈ level.names, spells name (decode text) = true := by
  have hfound : Level.ofName? text = some level := found_eq_ok_iff.mp h
  unfold Level.ofName? at hfound
  have hname := List.find?_some hfound
  exact List.any_eq_true.mp hname

namespace Record

/-! ## Texts in a line -/

/-- A byte of a bare text is visible and no quote. -/
theorem visible_of_isBareByte {b : UInt8} (h : isBareByte b = true) : Visible b ∧ b ≠ 0x22 := by
  have hmarks : ∀ m ∈ utf8 "-._/@^+", Visible m ∧ m ≠ 0x22 := List.all_iff_forall_prop.mp (by decide)
  unfold isBareByte at h
  simp only [Bool.or_eq_true, Bool.and_eq_true, decide_eq_true_eq, List.contains_iff_mem, UInt8.le_iff_toNat_le,
    UInt8.reduceToNat] at h
  rcases h with hplain | hmark
  · simp only [Visible, ne_eq, ← UInt8.toNat_inj, UInt8.reduceToNat]
    omega
  · exact hmarks b hmark

/-- A text in a line is visible, whatever the text. -/
theorem visible_shown (text : Bytes) : ∀ b ∈ shown text, Visible b := by
  unfold shown
  split
  · rename_i hbare
    intro b hb
    exact (visible_of_isBareByte (List.all_eq_true.mp hbare b hb)).1
  · exact visible_quoteText text

/-- A bare text and what ends it do not look like a quoted one. -/
theorem append_cons_ne_quoteText {text : Bytes} (h : text.all isBareByte = true) {b : UInt8} (hb : b ≠ 0x22)
    (rest text' rest' : Bytes) : text ++ b :: rest ≠ quoteText text' ++ rest' := by
  intro heq
  have hquote : quoteText text' ++ rest' =
      0x22 :: ((decode text').flatMap (Quoted.symbol '\x22') ++ utf8 "\"" ++ rest') := rfl
  rw [hquote] at heq
  cases text with
  | nil => exact hb (List.cons.inj heq).1
  | cons first text =>
    have hfirst := List.all_eq_true.mp h first (by simp)
    exact (visible_of_isBareByte hfirst).2 (List.cons.inj heq).1

/-- A text in a line is told by what it is and where it ends, if a byte follows that can stand in no bare text and is no
quote. -/
theorem shown_append_inj {b : UInt8} (hb : isBareByte b = false) (hquote : b ≠ 0x22) {text text' rest rest' : Bytes}
    (h : shown text ++ b :: rest = shown text' ++ b :: rest') : text = text' ∧ rest = rest' := by
  have hnot : ∀ t : Bytes, t.all isBareByte = true → b ∉ t := by
    intro t ht hmem
    rw [List.all_eq_true.mp ht b hmem] at hb
    cases hb
  unfold shown at h
  by_cases ht : text.all isBareByte = true
  · by_cases ht' : text'.all isBareByte = true
    · rw [if_pos ht, if_pos ht'] at h
      exact append_cons_inj_of_not_mem (hnot text ht) (hnot text' ht') h
    · rw [if_pos ht, if_neg ht'] at h
      exact absurd h (append_cons_ne_quoteText ht hquote _ _ _)
  · by_cases ht' : text'.all isBareByte = true
    · rw [if_neg ht, if_pos ht'] at h
      exact absurd h.symm (append_cons_ne_quoteText ht' hquote _ _ _)
    · rw [if_neg ht, if_neg ht'] at h
      obtain ⟨htext, hrest⟩ := quoteText_append_inj h
      exact ⟨htext, (List.cons.inj hrest).2⟩

/-! ## Keys -/

/-- Whether a byte may stand in a plain key: a letter, a digit or the underscore. -/
def isKeyByte (b : UInt8) : Bool :=
  (0x61 ≤ b && b ≤ 0x7A) || (0x41 ≤ b && b ≤ 0x5A) || (0x30 ≤ b && b ≤ 0x39) || b == 0x5F

/-- The key consists of letters, digits and underscores. -/
def PlainKey (key : Bytes) : Prop := ∀ b ∈ key, isKeyByte b = true

instance : DecidablePred PlainKey := fun key => List.decidableBAll (isKeyByte · = true) key

/-- A plain key is written in visible bytes, without an equals sign. -/
theorem PlainKey.shownKey {key : Bytes} (h : PlainKey key) : ∀ b ∈ Record.shownKey key, Visible b ∧ b ≠ 0x3D := by
  have hfields : ∀ b ∈ utf8 "fields.", Visible b ∧ b ≠ 0x3D := List.all_iff_forall_prop.mp (by decide)
  have hkey : ∀ b ∈ key, Visible b ∧ b ≠ 0x3D := by
    intro b hb
    have hplain := h b hb
    unfold isKeyByte at hplain
    simp only [Bool.or_eq_true, Bool.and_eq_true, decide_eq_true_eq, beq_iff_eq, UInt8.le_iff_toNat_le,
      ← UInt8.toNat_inj, UInt8.reduceToNat] at hplain
    simp only [Visible, ne_eq, ← UInt8.toNat_inj, UInt8.reduceToNat]
    omega
  unfold Record.shownKey
  split
  · intro b hb
    rcases List.mem_append.mp hb with hb | hb
    · exact hfields b hb
    · exact hkey b hb
  · exact hkey

/-- No field has the key of the message: a field that was given this key is set apart. -/
theorem shownKey_ne_msg (key : Bytes) : shownKey key ≠ utf8 "msg" := by
  unfold shownKey
  split
  · intro h
    cases h
  · rename_i hfree
    rintro rfl
    exact hfree (by decide)

/-! ## Lines -/

/-- The field of a record, to the end of its line. -/
def field (r : Record) : Bytes := shownKey r.key ++ 0x3D :: (shown r.value ++ [0x0A])

/-- What stands behind the level in the line of a record. -/
def behindLevel (r : Record) : Bytes :=
  if r.message.isEmpty then r.field else utf8 "msg" ++ 0x3D :: (shown r.message ++ 0x20 :: r.field)

/-- A line is a level, a blank and what stands behind it. -/
theorem line_eq (r : Record) : r.line = utf8 "level=" ++ (utf8 r.level.name ++ 0x20 :: r.behindLevel) := by
  have hblank : utf8 " " = [0x20] := rfl
  have hequals : utf8 "=" = [0x3D] := rfl
  have hnewline : utf8 "\n" = [0x0A] := rfl
  have hmsg : utf8 " msg=" = 0x20 :: (utf8 "msg" ++ [0x3D]) := rfl
  unfold line behindLevel field
  rw [hblank, hequals, hnewline, hmsg]
  split <;> simp

/-- A line consists of visible bytes and the end of the line. -/
theorem exists_line_eq {r : Record} (h : PlainKey r.key) :
    ∃ body, r.line = body ++ [0x0A] ∧ ∀ b ∈ body, Visible b := by
  have htext : ∀ b ∈ utf8 "level=" ++ utf8 r.level.name ++ [0x20], Visible b := by
    cases r.level <;> exact List.all_iff_forall_prop.mp (by decide)
  have hmsg : ∀ b ∈ utf8 "msg" ++ [0x3D], Visible b := List.all_iff_forall_prop.mp (by decide)
  have hblank : Visible 0x20 := by decide
  have hequals : Visible 0x3D := by decide
  have hfield : ∀ b ∈ shownKey r.key ++ 0x3D :: shown r.value, Visible b := by
    intro b hb
    rcases List.mem_append.mp hb with hb | hb
    · exact (h.shownKey b hb).1
    · rcases List.mem_cons.mp hb with rfl | hb
      · exact hequals
      · exact visible_shown r.value b hb
  rw [line_eq, behindLevel]
  split
  · refine ⟨utf8 "level=" ++ utf8 r.level.name ++ [0x20] ++ (shownKey r.key ++ 0x3D :: shown r.value), ?_, ?_⟩
    · simp [field]
    · intro b hb
      rcases List.mem_append.mp hb with hb | hb
      · exact htext b hb
      · exact hfield b hb
  · refine ⟨utf8 "level=" ++ utf8 r.level.name ++ [0x20] ++ (utf8 "msg" ++ [0x3D]) ++
      (shown r.message ++ 0x20 :: (shownKey r.key ++ 0x3D :: shown r.value)), ?_, ?_⟩
    · simp [field]
    · intro b hb
      rcases List.mem_append.mp hb with hb | hb
      · rcases List.mem_append.mp hb with hb | hb
        · exact htext b hb
        · exact hmsg b hb
      · rcases List.mem_append.mp hb with hb | hb
        · exact visible_shown r.message b hb
        · rcases List.mem_cons.mp hb with rfl | hb
          · exact hblank
          · exact hfield b hb

/-- A visible byte is not the end of a line. -/
theorem not_mem_of_visible {body : Bytes} (h : ∀ b ∈ body, Visible b) : (0x0A : UInt8) ∉ body := by
  intro hmem
  exact absurd (h _ hmem).1 (by decide)

/-- Fields with the same key tell their values. -/
theorem field_inj {r r' : Record} (hkey : r.key = r'.key) (h : r.field = r'.field) : r.value = r'.value := by
  unfold field at h
  rw [hkey] at h
  have hvalue := (List.cons.inj (List.append_cancel_left h)).2
  exact (shown_append_inj (by decide) (by decide) hvalue).1

/-- A field does not look like a message. -/
theorem field_ne_message {r : Record} (h : PlainKey r.key) (rest : Bytes) : r.field ≠ utf8 "msg" ++ 0x3D :: rest := by
  intro heq
  have hkey : (0x3D : UInt8) ∉ shownKey r.key := fun hmem => (h.shownKey _ hmem).2 rfl
  exact shownKey_ne_msg r.key (append_cons_inj_of_not_mem hkey (by decide) heq).1

/-- What stands behind the level tells message and value. -/
theorem behindLevel_inj {r r' : Record} (h : PlainKey r.key) (hkey : r.key = r'.key)
    (heq : r.behindLevel = r'.behindLevel) : r.message = r'.message ∧ r.value = r'.value := by
  have h' : PlainKey r'.key := hkey ▸ h
  unfold behindLevel at heq
  by_cases hm : r.message.isEmpty = true
  · by_cases hm' : r'.message.isEmpty = true
    · rw [if_pos hm, if_pos hm'] at heq
      exact ⟨(List.isEmpty_iff.mp hm).trans (List.isEmpty_iff.mp hm').symm, field_inj hkey heq⟩
    · rw [if_pos hm, if_neg hm'] at heq
      exact absurd heq (field_ne_message h _)
  · by_cases hm' : r'.message.isEmpty = true
    · rw [if_neg hm, if_pos hm'] at heq
      exact absurd heq.symm (field_ne_message h' _)
    · rw [if_neg hm, if_neg hm'] at heq
      have hshown := (List.cons.inj (List.append_cancel_left heq)).2
      obtain ⟨hmessage, hfield⟩ := shown_append_inj (by decide) (by decide) hshown
      exact ⟨hmessage, field_inj hkey hfield⟩

/-- A line tells the record, given its key. -/
theorem line_inj {r r' : Record} (h : PlainKey r.key) (hkey : r.key = r'.key) (heq : r.line = r'.line) : r = r' := by
  have hname : ∀ l : Level, (0x20 : UInt8) ∉ utf8 l.name := by
    intro l
    cases l <;> decide
  rw [line_eq, line_eq] at heq
  obtain ⟨hlevel, hbehind⟩ := append_cons_inj_of_not_mem (hname _) (hname _) (List.append_cancel_left heq)
  obtain ⟨hmessage, hvalue⟩ := behindLevel_inj h hkey hbehind
  have hlevel : r.level = r'.level := by
    have hfound := Level.ofName?_name r.level
    rw [hlevel, Level.ofName?_name] at hfound
    exact (Option.some.inj hfound).symm
  cases r
  cases r'
  simp only at hlevel hmessage hkey hvalue
  rw [hlevel, hmessage, hkey, hvalue]

/-! ## Logs at a level -/

theorem shownAt_of_le {threshold : Level} {r : Record} (h : r.level.rank ≤ threshold.rank) : r.shownAt threshold = r.line := by
  simp [shownAt, Level.shownAt, h]

theorem shownAt_of_lt {threshold : Level} {r : Record} (h : threshold.rank < r.level.rank) : r.shownAt threshold = [] := by
  simp [shownAt, Level.shownAt, Nat.not_le.mpr h]

theorem line_ne_nil (r : Record) : r.line ≠ [] := by
  rw [line_eq]
  simp

/-- A record leaves no trace exactly if the log is at a graver level. -/
theorem shownAt_eq_nil_iff (threshold : Level) (r : Record) :
    r.shownAt threshold = [] ↔ threshold.rank < r.level.rank := by
  constructor
  · intro h
    by_contra hle
    rw [shownAt_of_le (Nat.not_lt.mp hle)] at h
    exact line_ne_nil r h
  · exact shownAt_of_lt

/-- What is shown of a record is its line. -/
theorem shownAt_eq_line {threshold : Level} {r : Record} (h : r.shownAt threshold ≠ []) : r.shownAt threshold = r.line := by
  rw [ne_eq, shownAt_eq_nil_iff, Nat.not_lt] at h
  exact shownAt_of_le h

/-- What a log at a level that some text names shows of records with a plain key. The answer to a record is empty exactly if
the record is less grave than the level; otherwise it is one line with a single end of line, at its end. Different records
never have the same line, also not in two logs. A line that is shown at one level is shown unchanged at every level that is
more talkative. -/
theorem shownAt_lines {text : Bytes} {level : Level} (hlevel : findLevel text = .ok level) {key : Bytes}
    (hkey : PlainKey key) :
    (∃ name ∈ level.names, spells name (decode text) = true) ∧
    (∀ (records : List Record), (∀ r ∈ records, r.key = key) → ∀ (i : Nat) (r : Record), records[i]? = some r →
      ∃ answer, (records.map (Record.shownAt level))[i]? = some answer ∧
        (answer = [] ↔ level.rank < r.level.rank) ∧
        (answer ≠ [] → ∃ body, answer = body ++ [0x0A] ∧ 0x0A ∉ body)) ∧
    (∀ (text' : Bytes) (level' : Level), findLevel text' = .ok level' → ∀ r r' : Record, r.key = key → r'.key = key →
      r.shownAt level ≠ [] → r.shownAt level = r'.shownAt level' → r = r') ∧
    ∀ (text' : Bytes) (level' : Level), findLevel text' = .ok level' → level.rank ≤ level'.rank →
      ∀ r : Record, r.shownAt level ≠ [] → r.shownAt level' = r.shownAt level := by
  refine ⟨Level.exists_name_of_findLevel hlevel, ?_, ?_, ?_⟩
  · intro records hrecords i r hr
    have hplain : PlainKey r.key := by
      rw [hrecords r (List.mem_of_getElem? hr)]
      exact hkey
    refine ⟨r.shownAt level, by simp [hr], shownAt_eq_nil_iff level r, ?_⟩
    intro hshown
    obtain ⟨body, hbody, hvisible⟩ := exists_line_eq hplain
    exact ⟨body, (shownAt_eq_line hshown).trans hbody, not_mem_of_visible hvisible⟩
  · intro _ level' _ r r' hr hr' hshown hsame
    have hshown' : r'.shownAt level' ≠ [] := hsame ▸ hshown
    rw [shownAt_eq_line hshown, shownAt_eq_line hshown'] at hsame
    have hplain : PlainKey r.key := by
      rw [hr]
      exact hkey
    exact line_inj hplain (hr.trans hr'.symm) hsame
  · intro _ level' _ hle r hshown
    have hshown' := hshown
    rw [ne_eq, shownAt_eq_nil_iff, Nat.not_lt] at hshown'
    rw [shownAt_eq_line hshown, shownAt_of_le (Nat.le_trans hshown' hle)]

/-- A message that imitates a field, under a key that is set apart: it is quoted, and told from that field. -/
theorem shownAt_lines_msg :
    findLevel (utf8 "Debug") = .ok .debug ∧
    PlainKey (utf8 "msg") ∧
    (⟨.error, [], utf8 "msg", utf8 "a"⟩ : Record).shownAt .debug = utf8 "level=error fields.msg=a\n" ∧
    (⟨.error, utf8 "a fields.msg=\n", utf8 "msg", []⟩ : Record).shownAt .debug =
      utf8 "level=error msg=\"a fields.msg=\\n\" fields.msg=\n" ∧
    (⟨.error, [], utf8 "msg", utf8 "a"⟩ : Record).shownAt .trace = utf8 "level=error fields.msg=a\n" := by
  have hlevel : findLevel (utf8 "Debug") = .ok .debug := by decide +kernel
  have hlevel' : findLevel (utf8 "trace") = .ok .trace := by decide +kernel
  have hkey : PlainKey (utf8 "msg") := by decide
  obtain ⟨-, -, -, htalkative⟩ := shownAt_lines hlevel hkey
  have hshown : (⟨.error, [], utf8 "msg", utf8 "a"⟩ : Record).shownAt .debug = utf8 "level=error fields.msg=a\n" := by
    decide +kernel
  refine ⟨hlevel, hkey, hshown, by decide +kernel, ?_⟩
  rw [htalkative (utf8 "trace") .trace hlevel' (by decide) _ (by rw [hshown]; decide)]
  exact hshown

end Record

end LeadingTerms
