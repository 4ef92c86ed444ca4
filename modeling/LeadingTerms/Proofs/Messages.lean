import LeadingTerms.Proofs.Program
import LeadingTerms.Proofs.Record

/-!
# Messages about names that are not found

A name that stands for no algorithm, or for no level, is shown between quotes behind a fixed text, as it was given. Quoted
texts are encoded characters whatever the bytes of the text (`encoded_quoteText`), and they are visible, so such a message is
one line that can be printed anywhere (`OneLine`). Texts that differ in anything differ in their quoted forms, so the message
tells the name. A program without arguments whose level or algorithm is not found writes the one message on one line and
nothing else (`Program.errors_of_fault`).
-/

namespace LeadingTerms

/-! ## Encoded texts -/

/-- The bytes are the encoding of a string. -/
def Encoded (text : Bytes) : Prop := ∃ s : String, text = utf8 s

theorem encoded_encode (cs : List Char) : Encoded (encode cs) := ⟨String.ofList cs, (utf8_ofList cs).symm⟩

theorem Encoded.append {text text' : Bytes} (h : Encoded text) (h' : Encoded text') : Encoded (text ++ text') := by
  obtain ⟨s, rfl⟩ := h
  obtain ⟨s', rfl⟩ := h'
  exact ⟨s ++ s', (utf8_append s s').symm⟩

/-- Encoded texts one after another are encoded. -/
theorem encoded_flatMap {α : Type} {f : α → Bytes} (h : ∀ x, Encoded (f x)) (xs : List α) : Encoded (xs.flatMap f) := by
  induction xs with
  | nil => exact ⟨"", rfl⟩
  | cons x xs ih =>
    rw [List.flatMap_cons]
    exact (h x).append ih

namespace Quoted

theorem encoded_hexDigits (width n : Nat) : Encoded (hexDigits width n) := by
  induction width generalizing n with
  | zero => exact ⟨"", rfl⟩
  | succ k ih => exact (ih (n / 16)).append (encoded_encode _)

/-- A quoted character is encoded, in each of the ways in which it can be written. -/
theorem encoded_char (quote c : Char) : Encoded (char quote c) := by
  unfold char
  split
  · exact encoded_encode _
  · split
    · exact encoded_encode _
    · split
      · exact encoded_encode _
      · simp only
        split
        · exact Encoded.append ⟨_, rfl⟩ (encoded_hexDigits 2 c.toNat)
        · split
          · exact Encoded.append ⟨_, rfl⟩ (encoded_hexDigits 4 c.toNat)
          · exact Encoded.append ⟨_, rfl⟩ (encoded_hexDigits 8 c.toNat)

/-- A quoted symbol is encoded, also if the symbol is a byte that is part of no character. -/
theorem encoded_symbol (quote : Char) (s : Symbol) : Encoded (symbol quote s) := by
  cases s with
  | char c => exact encoded_char quote c
  | stray b => exact Encoded.append ⟨_, rfl⟩ (encoded_hexDigits 2 b.toNat)

end Quoted

/-- A quoted text is encoded, whatever the bytes of the text. -/
theorem encoded_quoteText (text : Bytes) : Encoded (quoteText text) :=
  (Encoded.append ⟨_, rfl⟩ (encoded_flatMap (Quoted.encoded_symbol _) (decode text))).append ⟨_, rfl⟩

/-! ## Texts on one line -/

/-- The text is the encoding of a string and has no control in it. -/
structure OneLine (text : Bytes) : Prop where
  encoded : Encoded text
  visible : ∀ b ∈ text, Visible b

theorem OneLine.append {text text' : Bytes} (h : OneLine text) (h' : OneLine text') : OneLine (text ++ text') := by
  refine ⟨h.encoded.append h'.encoded, fun b hb => ?_⟩
  rcases List.mem_append.mp hb with hb | hb
  · exact h.visible b hb
  · exact h'.visible b hb

theorem oneLine_quoteText (text : Bytes) : OneLine (quoteText text) := ⟨encoded_quoteText text, visible_quoteText text⟩

/-- A string without controls. -/
theorem oneLine_utf8 {s : String} (h : (utf8 s).all (Visible ·) = true) : OneLine (utf8 s) :=
  ⟨⟨s, rfl⟩, List.all_iff_forall_prop.mp h⟩

/-- Behind a fixed text, a quoted text tells the text. -/
theorem append_quoteText_inj {lead text text' : Bytes} (h : lead ++ quoteText text = lead ++ quoteText text') :
    text = text' := by
  have hquoted := List.append_cancel_left h
  rw [← List.append_nil (quoteText text), ← List.append_nil (quoteText text')] at hquoted
  exact (quoteText_append_inj hquoted).1

/-! ## Names that are not found -/

/-- The message about an algorithm that is not found. -/
theorem message_of_findAlgorithm {name : Bytes} {e : Error} (h : findAlgorithm name = .error e) :
    e.message = utf8 "unknown algorithm " ++ quoteText name := by
  have htext : utf8 Error.unknownAlgorithmText ++ utf8 " " = utf8 "unknown algorithm " := (utf8_append _ _).symm
  obtain ⟨-, rfl⟩ := found_eq_error_iff.mp h
  rw [Error.message, htext]

/-- The message about a level that is not found. -/
theorem message_of_findLevel {text : Bytes} {e : Error} (h : findLevel text = .error e) :
    e.message = utf8 "invalid log level: not a valid logrus Level: " ++ quoteText text := by
  obtain ⟨-, rfl⟩ := found_eq_error_iff.mp h
  rfl

/-- Both are on one line. -/
theorem oneLine_message {text : Bytes} {e : Error} (h : findAlgorithm text = .error e ∨ findLevel text = .error e) :
    OneLine e.message := by
  rcases h with h | h
  · rw [message_of_findAlgorithm h]
    exact (oneLine_utf8 (by decide)).append (oneLine_quoteText text)
  · rw [message_of_findLevel h]
    exact (oneLine_utf8 (by decide)).append (oneLine_quoteText text)

/-! ## The program -/

namespace Program

/-- Without arguments the environment alone decides. -/
theorem execute_nil (env : Environment) (source : Source) :
    execute env [] source = Command.converse ⟨env.configured .algorithm, env.configured .logLevel⟩ source := by
  have hpasses : Command.fresh.Passes [] := rfl
  rw [execute_of_no_request rfl, ← config_empty]
  exact Command.execute_of_passes .fresh .empty env source hpasses

/-- A run that did nothing but fail shows its message and nothing else. -/
theorem run_of_failed {env : Environment} {args : List Bytes} {source : Source} {e : Error}
    (h : execute env args source = .failed e source) :
    run env args source = ⟨1, [], utf8 "Error: " ++ e.message ++ utf8 "\n"⟩ := by
  rw [run, h]
  rfl

/-- A level that is not found is what the program shows. -/
theorem run_of_unknownLevel {env : Environment} {e : Error} (h : findLevel (env.configured .logLevel) = .error e)
    (source : Source) : run env [] source = ⟨1, [], utf8 "Error: " ++ e.message ++ utf8 "\n"⟩ := by
  obtain ⟨hnone, rfl⟩ := found_eq_error_iff.mp h
  apply run_of_failed
  rw [execute_nil]
  exact Command.converse_of_level_none hnone source

/-- So is an algorithm that is not found, if the level is. -/
theorem run_of_unknownAlgorithm {env : Environment} {level : Level} {e : Error}
    (hlevel : findLevel (env.configured .logLevel) = .ok level)
    (h : findAlgorithm (env.configured .algorithm) = .error e) (source : Source) :
    run env [] source = ⟨1, [], utf8 "Error: " ++ e.message ++ utf8 "\n"⟩ := by
  obtain ⟨hnone, rfl⟩ := found_eq_error_iff.mp h
  have hfound : Level.ofName? (env.configured .logLevel) = some level := found_eq_ok_iff.mp hlevel
  apply run_of_failed
  rw [execute_nil]
  exact Command.converse_of_algorithm_none hfound hnone source

/-- The message of a name that is not found stands on a line of its own. -/
theorem errors_of_fault {text : Bytes} {e : Error} (h : findAlgorithm text = .error e ∨ findLevel text = .error e) :
    ∃ line, utf8 "Error: " ++ e.message ++ utf8 "\n" = line ++ [0x0A] ∧ OneLine line :=
  ⟨utf8 "Error: " ++ e.message, rfl, (oneLine_utf8 (by decide)).append (oneLine_message h)⟩

/-- What is told of names that are not found. The message about one is a fixed text and the name between quotes, as it was
given. Different names have different messages. Every such message is the encoding of a string and has no control in it.
So a program without arguments whose level or algorithm is not found, whatever its environment and its input, writes a
single line on its error output: the message about the level, or else the one about the algorithm. -/
theorem configuration_faults_told :
    (∀ name e, findAlgorithm name = .error e → e.message = utf8 "unknown algorithm " ++ quoteText name) ∧
    (∀ text e, findLevel text = .error e →
      e.message = utf8 "invalid log level: not a valid logrus Level: " ++ quoteText text) ∧
    (∀ name name' e e', findAlgorithm name = .error e → findAlgorithm name' = .error e' → name ≠ name' →
      e.message ≠ e'.message) ∧
    (∀ text text' e e', findLevel text = .error e → findLevel text' = .error e' → text ≠ text' →
      e.message ≠ e'.message) ∧
    (∀ text e, findAlgorithm text = .error e ∨ findLevel text = .error e →
      (∃ s : String, e.message = utf8 s) ∧ ∀ b ∈ e.message, 0x20 ≤ b.toNat ∧ b.toNat ≠ 0x7F) ∧
    ∀ (env : Environment) (source : Source),
      (∀ e, findLevel (env.configured .logLevel) = .error e →
        (run env [] source).errors = utf8 "Error: " ++ e.message ++ utf8 "\n") ∧
      (∀ level e, findLevel (env.configured .logLevel) = .ok level → findAlgorithm (env.configured .algorithm) = .error e →
        (run env [] source).errors = utf8 "Error: " ++ e.message ++ utf8 "\n") ∧
      ((∃ e, findLevel (env.configured .logLevel) = .error e) ∨ (∃ e, findAlgorithm (env.configured .algorithm) = .error e) →
        ∃ line, run env [] source = ⟨1, [], line ++ [0x0A]⟩ ∧ 0x0A ∉ line) := by
  refine ⟨fun _ _ h => message_of_findAlgorithm h, fun _ _ h => message_of_findLevel h, ?_, ?_, ?_, ?_⟩
  · intro name name' e e' h h' hne heq
    rw [message_of_findAlgorithm h, message_of_findAlgorithm h'] at heq
    exact hne (append_quoteText_inj heq)
  · intro text text' e e' h h' hne heq
    rw [message_of_findLevel h, message_of_findLevel h'] at heq
    exact hne (append_quoteText_inj heq)
  · intro text e h
    exact ⟨(oneLine_message h).encoded, (oneLine_message h).visible⟩
  · intro env source
    refine ⟨fun e h => ?_, fun level e hlevel h => ?_, fun hfault => ?_⟩
    · rw [run_of_unknownLevel h]
    · rw [run_of_unknownAlgorithm hlevel h]
    · -- The level is looked at first; the algorithm matters only if the level is found.
      cases hlevel : findLevel (env.configured .logLevel) with
      | error e =>
        obtain ⟨line, hline, honeLine⟩ := errors_of_fault (Or.inr hlevel)
        rw [run_of_unknownLevel hlevel, hline]
        exact ⟨line, rfl, Record.not_mem_of_visible honeLine.visible⟩
      | ok level =>
        rw [hlevel] at hfault
        obtain ⟨_, hcontra⟩ | ⟨e, halgorithm⟩ := hfault
        · cases hcontra
        · obtain ⟨line, hline, honeLine⟩ := errors_of_fault (Or.inl halgorithm)
          rw [run_of_unknownAlgorithm hlevel halgorithm, hline]
          exact ⟨line, rfl, Record.not_mem_of_visible honeLine.visible⟩

/-- A byte that is no character and the character with the same number are no algorithms, and are told apart. A level with an
end of line in it is told on one line, and hides an algorithm that is not found either. -/
theorem configuration_faults_told_confusable :
    findAlgorithm [0x80] = .error (.unknownAlgorithm [0x80]) ∧
    findAlgorithm (utf8 "\u0080") = .error (.unknownAlgorithm (utf8 "\u0080")) ∧
    (Error.unknownAlgorithm [0x80]).message = utf8 "unknown algorithm \"\\x80\"" ∧
    (Error.unknownAlgorithm [0x80]).message ≠ (Error.unknownAlgorithm (utf8 "\u0080")).message ∧
    findLevel (Environment.configured ⟨some (utf8 "nope"), some (utf8 "loud\n")⟩ .logLevel) =
      .error (.unknownLevel (utf8 "loud\n")) ∧
    (run ⟨some (utf8 "nope"), some (utf8 "loud\n")⟩ [] (.characters (utf8 "5"))).errors =
      utf8 "Error: invalid log level: not a valid logrus Level: \"loud\\n\"\n" := by
  have hbyte : findAlgorithm [0x80] = .error (.unknownAlgorithm [0x80]) := by decide +kernel
  have hcharacter : findAlgorithm (utf8 "\u0080") = .error (.unknownAlgorithm (utf8 "\u0080")) := by decide +kernel
  have hlevel : findLevel (Environment.configured ⟨some (utf8 "nope"), some (utf8 "loud\n")⟩ .logLevel) =
      .error (.unknownLevel (utf8 "loud\n")) := by decide +kernel
  obtain ⟨htext, -, hdiffer, -, -, hrun⟩ := configuration_faults_told
  refine ⟨hbyte, hcharacter, (htext _ _ hbyte).trans ?_, hdiffer _ _ _ _ hbyte hcharacter ?_, hlevel,
    ((hrun _ (.characters (utf8 "5"))).1 _ hlevel).trans ?_⟩
  · decide +kernel
  · decide +kernel
  · decide +kernel

end Program

end LeadingTerms
