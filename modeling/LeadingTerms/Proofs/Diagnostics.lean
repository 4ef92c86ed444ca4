import LeadingTerms.Proofs.Command
import LeadingTerms.Proofs.Decimal
import LeadingTerms.Proofs.Record

/-!
# What a run logs

A command without arguments whose configuration is found logs a record of its start and, if it has scanned a count, a record
of that count (`Command.plainRun_log`). A log at a talkative level shows both, any other log neither. Each is one line with
fixed text but for the configured name and the count, whatever the name consists of; and the name can be told from the log
(`Command.plainRun_log_exact`).
-/

namespace LeadingTerms

/-- A log at the level shows the records of a run. -/
def Level.Talkative (l : Level) : Prop := l = .debug ∨ l = .trace

theorem Record.shownAt_of_talkative {level : Level} (h : level.Talkative) {r : Record} (hr : r.level = .debug) :
    r.shownAt level = r.line := by
  apply Record.shownAt_of_le
  rw [hr]
  rcases h with rfl | rfl <;> decide

theorem Record.shownAt_of_not_talkative {level : Level} (h : ¬level.Talkative) {r : Record} (hr : r.level = .debug) :
    r.shownAt level = [] := by
  apply Record.shownAt_of_lt
  rw [hr]
  unfold Level.Talkative at h
  cases level with
  | debug => exact absurd (Or.inl rfl) h
  | trace => exact absurd (Or.inr rfl) h
  | _ => decide

/-- The line of a record has one end of line. -/
theorem Record.count_newline_line {r : Record} (h : PlainKey r.key) : r.line.count 0x0A = 1 := by
  obtain ⟨body, hbody, hvisible⟩ := exists_line_eq h
  rw [hbody, List.count_append, List.count_eq_zero.mpr (not_mem_of_visible hvisible)]
  rfl

/-! ## The lines of a run -/

/-- A number stands in a record as it is. -/
theorem Record.shown_signedDecimal (z : Int) : Record.shown (signedDecimal z) = signedDecimal z := by
  have hbare : (signedDecimal z).all Record.isBareByte = true := by
    rw [List.all_eq_true]
    intro b hb
    rcases mem_signedDecimal hb with rfl | ⟨hlo, hhi⟩
    · decide
    · simp [Record.isBareByte, UInt8.le_iff_toNat_le, hlo, hhi]
  rw [Record.shown, if_pos hbare]

/-- The line of a record of a run: its message is not empty, and its key is not set apart. -/
theorem Record.line_debug {message key : Bytes} (hmessage : message.isEmpty = false) (hkey : Record.shownKey key = key)
    (value : Bytes) :
    (⟨.debug, message, key, value⟩ : Record).line =
      utf8 "level=debug msg=" ++ Record.shown message ++ utf8 " " ++ key ++ utf8 "=" ++ Record.shown value ++ utf8 "\n" := by
  have htext : utf8 "level=debug msg=" = utf8 "level=" ++ utf8 "debug" ++ utf8 " msg=" := by decide
  simp only [Record.line, hmessage, hkey, htext, Level.name, Bool.false_eq_true, if_false, List.append_assoc]

namespace Command

/-- The line of the start, with the configured name. -/
def startLine (name : Bytes) : Bytes := utf8 "level=debug msg=starting algorithm=" ++ Record.shown name ++ utf8 "\n"

theorem line_starting (name : Bytes) : (starting name).line = startLine name := by
  have htext : utf8 "level=debug msg=starting algorithm=" = utf8 "level=debug msg=" ++ Record.shown (utf8 "starting") ++
      utf8 " " ++ utf8 "algorithm" ++ utf8 "=" := by decide
  rw [startLine, htext]
  exact Record.line_debug (by decide) (by decide) name

theorem count_newline_startLine (name : Bytes) : (startLine name).count 0x0A = 1 := by
  have hkey : Record.PlainKey (utf8 "algorithm") := by decide
  rw [← line_starting]
  exact Record.count_newline_line hkey

end Command

namespace Dialogue

/-- The line of a count, with the message as it stands there. -/
def countLine (shownMessage : String) (count : Int64) : Bytes :=
  utf8 "level=debug msg=" ++ utf8 shownMessage ++ utf8 " terms=" ++ signedDecimal count.toInt ++ utf8 "\n"

/-- What is logged of a count is one line. -/
theorem shownAt_counted {message shownMessage : String} (hmessage : (utf8 message).isEmpty = false)
    (hshown : Record.shown (utf8 message) = utf8 shownMessage) (count : Int64) :
    (counted message count).shownAt .debug = countLine shownMessage count ∧
      ((counted message count).shownAt .debug).count 0x0A = 1 := by
  have hkey : Record.PlainKey (utf8 "terms") := by decide
  have hterms : utf8 " terms=" = utf8 " " ++ utf8 "terms" ++ utf8 "=" := by decide
  have hline : (counted message count).line = countLine shownMessage count := by
    rw [counted, Record.line_debug hmessage (by decide), hshown, Record.shown_signedDecimal, countLine, hterms]
    simp only [List.append_assoc]
  rw [Record.shownAt_of_talkative (Or.inl rfl) rfl]
  exact ⟨hline, Record.count_newline_line hkey⟩

/-- A count that is turned down. -/
theorem logged_of_nonpos {count : Int64} (h : count ≤ 0) :
    logged .debug (.ok count) = countLine "\"rejecting non-positive term count\"" count ∧
      (logged .debug (.ok count)).count 0x0A = 1 := by
  rw [logged, if_pos h]
  exact shownAt_counted (by decide) (by decide +kernel) count

/-- A count that is accepted. -/
theorem logged_of_pos {count : Int64} (h : 0 < count) :
    logged .debug (.ok count) = countLine "\"generating sequence\"" count ∧
      (logged .debug (.ok count)).count 0x0A = 1 := by
  rw [logged, if_neg (Int64.not_le.mpr h)]
  exact shownAt_counted (by decide) (by decide +kernel) count

end Dialogue

/-! ## The log of a run -/

namespace Command

/-- What a fresh command without arguments leaves. -/
def plainRun (settings : Settings) (env : Environment) (source : Source) : Outcome :=
  (fresh.execute settings env [] source).2.2

section Log

variable {settings : Settings} {env : Environment} {level : Level}
  (hlevel : Level.ofName? (settings.withDefaults.config env).logLevel = some level)
  (hname : (Algorithm.ofName? (settings.withDefaults.config env).algorithm).isSome = true) (source : Source)
include hlevel hname

/-- The log of a run is what its level shows of the record of the start and of the record of the count. -/
theorem plainRun_log :
    (plainRun settings env source).log =
      (starting (settings.withDefaults.config env).algorithm).shownAt level ++ Dialogue.logged level (scan source).1 := by
  have hpasses : fresh.Passes [] := rfl
  have hnone : (none : Option Nat) ≠ some 0 := nofun
  obtain ⟨algorithm, halgorithm⟩ := Option.isSome_iff_exists.mp hname
  rw [plainRun, execute_of_passes fresh settings env source hpasses, converse_of_found hlevel halgorithm]
  simp only
  rw [(Dialogue.outcome_log_rest algorithm.generate level hnone source).1]

/-- At a level that is not talkative a run logs nothing. -/
theorem plainRun_log_of_not_talkative (h : ¬level.Talkative) : (plainRun settings env source).log = [] := by
  rw [plainRun_log hlevel hname, Record.shownAt_of_not_talkative h rfl, List.nil_append]
  cases (scan source).1 with
  | error e => rfl
  | ok count =>
    rw [Dialogue.logged]
    split
    · exact Record.shownAt_of_not_talkative h rfl
    · exact Record.shownAt_of_not_talkative h rfl

/-- At a talkative level it begins with the line of its start, and what follows depends on the scan alone. -/
theorem plainRun_log_of_talkative (h : level.Talkative) :
    (plainRun settings env source).log =
      startLine (settings.withDefaults.config env).algorithm ++ Dialogue.logged .debug (scan source).1 := by
  have hlogged : Dialogue.logged level (scan source).1 = Dialogue.logged .debug (scan source).1 := by
    cases (scan source).1 with
    | error e => rfl
    | ok count =>
      have hdebug : Level.debug.Talkative := Or.inl rfl
      rw [Dialogue.logged, Dialogue.logged]
      split
      · rw [Record.shownAt_of_talkative h rfl, Record.shownAt_of_talkative hdebug rfl]
      · rw [Record.shownAt_of_talkative h rfl, Record.shownAt_of_talkative hdebug rfl]
  rw [plainRun_log hlevel hname, Record.shownAt_of_talkative h rfl, line_starting, hlogged]

end Log

/-- The lines of two starts tell their names, whatever follows. -/
theorem startLine_append_inj {name name' rest rest' : Bytes} (h : startLine name ++ rest = startLine name' ++ rest') :
    name = name' ∧ rest = rest' := by
  have hnewline : utf8 "\n" = [0x0A] := rfl
  unfold startLine at h
  rw [hnewline] at h
  simp only [List.append_assoc, List.singleton_append] at h
  exact Record.shown_append_inj (by decide) (by decide) (List.append_cancel_left h)

/-- The log of a command without arguments whose level and algorithm are found. At a talkative level it is the line of the
start, which holds the configured name bare or quoted, and behind it nothing if the scan failed, the line of a count that is
turned down, or the line of a count that is accepted; this is the count in the header of what was written. There is one end
of line for each record, whatever the name. On the same input another name gives another log. At any other level nothing is
logged. -/
theorem plainRun_log_exact {settings : Settings} {env : Environment} {level : Level}
    (hlevel : Level.ofName? (settings.withDefaults.config env).logLevel = some level)
    (hname : (Algorithm.ofName? (settings.withDefaults.config env).algorithm).isSome = true) (source : Source) :
    (level.Talkative →
      (Record.shown (settings.withDefaults.config env).algorithm = (settings.withDefaults.config env).algorithm ∨
        Record.shown (settings.withDefaults.config env).algorithm =
          quoteText (settings.withDefaults.config env).algorithm) ∧
      (∀ e, (scan source).1 = .error e →
        (plainRun settings env source).log = utf8 "level=debug msg=starting algorithm=" ++
          Record.shown (settings.withDefaults.config env).algorithm ++ utf8 "\n" ∧
        (plainRun settings env source).log.count 0x0A = 1) ∧
      (∀ v, (scan source).1 = .ok v → v ≤ 0 →
        (plainRun settings env source).log = utf8 "level=debug msg=starting algorithm=" ++
          Record.shown (settings.withDefaults.config env).algorithm ++ utf8 "\n" ++
          (utf8 "level=debug msg=\"rejecting non-positive term count\" terms=" ++ signedDecimal v.toInt ++ utf8 "\n") ∧
        (plainRun settings env source).log.count 0x0A = 2) ∧
      (∀ v, (scan source).1 = .ok v → 0 < v →
        (plainRun settings env source).log = utf8 "level=debug msg=starting algorithm=" ++
          Record.shown (settings.withDefaults.config env).algorithm ++ utf8 "\n" ++
          (utf8 "level=debug msg=\"generating sequence\" terms=" ++ signedDecimal v.toInt ++ utf8 "\n") ∧
        (plainRun settings env source).log.count 0x0A = 2 ∧
        ∃ terms, (plainRun settings env source).output = utf8 "Enter the number of terms: Fibonacci Sequence up to " ++
          signedDecimal v.toInt ++ utf8 " terms:\n" ++ terms) ∧
      ∀ (settings' : Settings) (env' : Environment) (level' : Level),
        Level.ofName? (settings'.withDefaults.config env').logLevel = some level' → level'.Talkative →
        (Algorithm.ofName? (settings'.withDefaults.config env').algorithm).isSome = true →
        (settings.withDefaults.config env).algorithm ≠ (settings'.withDefaults.config env').algorithm →
        (plainRun settings env source).log ≠ (plainRun settings' env' source).log) ∧
    (¬level.Talkative → (plainRun settings env source).log = []) := by
  refine ⟨?_, plainRun_log_of_not_talkative hlevel hname source⟩
  intro htalkative
  have hlog := plainRun_log_of_talkative hlevel hname source htalkative
  have hstart := count_newline_startLine (settings.withDefaults.config env).algorithm
  refine ⟨?_, ?_, ?_, ?_, ?_⟩
  · rw [Record.shown]
    split
    · exact Or.inl rfl
    · exact Or.inr rfl
  · intro e he
    rw [hlog, he, Dialogue.logged, List.append_nil]
    exact ⟨rfl, hstart⟩
  · intro v hv hle
    obtain ⟨hline, hcount⟩ := Dialogue.logged_of_nonpos hle
    have htext : utf8 "level=debug msg=\"rejecting non-positive term count\" terms=" =
        utf8 "level=debug msg=" ++ utf8 "\"rejecting non-positive term count\"" ++ utf8 " terms=" := by decide
    rw [hlog, hv, List.count_append, hstart, hcount, hline, htext]
    exact ⟨rfl, rfl⟩
  · intro v hv hpos
    obtain ⟨hline, hcount⟩ := Dialogue.logged_of_pos hpos
    have hgenerating : utf8 "level=debug msg=\"generating sequence\" terms=" =
        utf8 "level=debug msg=" ++ utf8 "\"generating sequence\"" ++ utf8 " terms=" := by decide
    rw [hlog, hv, List.count_append, hstart, hcount, hline, hgenerating]
    refine ⟨rfl, rfl, ?_⟩
    have hpasses : fresh.Passes [] := rfl
    have hfound : (settings.withDefaults.config env).Found := ⟨by simp [hlevel], hname⟩
    have houtput := (converse_output_error hfound source).1
    rw [hv, Dialogue.flatten_chunks_of_pos hpos] at houtput
    rw [plainRun, execute_of_passes fresh settings env source hpasses, houtput]
    have htext : utf8 "Enter the number of terms: Fibonacci Sequence up to " =
        Dialogue.prompt ++ utf8 "Fibonacci Sequence up to " := by decide
    refine ⟨((List.range v.toNatClampNeg).flatMap fun i => decimal (fib i % 2 ^ 64) ++ utf8 " ") ++ utf8 "\n", ?_⟩
    rw [htext, Dialogue.header]
    simp only [List.append_assoc]
  · intro settings' env' level' hlevel' htalkative' hname' hne hsame
    rw [hlog, plainRun_log_of_talkative hlevel' hname' source htalkative'] at hsame
    exact hne (startLine_append_inj hsame).1

/-- A name with a line of its own in it, as far as spaces go: it is quoted and stays on its line. -/
theorem plainRun_log_exact_padded :
    Level.ofName? ((Settings.empty.set (utf8 "algorithm") (.text (utf8 "Iterative\n\u2028"))).withDefaults.config
      (Environment.ofList [(utf8 "FIBSEQ_LOG_LEVEL", utf8 "TRACE")])).logLevel = some .trace ∧
    (Algorithm.ofName? ((Settings.empty.set (utf8 "algorithm") (.text (utf8 "Iterative\n\u2028"))).withDefaults.config
      (Environment.ofList [(utf8 "FIBSEQ_LOG_LEVEL", utf8 "TRACE")])).algorithm).isSome = true ∧
    (plainRun (Settings.empty.set (utf8 "algorithm") (.text (utf8 "Iterative\n\u2028")))
      (Environment.ofList [(utf8 "FIBSEQ_LOG_LEVEL", utf8 "TRACE")]) (.characters (utf8 "-7"))).log =
      utf8 "level=debug msg=starting algorithm=\"Iterative\\n\\u2028\"\n" ++
        utf8 "level=debug msg=\"rejecting non-positive term count\" terms=-7\n" := by
  have hlevel : Level.ofName? ((Settings.empty.set (utf8 "algorithm")
      (.text (utf8 "Iterative\n\u2028"))).withDefaults.config
      (Environment.ofList [(utf8 "FIBSEQ_LOG_LEVEL", utf8 "TRACE")])).logLevel = some .trace := by decide +kernel
  have hname : (Algorithm.ofName? ((Settings.empty.set (utf8 "algorithm")
      (.text (utf8 "Iterative\n\u2028"))).withDefaults.config
      (Environment.ofList [(utf8 "FIBSEQ_LOG_LEVEL", utf8 "TRACE")])).algorithm).isSome = true := by decide +kernel
  have hscan : (scan (.characters (utf8 "-7"))).1 = .ok (-7) := by cbv
  obtain ⟨-, -, hrejected, -⟩ := (plainRun_log_exact hlevel hname (.characters (utf8 "-7"))).1 (Or.inr rfl)
  refine ⟨hlevel, hname, (hrejected (-7) hscan (by decide)).1.trans ?_⟩
  decide +kernel

end Command

end LeadingTerms
