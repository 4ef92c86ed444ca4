import LeadingTerms.Command
import LeadingTerms.Proofs.Arguments
import LeadingTerms.Proofs.Dialogue

/-!
# The stages of a command

A command looks at its arguments first: at a mistake in them, then at the wish for help, then at the operands. Only if all
three let it pass does it ask for its configuration (`Command.execute_of_passes`), in which the level comes before the
algorithm. A command that gets as far as its dialogue has the outcome of that dialogue, with the record of its start in front
of the log (`Command.converse_of_found`). What it writes and how it ends is then the same under every configuration
(`Command.execute_configuration_irrelevant`).
-/

namespace LeadingTerms

/-! ## The configuration of a fresh program -/

/-- The value of a setting that only the environment and the defaults give: the variable, unless it is missing or empty. -/
def Environment.configured (env : Environment) (s : Setting) : Bytes :=
  ((env.get? s).filter (!·.isEmpty)).getD s.standard

/-- With nothing set and nothing merged in, the environment decides. -/
theorem config_empty (env : Environment) :
    Settings.empty.withDefaults.config env = ⟨env.configured .algorithm, env.configured .logLevel⟩ := by
  have htext : ∀ s, Settings.empty.withDefaults.text env s = env.configured s := by
    intro s
    unfold Settings.text Environment.configured
    cases (env.get? s).filter (!·.isEmpty) <;> cases s <;> rfl
  unfold Settings.config
  rw [htext, htext]

namespace Command

/-! ## The dialogue -/

/-- A level that is not found ends a run before anything happens. -/
theorem converse_of_level_none {config : Config} (h : Level.ofName? config.logLevel = none) (source : Source) :
    converse config source = .failed (.unknownLevel config.logLevel) source := by
  rw [converse, findLevel, h]
  rfl

/-- So does an algorithm that is not found, if the level is. -/
theorem converse_of_algorithm_none {config : Config} {level : Level} (hl : Level.ofName? config.logLevel = some level)
    (ha : Algorithm.ofName? config.algorithm = none) (source : Source) :
    converse config source = .failed (.unknownAlgorithm config.algorithm) source := by
  rw [converse, findLevel, findAlgorithm, hl, ha]
  rfl

/-- If both are found, the outcome is that of the dialogue, with the record of the start in front of the log. -/
theorem converse_of_found {config : Config} {level : Level} {algorithm : Algorithm}
    (hl : Level.ofName? config.logLevel = some level) (ha : Algorithm.ofName? config.algorithm = some algorithm)
    (source : Source) :
    converse config source = { Dialogue.outcome algorithm.generate level none source with
      log := (starting config.algorithm).shownAt level ++ (Dialogue.outcome algorithm.generate level none source).log } := by
  have hgives : ∀ count, (scan source).1 = .ok count → algorithm.generate.Gives count wordFib :=
    fun count _ => algorithm.generate_gives count
  have hnote : Console.note level (starting config.algorithm) (.fresh none source) =
      .ok () { Console.fresh none source with log := (starting config.algorithm).shownAt level } := rfl
  -- The dialogue begins on a console whose log is not empty any more; nothing in it depends on that.
  obtain ⟨hsink, herror⟩ := Dialogue.run_unlimited
    (c := { Console.fresh none source with log := (starting config.algorithm).shownAt level }) level rfl hgives
  obtain ⟨hlog, hsource⟩ := Dialogue.run_log_source
    (c := { Console.fresh none source with log := (starting config.algorithm).shownAt level })
    algorithm.generate level (write_of_left_none rfl Dialogue.prompt)
  have hconverse : converse config source = .ofAction (do
      Console.note level (starting config.algorithm)
      Dialogue.run algorithm.generate level) none source := by
    rw [converse, findLevel, findAlgorithm, hl, ha]
    rfl
  rw [hconverse, Action.ofAction_eq, Dialogue.outcome_unlimited level source hgives]
  rw [Action.leaves_congr (Action.bind_of_ok hnote), Action.error?_congr (Action.bind_of_ok hnote), hsink, herror, hlog,
    hsource]
  simp [Sink.output]

/-! ## The arguments -/

section Stages

variable (command : Command) (settings : Settings) (env : Environment) {args : List Bytes} (source : Source)

/-- A mistake in the arguments comes before everything else. -/
theorem execute_of_mistake {e : FlagError} (h : (Arguments.front args).findSome? Arguments.mistake? = some e) :
    (command.execute settings env args source).2.2 = .failed (.flag e) source := by
  have herror := Arguments.parse_error command.help args
  rw [h] at herror
  unfold execute
  simp only [herror]

/-- Then comes the wish for help. -/
theorem execute_of_help (h : (Arguments.front args).findSome? Arguments.mistake? = none)
    (hh : Arguments.standing command.help ((Arguments.front args).flatMap Arguments.assignments) = true) :
    (command.execute settings env args source).2.2 = .wrote helpText source := by
  unfold execute
  rw [Arguments.parse_of_no_mistake command.help h]
  simp [hh]

/-- Then come the operands. -/
theorem execute_of_operand (h : (Arguments.front args).findSome? Arguments.mistake? = none)
    (hh : Arguments.standing command.help ((Arguments.front args).flatMap Arguments.assignments) = false)
    {operand : Bytes} (ho : (Arguments.operandsOf args).head? = some operand) :
    (command.execute settings env args source).2.2 = .failed (.unexpectedOperand operand) source := by
  obtain ⟨rest, hrest⟩ := List.head?_eq_some_iff.mp ho
  unfold execute
  rw [Arguments.parse_of_no_mistake command.help h]
  simp [hh, hrest]

/-- Arguments let a command pass on to its configuration: none is mistaken, help is not wanted, and there is no operand. -/
def Passes (args : List Bytes) : Prop := Arguments.parse command.help args = ⟨false, [], none⟩

theorem passes_of_no_operand (h : (Arguments.front args).findSome? Arguments.mistake? = none)
    (hh : Arguments.standing command.help ((Arguments.front args).flatMap Arguments.assignments) = false)
    (ho : (Arguments.operandsOf args).head? = none) : command.Passes args := by
  rw [Passes, Arguments.parse_of_no_mistake command.help h, hh, List.head?_eq_none_iff.mp ho]

/-- A command that passes holds the dialogue that its configuration asks for. -/
theorem execute_of_passes (h : command.Passes args) :
    (command.execute settings env args source).2.2 = converse (settings.withDefaults.config env) source := by
  unfold execute
  rw [show Arguments.parse command.help args = ⟨false, [], none⟩ from h]
  rfl

/-- Running a command gives both settings their defaults, or leaves the settings alone. -/
theorem execute_settings (args : List Bytes) :
    (command.execute settings env args source).2.1 = settings ∨
      (command.execute settings env args source).2.1 = settings.withDefaults := by
  unfold execute
  rcases Arguments.parse command.help args with ⟨help, operands, error⟩
  cases error with
  | some e => exact Or.inl rfl
  | none =>
    cases help with
    | true => exact Or.inl rfl
    | false =>
      cases operands with
      | cons operand operands => exact Or.inl rfl
      | nil => exact Or.inr rfl

end Stages

end Command

/-! ## Two configurations -/

/-- The log level and the algorithm of a configuration are both found. -/
def Config.Found (config : Config) : Prop :=
  (Level.ofName? config.logLevel).isSome = true ∧ (Algorithm.ofName? config.algorithm).isSome = true

/-- The output of a dialogue that has scanned a positive count and whose generator gives the sequence. -/
theorem Dialogue.flatten_chunks_of_pos {count : Int64} (h : 0 < count) :
    (chunks wordFib (.ok count)).flatten = prompt ++ header count ++
      ((List.range count.toNatClampNeg).flatMap fun i => decimal (fib i % 2 ^ 64) ++ utf8 " ") ++ utf8 "\n" := by
  have hterm : ∀ i, termChunk (wordFib i) = decimal (fib i % 2 ^ 64) ++ utf8 " " := by
    intro i
    rw [termChunk, toNat_wordFib]
  rw [chunks, answerChunks, if_neg (Int64.not_le.mpr h)]
  simp only [hterm, newline, List.flatMap_def, List.flatten_cons, List.flatten_append, List.flatten_nil, List.cons_append,
    List.append_assoc, List.append_nil]

namespace Command

/-- Whatever the names are that are found, what is written and how the dialogue ends follow from what was scanned. -/
theorem converse_output_error {config : Config} (h : config.Found) (source : Source) :
    (converse config source).output = (Dialogue.chunks wordFib (scan source).1).flatten ∧
      (converse config source).error = Dialogue.failure (scan source).1 := by
  obtain ⟨level, hlevel⟩ := Option.isSome_iff_exists.mp h.1
  obtain ⟨algorithm, halgorithm⟩ := Option.isSome_iff_exists.mp h.2
  have hgives : ∀ count, (scan source).1 = .ok count → algorithm.generate.Gives count wordFib :=
    fun count _ => algorithm.generate_gives count
  rw [converse_of_found hlevel halgorithm, Dialogue.outcome_unlimited level source hgives]
  exact ⟨rfl, rfl⟩

/-- A fresh command without arguments writes the same and ends the same under any two settings and environments, as long as
the level and the algorithm are found in both; they need not be the same ones. After a positive count it has written the
question, the header and that many terms of the sequence, each modulo `2 ^ 64`, and there is no error. -/
theorem execute_configuration_irrelevant (settings settings' : Settings) (env env' : Environment) (source : Source)
    (h : (settings.withDefaults.config env).Found) (h' : (settings'.withDefaults.config env').Found) :
    (fresh.execute settings env [] source).2.2.output = (fresh.execute settings' env' [] source).2.2.output ∧
    (fresh.execute settings env [] source).2.2.error = (fresh.execute settings' env' [] source).2.2.error ∧
    ∀ count, (scan source).1 = .ok count → 0 < count →
      (fresh.execute settings env [] source).2.2.output = Dialogue.prompt ++ Dialogue.header count ++
        ((List.range count.toNatClampNeg).flatMap fun i => decimal (fib i % 2 ^ 64) ++ utf8 " ") ++ utf8 "\n" ∧
      (fresh.execute settings env [] source).2.2.error = none := by
  have hpasses : fresh.Passes [] := rfl
  obtain ⟨houtput, herror⟩ := converse_output_error h source
  obtain ⟨houtput', herror'⟩ := converse_output_error h' source
  rw [execute_of_passes fresh settings env source hpasses, execute_of_passes fresh settings' env' source hpasses, houtput,
    herror, houtput', herror']
  refine ⟨rfl, rfl, ?_⟩
  intro count hcount hpos
  rw [hcount]
  exact ⟨Dialogue.flatten_chunks_of_pos hpos, rfl⟩

/-- Nothing is configured in the one run; in the other one the algorithm is set and the level comes from its variable. -/
theorem execute_configuration_irrelevant_five :
    (Settings.empty.withDefaults.config Layer.empty).Found ∧
    ((Settings.empty.set (utf8 "Algorithm") (.text (utf8 " ITERATIVE\n"))).withDefaults.config
      (Environment.ofList [(utf8 "FIBSEQ_LOG_LEVEL", utf8 "debug")])).Found ∧
    (fresh.execute Settings.empty Layer.empty [] (.ofBytes (utf8 "5\n") .endOfInput)).2.2.output =
      utf8 "Enter the number of terms: Fibonacci Sequence up to 5 terms:\n0 1 1 2 3 \n" ∧
    (fresh.execute (Settings.empty.set (utf8 "Algorithm") (.text (utf8 " ITERATIVE\n")))
      (Environment.ofList [(utf8 "FIBSEQ_LOG_LEVEL", utf8 "debug")]) [] (.ofBytes (utf8 "5\n") .endOfInput)).2.2.output =
      utf8 "Enter the number of terms: Fibonacci Sequence up to 5 terms:\n0 1 1 2 3 \n" := by
  have hplain : (Settings.empty.withDefaults.config Layer.empty).Found := by
    constructor <;> decide +kernel
  have hset : ((Settings.empty.set (utf8 "Algorithm") (.text (utf8 " ITERATIVE\n"))).withDefaults.config
      (Environment.ofList [(utf8 "FIBSEQ_LOG_LEVEL", utf8 "debug")])).Found := by
    constructor <;> decide +kernel
  have hscan : (scan (.ofBytes (utf8 "5\n") .endOfInput)).1 = .ok 5 := by cbv
  obtain ⟨hsame, -, hpositive⟩ := execute_configuration_irrelevant _ _ _ _ (.ofBytes (utf8 "5\n") .endOfInput) hplain hset
  have hfive := (hpositive 5 hscan (by decide)).1.trans
    (show _ = utf8 "Enter the number of terms: Fibonacci Sequence up to 5 terms:\n0 1 1 2 3 \n" by decide +kernel)
  exact ⟨hplain, hset, hfive, hsame.symm.trans hfive⟩

end Command

end LeadingTerms
