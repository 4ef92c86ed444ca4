import Mathlib.Data.Nat.Find
import LeadingTerms.Program
import LeadingTerms.Proofs.Command
import LeadingTerms.Proofs.Completion

/-!
# What decides a run

Seven things can decide a run of the program: a request for completions, a mistake in its arguments, a wish for help, an
operand, a level or an algorithm that is not found, and else the dialogue. Any number of them can apply to one run
(`Case.Applies`). The first in this order decides (`Case.Decides`), and there is always exactly one that does.
`Program.execute_first_case` says what a run leaves in each case and what the program makes of it. A request decides also where
it does not stand first (`Program.execute_request_behind_blank`).
-/

namespace LeadingTerms

namespace Program

/-- The things that can decide a run. -/
inductive Case where
  /-- The arguments are a request for completions. -/
  | request (r : Completion.Request)
  /-- An argument is mistaken. -/
  | mistake (e : FlagError)
  /-- Help is wanted. -/
  | help
  /-- There is an operand, this one being the first. -/
  | operand (first : Bytes)
  /-- The configured level is not found. -/
  | unknownLevel (name : Bytes)
  /-- The configured algorithm is not found. -/
  | unknownAlgorithm (name : Bytes)
  /-- Level and algorithm are found. -/
  | dialogue (level : Level) (algorithm : Algorithm)

namespace Case

/-- The place of a case in the order in which they are looked at. -/
@[simp] def rank : Case → Nat
  | request _ => 0
  | mistake _ => 1
  | help => 2
  | operand _ => 3
  | unknownLevel _ => 4
  | unknownAlgorithm _ => 5
  | dialogue _ _ => 6

/-- Whether a case is present in a run, whatever else is. -/
def Applies (env : Environment) (args : List Bytes) : Case → Prop
  | request r => Completion.Requests args r
  | mistake e => (Arguments.front args).findSome? Arguments.mistake? = some e
  | help => Arguments.standing false ((Arguments.front args).flatMap Arguments.assignments) = true
  | operand first => (Arguments.operandsOf args).head? = some first
  | unknownLevel name => env.configured .logLevel = name ∧ Level.ofName? name = none
  | unknownAlgorithm name => env.configured .algorithm = name ∧ Algorithm.ofName? name = none
  | dialogue level algorithm =>
    Level.ofName? (env.configured .logLevel) = some level ∧
      Algorithm.ofName? (env.configured .algorithm) = some algorithm

instance (env : Environment) (args : List Bytes) : (c : Case) → Decidable (c.Applies env args)
  | request r => inferInstanceAs (Decidable (Completion.Requests args r))
  | mistake _ => inferInstanceAs (Decidable (_ = _))
  | help => inferInstanceAs (Decidable (_ = _))
  | operand _ => inferInstanceAs (Decidable (_ = _))
  | unknownLevel _ => inferInstanceAs (Decidable (_ ∧ _))
  | unknownAlgorithm _ => inferInstanceAs (Decidable (_ ∧ _))
  | dialogue _ _ => inferInstanceAs (Decidable (_ ∧ _))

/-- A case decides a run if it is the first one present. -/
def Decides (env : Environment) (args : List Bytes) (c : Case) : Prop :=
  c.Applies env args ∧ ∀ c' : Case, c'.Applies env args → c.rank ≤ c'.rank

variable {env : Environment} {args : List Bytes}

/-- Nothing that comes before the deciding case is present. -/
theorem Decides.not_applies {c : Case} (h : c.Decides env args) (c' : Case) (hlt : c'.rank < c.rank) :
    ¬ c'.Applies env args := by
  intro hc'
  exact absurd (h.2 c' hc') (Nat.not_le.mpr hlt)

/-- If a later case decides, there is no request. -/
theorem Decides.request?_eq_none {c : Case} (h : c.Decides env args) (hlt : 0 < c.rank) :
    Completion.request? args = none := by
  rw [Option.eq_none_iff_forall_ne_some]
  intro r hr
  exact h.not_applies (request r) hlt ((Completion.request?_eq_some_iff args r).mp hr)

/-- If a later case decides, there is no mistake. -/
theorem Decides.mistake_eq_none {c : Case} (h : c.Decides env args) (hlt : 1 < c.rank) :
    (Arguments.front args).findSome? Arguments.mistake? = none := by
  rw [Option.eq_none_iff_forall_ne_some]
  intro e he
  exact h.not_applies (mistake e) hlt he

/-- If a later case decides, help is not wanted. -/
theorem Decides.standing_eq_false {c : Case} (h : c.Decides env args) (hlt : 2 < c.rank) :
    Arguments.standing false ((Arguments.front args).flatMap Arguments.assignments) = false := by
  rw [← Bool.not_eq_true]
  intro hhelp
  exact h.not_applies help hlt hhelp

/-- If a later case decides, there are no operands. -/
theorem Decides.operand_eq_none {c : Case} (h : c.Decides env args) (hlt : 3 < c.rank) :
    (Arguments.operandsOf args).head? = none := by
  rw [Option.eq_none_iff_forall_ne_some]
  intro first hfirst
  exact h.not_applies (operand first) hlt hfirst

/-- If a later case decides, the level is found. -/
theorem Decides.exists_level {c : Case} (h : c.Decides env args) (hlt : 4 < c.rank) :
    ∃ level, Level.ofName? (env.configured .logLevel) = some level := by
  rw [← Option.ne_none_iff_exists']
  intro hnone
  exact h.not_applies (unknownLevel (env.configured .logLevel)) hlt ⟨rfl, hnone⟩

/-- Some case is present in every run. -/
theorem exists_applies (env : Environment) (args : List Bytes) : ∃ c : Case, c.Applies env args := by
  cases hl : Level.ofName? (env.configured .logLevel) with
  | none => exact ⟨unknownLevel (env.configured .logLevel), rfl, hl⟩
  | some level =>
    cases ha : Algorithm.ofName? (env.configured .algorithm) with
    | none => exact ⟨unknownAlgorithm (env.configured .algorithm), rfl, ha⟩
    | some algorithm => exact ⟨dialogue level algorithm, hl, ha⟩

/-- Two cases with the same place that are both present are the same. -/
theorem Applies.eq {c c' : Case} (h : c.Applies env args) (h' : c'.Applies env args) (hrank : c.rank = c'.rank) :
    c = c' := by
  cases c with
  | request r =>
    cases c' with
    | request r' =>
      rw [Applies, ← Completion.request?_eq_some_iff] at h h'
      rw [Option.some.inj (h.symm.trans h')]
    | _ => cases hrank
  | mistake e =>
    cases c' with
    | mistake e' => rw [Option.some.inj (h.symm.trans h')]
    | _ => cases hrank
  | help =>
    cases c' with
    | help => rfl
    | _ => cases hrank
  | operand first =>
    cases c' with
    | operand first' => rw [Option.some.inj (h.symm.trans h')]
    | _ => cases hrank
  | unknownLevel name =>
    cases c' with
    | unknownLevel name' => rw [← h.1, ← h'.1]
    | _ => cases hrank
  | unknownAlgorithm name =>
    cases c' with
    | unknownAlgorithm name' => rw [← h.1, ← h'.1]
    | _ => cases hrank
  | dialogue level algorithm =>
    cases c' with
    | dialogue level' algorithm' =>
      rw [Option.some.inj (h.1.symm.trans h'.1), Option.some.inj (h.2.symm.trans h'.2)]
    | _ => cases hrank

/-- Exactly one case decides a run. -/
theorem existsUnique_decides (env : Environment) (args : List Bytes) : ∃! c : Case, c.Decides env args := by
  classical
  obtain ⟨c₀, hc₀⟩ := exists_applies env args
  have hplace : ∃ n, ∃ c : Case, c.Applies env args ∧ c.rank = n := ⟨c₀.rank, c₀, hc₀, rfl⟩
  obtain ⟨c, hc, hrank⟩ := Nat.find_spec hplace
  have hfirst : ∀ c' : Case, c'.Applies env args → c.rank ≤ c'.rank := by
    intro c' hc'
    rw [hrank]
    exact Nat.find_min' hplace ⟨c', hc', rfl⟩
  refine ⟨c, ⟨hc, hfirst⟩, ?_⟩
  intro c' hc'
  exact hc'.1.eq hc (Nat.le_antisymm (hc'.2 c hc) (hfirst c' hc'.1))

/-- What a run leaves if the case decides it. -/
def outcome (env : Environment) (source : Source) : Case → Outcome
  | request r => r.outcome source
  | mistake e => .failed (.flag e) source
  | help => .wrote Command.helpText source
  | operand first => .failed (.unexpectedOperand first) source
  | unknownLevel name => .failed (.unknownLevel name) source
  | unknownAlgorithm name => .failed (.unknownAlgorithm name) source
  | dialogue level algorithm =>
    { Dialogue.outcome algorithm.generate level none source with
      log := (Command.starting (env.configured .algorithm)).shownAt level ++
        (Dialogue.outcome algorithm.generate level none source).log }

end Case

variable {env : Environment} {args : List Bytes}

/-- A run that is no request is a run of the command. -/
theorem execute_of_no_request (h : Completion.request? args = none) (source : Source) :
    execute env args source = (Command.fresh.execute .empty env args source).2.2 := by
  rw [execute, h]

/-- A run that the arguments do not decide is the dialogue that the environment asks for. -/
theorem execute_eq_converse {c : Case} (h : c.Decides env args) (hlt : 3 < c.rank) (source : Source) :
    execute env args source = Command.converse ⟨env.configured .algorithm, env.configured .logLevel⟩ source := by
  have hpasses := Command.fresh.passes_of_no_operand (h.mistake_eq_none (by omega)) (h.standing_eq_false (by omega))
    (h.operand_eq_none hlt)
  rw [execute_of_no_request (h.request?_eq_none (by omega)), ← config_empty]
  exact Command.execute_of_passes .fresh .empty env source hpasses

/-- The deciding case tells what a run leaves. -/
theorem execute_of_decides {c : Case} (h : c.Decides env args) (source : Source) :
    execute env args source = c.outcome env source := by
  cases c with
  | request r => rw [execute, (Completion.request?_eq_some_iff args r).mpr h.1, Case.outcome]
  | mistake e =>
    rw [execute_of_no_request (h.request?_eq_none (by simp))]
    exact Command.execute_of_mistake .fresh .empty env source h.1
  | help =>
    rw [execute_of_no_request (h.request?_eq_none (by simp))]
    exact Command.execute_of_help .fresh .empty env source (h.mistake_eq_none (by simp)) h.1
  | operand first =>
    rw [execute_of_no_request (h.request?_eq_none (by simp))]
    exact Command.execute_of_operand .fresh .empty env source (h.mistake_eq_none (by simp))
      (h.standing_eq_false (by simp)) h.1
  | unknownLevel name =>
    rw [execute_eq_converse h (by simp)]
    obtain ⟨rfl, hnone⟩ := h.1
    exact Command.converse_of_level_none hnone source
  | unknownAlgorithm name =>
    rw [execute_eq_converse h (by simp)]
    obtain ⟨level, hlevel⟩ := h.exists_level (by simp)
    obtain ⟨rfl, hnone⟩ := h.1
    exact Command.converse_of_algorithm_none hlevel hnone source
  | dialogue level algorithm =>
    rw [execute_eq_converse h (by simp)]
    exact Command.converse_of_found h.1.1 h.1.2 source

/-- A run that comes to its dialogue fails if and only if the scan does, and has then written the question alone. -/
theorem execute_of_dialogue {level : Level} {algorithm : Algorithm} (h : (Case.dialogue level algorithm).Decides env args)
    (source : Source) :
    ((execute env args source).error ≠ none ↔ ∃ e, (scan source).1 = .error e) ∧
      ∀ e, (scan source).1 = .error e →
        (execute env args source).error = some (.scan e) ∧ (execute env args source).output = Dialogue.prompt := by
  rw [execute_of_decides h, Case.outcome,
    Dialogue.outcome_unlimited level source fun count _ => algorithm.generate_gives count]
  cases hs : (scan source).1 with
  | error e => simp [Dialogue.failure, Dialogue.chunks]
  | ok count => simp [Dialogue.failure]

/-- The report of an outcome: the exit code tells whether there is an error, and the error output shows it. -/
theorem report_eq (o : Outcome) :
    (report o).output = o.output ∧ ((report o).code = 1 ↔ o.error ≠ none) ∧
      (o.error = none → (report o).code = 0 ∧ (report o).errors = o.log) ∧
      ∀ e, o.error = some e → (report o).errors = o.log ++ utf8 "Error: " ++ e.message ++ utf8 "\n" := by
  unfold report
  cases o.error with
  | none => simp
  | some e => simp

/-- A request reads no input, fails if and only if it leaves no word to complete, and otherwise ends its output with a
directive. If the first argument is a word, it is the word of the request. -/
theorem execute_of_request {r : Completion.Request} (h : (Case.request r).Decides env args) (source : Source) :
    execute env args source = r.outcome source ∧ (execute env args source).rest = source ∧
      ((execute env args source).error ≠ none ↔ r.line = []) ∧
      (r.line ≠ [] → ∃ (completions : Bytes) (d : Completion.Directive),
        (execute env args source).output = completions ++ d.line) ∧
      ∀ first, args.head? = some first → first ≠ [] → first.head? ≠ some Arguments.dash → first = r.word := by
  have hhead : ∀ first, args.head? = some first → first ≠ [] → first.head? ≠ some Arguments.dash → first = r.word :=
    fun first hfirst hne hdash => h.1.word_eq_head hfirst ⟨hne, hdash⟩
  have houtcome : execute env args source = r.outcome source := execute_of_decides h source
  obtain ⟨hnil, hcons⟩ := r.outcome_eq source
  rw [houtcome]
  by_cases hline : r.line = []
  · rw [hnil hline]
    exact ⟨rfl, rfl, by simp [hline], fun hne => absurd hline hne, hhead⟩
  · obtain ⟨completions, notes, d, hwritten⟩ := hcons hline
    rw [hwritten]
    exact ⟨rfl, rfl, by simp [hline], fun _ => ⟨completions, d, rfl⟩, hhead⟩

/-- The outcome of every run. Exactly one case decides it, the first one present. A request for completions is answered without
regard to the environment and reads no input; it fails only if there is no word to complete. A mistake in the arguments, an operand,
and a level or an algorithm that is not found fail with their own error before anything is written, logged or read; a wish for
help writes the help text and nothing else happens. Otherwise the run is the dialogue, with a record of the start in front
of its log: it fails if and only if the scan does, and has then written the question alone. The program exits with 1 if and
only if the run failed; it then shows the error behind the log. -/
theorem execute_first_case (env : Environment) (args : List Bytes) (source : Source) :
    (∃! c : Case, c.Decides env args) ∧
    (∀ r, (Case.request r).Decides env args →
      execute env args source = r.outcome source ∧ (execute env args source).rest = source ∧
      ((execute env args source).error ≠ none ↔ r.line = []) ∧
      (r.line ≠ [] → ∃ (completions : Bytes) (d : Completion.Directive),
        (execute env args source).output = completions ++ d.line) ∧
      ∀ first, args.head? = some first → first ≠ [] → first.head? ≠ some Arguments.dash → first = r.word) ∧
    (∀ e, (Case.mistake e).Decides env args →
      execute env args source = ⟨[], [], source, some (.flag e)⟩) ∧
    (Case.help.Decides env args →
      execute env args source = ⟨Command.helpText, [], source, none⟩) ∧
    (∀ first, (Case.operand first).Decides env args →
      execute env args source = ⟨[], [], source, some (.unexpectedOperand first)⟩) ∧
    (∀ name, (Case.unknownLevel name).Decides env args →
      execute env args source = ⟨[], [], source, some (.unknownLevel name)⟩) ∧
    (∀ name, (Case.unknownAlgorithm name).Decides env args →
      execute env args source = ⟨[], [], source, some (.unknownAlgorithm name)⟩) ∧
    (∀ level algorithm, (Case.dialogue level algorithm).Decides env args →
      execute env args source = { Dialogue.outcome algorithm.generate level none source with
        log := (Command.starting (env.configured .algorithm)).shownAt level ++
          (Dialogue.outcome algorithm.generate level none source).log } ∧
      ((execute env args source).error ≠ none ↔ ∃ e, (scan source).1 = .error e) ∧
      ∀ e, (scan source).1 = .error e →
        (execute env args source).error = some (.scan e) ∧ (execute env args source).output = Dialogue.prompt) ∧
    (run env args source).output = (execute env args source).output ∧
    ((run env args source).code = 1 ↔ (execute env args source).error ≠ none) ∧
    ((execute env args source).error = none →
      (run env args source).code = 0 ∧ (run env args source).errors = (execute env args source).log) ∧
    ∀ e, (execute env args source).error = some e →
      (run env args source).errors =
        (execute env args source).log ++ utf8 "Error: " ++ e.message ++ utf8 "\n" := by
  refine ⟨Case.existsUnique_decides env args, ?_, ?_, ?_, ?_, ?_, ?_, ?_, report_eq (execute env args source)⟩
  · intro r h
    exact execute_of_request h source
  · intro e h
    exact execute_of_decides h source
  · intro h
    exact execute_of_decides h source
  · intro first h
    exact execute_of_decides h source
  · intro name h
    exact execute_of_decides h source
  · intro name h
    exact execute_of_decides h source
  · intro level algorithm h
    exact ⟨execute_of_decides h source, execute_of_dialogue h source⟩

/-- An operand hides both a level and an algorithm that are not found, and a wish for help that was taken back. -/
theorem execute_first_case_operand :
    execute ⟨some (utf8 "nope"), some (utf8 "loud")⟩ [utf8 "-h", utf8 "--help=f", utf8 "x"] (.characters (utf8 "5")) =
      ⟨[], [], .characters (utf8 "5"), some (.unexpectedOperand (utf8 "x"))⟩ := by
  obtain ⟨-, -, -, -, hoperand, -⟩ := execute_first_case ⟨some (utf8 "nope"), some (utf8 "loud")⟩
    [utf8 "-h", utf8 "--help=f", utf8 "x"] (.characters (utf8 "5"))
  refine hoperand (utf8 "x") ⟨by decide +kernel, ?_⟩
  intro c hc
  cases c with
  | request r =>
    have hnone : Completion.request? [utf8 "-h", utf8 "--help=f", utf8 "x"] = none := by decide +kernel
    exact absurd (hnone.symm.trans ((Completion.request?_eq_some_iff _ r).mpr hc)) nofun
  | mistake e =>
    have hnone : (Arguments.front [utf8 "-h", utf8 "--help=f", utf8 "x"]).findSome? Arguments.mistake? = none := by
      decide +kernel
    exact absurd (hnone.symm.trans hc) nofun
  | help =>
    have hnot : ¬ Case.help.Applies ⟨some (utf8 "nope"), some (utf8 "loud")⟩ [utf8 "-h", utf8 "--help=f", utf8 "x"] := by
      decide +kernel
    exact absurd hc hnot
  | _ => simp

/-- A request behind an empty argument. The first argument is no word of a request, none is mistaken, help is not wanted, and
the first operand is the empty argument; but the run does not fail with that operand, it completes `x`, for which there is
nothing to write but the directive. -/
theorem execute_request_behind_blank :
    [[], utf8 "__complete", utf8 "x"].head? ≠ some (utf8 "__complete") ∧
    [[], utf8 "__complete", utf8 "x"].head? ≠ some (utf8 "__completeNoDesc") ∧
    (Arguments.front [[], utf8 "__complete", utf8 "x"]).findSome? Arguments.mistake? = none ∧
    Arguments.standing false ((Arguments.front [[], utf8 "__complete", utf8 "x"]).flatMap Arguments.assignments) = false ∧
    (Arguments.operandsOf [[], utf8 "__complete", utf8 "x"]).head? = some [] ∧
    execute ⟨none, none⟩ [[], utf8 "__complete", utf8 "x"] (.characters []) ≠
      ⟨[], [], .characters [], some (.unexpectedOperand [])⟩ ∧
    run ⟨none, none⟩ [[], utf8 "__complete", utf8 "x"] (.characters []) =
      ⟨0, utf8 ":0\n", utf8 "Completion ended with directive: ShellCompDirectiveDefault\n"⟩ := by
  decide +kernel

end Program

end LeadingTerms
