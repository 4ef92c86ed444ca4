import Mathlib.Data.List.Induction
import LeadingTerms.Session
import LeadingTerms.Text.Encoding
import LeadingTerms.Proofs.Command

/-!
# What a session has configured

The configuration that a session reads can be told from its steps alone. Of the steps that set a setting, of those that
change its variable and of those that merge a value in for it, the last one counts each time (`lastOf`); the first of these
three that gave anything decides, and else the setting has its standard value (`configured`). The layers of a session hold
what the last steps gave (`Session.Holds`, kept by every step), so every reading of the configuration finds that value, and
steps that give a setting nothing make no difference to it (`Session.reads_configured`).
-/

namespace LeadingTerms

/-! ## Keys and variables of a setting -/

namespace Setting

/-- Whether a key is that of the setting, letter case aside. -/
def isKey (s : Setting) (key : Bytes) : Bool := spells s.key (decode key)

/-- No key is that of both settings. -/
theorem not_spells_both (symbols : List Symbol) :
    ¬(spells algorithm.key symbols = true ∧ spells logLevel.key symbols = true) := by
  rintro ⟨ha, hl⟩
  have ha := eq_of_beq ha
  have hl := eq_of_beq hl
  rw [ha] at hl
  revert hl
  decide

/-- The setting of a key is the one whose key it is. -/
theorem ofKey?_eq_some_iff (key : Bytes) (s : Setting) : ofKey? (decode key) = some s ↔ s.isKey key = true := by
  have hboth := not_spells_both (decode key)
  unfold ofKey? isKey
  by_cases ha : spells algorithm.key (decode key) = true
  · have hl : ¬spells logLevel.key (decode key) = true := fun hl => hboth ⟨ha, hl⟩
    cases s <;> simp [ha, hl]
  · by_cases hl : spells logLevel.key (decode key) = true
    · cases s <;> simp [ha, hl]
    · cases s <;> simp [ha, hl]

/-- The setting of a variable is the one whose variable it is. -/
theorem ofVariable?_eq_some_iff (name : Bytes) (s : Setting) : ofVariable? name = some s ↔ name = utf8 s.variableName := by
  have hne : utf8 algorithm.variableName ≠ utf8 logLevel.variableName := by decide
  unfold ofVariable?
  by_cases ha : name = utf8 algorithm.variableName
  · subst ha
    cases s <;> simp [hne]
  · by_cases hl : name = utf8 logLevel.variableName
    · subst hl
      cases s <;> simp [ha]
    · cases s <;> simp [ha, hl]

end Setting

/-! ## Writing to a layer -/

/-- Putting something at a setting that may be missing changes that setting alone. -/
theorem Layer.get?_put_of_some {α : Type} (found : Option Setting) (l : Layer α) (x : Option α) (s : Setting) :
    (match found with
      | some t => l.put t x
      | none => l).get? s = if found = some s then x else l.get? s := by
  cases found with
  | none => simp
  | some t =>
    rw [Layer.get?_put]
    by_cases hst : s = t
    · simp [hst]
    · have hts : t ≠ s := fun h => hst h.symm
      simp [hst, hts]

/-- Setting or removing a variable changes the setting of that variable alone. -/
theorem Environment.get?_update (env : Environment) (name : Bytes) (value : Option Bytes) (s : Setting) :
    (env.update name value).get? s = (if name = utf8 s.variableName then some value else none).getD (env.get? s) := by
  have hput := Layer.get?_put_of_some (Setting.ofVariable? name) env value s
  simp only [Setting.ofVariable?_eq_some_iff] at hput
  refine hput.trans ?_
  split <;> rfl

namespace Settings

/-- A key without a dot reaches into no table. -/
theorem takeWhile_decode_of_not_mem {key : Bytes} (h : 0x2E ∉ key) :
    (decode key).takeWhile (· ≠ .char '.') = decode key := by
  rw [List.takeWhile_eq_self_iff]
  intro symbol hsymbol
  rw [decide_eq_true_iff]
  rintro rfl
  apply h
  rw [← flatMap_bytes_decode key]
  exact List.mem_flatMap.mpr ⟨.char '.', hsymbol, by decide⟩

/-- Storing a value under a key without a dot changes the setting of that key alone. -/
theorem get?_store {key : Bytes} (h : 0x2E ∉ key) (l : Layer Value) (value : Value) (s : Setting) :
    (store l key value).get? s = (if s.isKey key then some value else none).or (l.get? s) := by
  have hput := Layer.get?_put_of_some (Setting.ofKey? (decode key)) l (some value) s
  simp only [Setting.ofKey?_eq_some_iff] at hput
  unfold store
  simp only [takeWhile_decode_of_not_mem h, Nat.lt_irrefl, if_false]
  refine hput.trans ?_
  split <;> rfl

/-- Merging an entry into a layer without tables changes the setting of its key alone. -/
theorem get?_mergeEntry {l : Layer Value} (h : ∀ s, l.get? s ≠ some .table) (entry : Bytes × Value) (s : Setting) :
    (mergeEntry l entry).get? s = if s.isKey entry.1 = true then some entry.2 else l.get? s := by
  have hput := Layer.get?_put_of_some (Setting.ofKey? (decode entry.1)) l (some entry.2) s
  simp only [Setting.ofKey?_eq_some_iff] at hput
  unfold mergeEntry
  simp only [h, false_and, if_false]
  exact hput

/-- The value that entries have for a setting. -/
def entryFor (s : Setting) (entries : List (Bytes × Value)) : Option Value :=
  (entries.find? fun entry => s.isKey entry.1).map (·.2)

/-- Keys that lower-case to different texts are not all that of a setting. -/
theorem entryFor_eq_none {s : Setting} {entry : Bytes × Value} {entries : List (Bytes × Value)}
    (hkeys : ((entry :: entries).map fun e => (decode e.1).map Symbol.lower).Nodup) (hentry : s.isKey entry.1 = true) :
    entryFor s entries = none := by
  unfold entryFor
  rw [Option.map_eq_none_iff, List.find?_eq_none]
  intro other hother hkey
  rw [List.map_cons, List.nodup_cons] at hkeys
  apply hkeys.1
  rw [List.mem_map]
  exact ⟨other, hother, (eq_of_beq hkey).trans (eq_of_beq hentry).symm⟩

/-- Merging entries with distinct keys and no tables into a layer without tables leaves no table, and gives each setting the
value that the entries have for it, if they have one. -/
theorem get?_foldl_mergeEntry {l : Layer Value} {entries : List (Bytes × Value)} (h : ∀ s, l.get? s ≠ some .table)
    (hkeys : (entries.map fun e => (decode e.1).map Symbol.lower).Nodup)
    (htables : ∀ e ∈ entries, ∀ s : Setting, s.isKey e.1 = true → e.2 ≠ .table) (s : Setting) :
    (entries.foldl mergeEntry l).get? s ≠ some .table ∧
      (entries.foldl mergeEntry l).get? s = (entryFor s entries).or (l.get? s) := by
  induction entries generalizing l with
  | nil => exact ⟨h s, rfl⟩
  | cons entry entries ih =>
    have hl : ∀ t, (mergeEntry l entry).get? t ≠ some .table := by
      intro t
      rw [get?_mergeEntry h]
      by_cases ht : t.isKey entry.1 = true
      · rw [if_pos ht]
        intro htable
        exact htables entry (by simp) t ht (Option.some.inj htable)
      · rw [if_neg ht]
        exact h t
    obtain ⟨hnot, hget⟩ := ih hl (List.nodup_cons.mp hkeys).2 (fun e he => htables e (by simp [he]))
    refine ⟨hnot, ?_⟩
    rw [List.foldl_cons, hget, get?_mergeEntry h]
    by_cases hs : s.isKey entry.1 = true
    · rw [entryFor_eq_none hkeys hs]
      simp [entryFor, hs]
    · simp [entryFor, hs]

end Settings

/-! ## What the steps give -/

namespace Step

/-- The value that a step sets for a setting. -/
def set? (s : Setting) : Step → Option Value
  | .set key value => if s.isKey key then some value else none
  | _ => none

/-- What a step makes of the variable of a setting: it gives it a value, or none. -/
def exported? (s : Setting) : Step → Option (Option Bytes)
  | .setVariable name value => if name = utf8 s.variableName then some (some value) else none
  | .unsetVariable name => if name = utf8 s.variableName then some none else none
  | _ => none

/-- The value that a step merges in for a setting. -/
def merged? (s : Setting) : Step → Option Value
  | .merge entries => Settings.entryFor s entries
  | _ => none

/-- A step gives a setting nothing: it neither sets it nor changes its variable nor merges in a value for it. -/
def Spares (s : Setting) (step : Step) : Prop :=
  step.set? s = none ∧ step.exported? s = none ∧ step.merged? s = none

/-- A step that gives a default, reads the configuration or runs a command. -/
inductive Neutral : Step → Prop where
  | setDefault (key : Bytes) (value : Value) : Neutral (.setDefault key value)
  | load : Neutral .load
  | execute (args : List Bytes) (source : Source) : Neutral (.execute args source)
  | executeFresh (args : List Bytes) (source : Source) : Neutral (.executeFresh args source)

/-- A step whose keys name settings plainly: a key that is set has no dot, and keys that are merged in are distinct once
lower-cased and give no table to a setting. -/
def Plain : Step → Prop
  | .set key _ => 0x2E ∉ key
  | .merge entries => (entries.map fun e => (decode e.1).map Symbol.lower).Nodup ∧
    ∀ e ∈ entries, ∀ s : Setting, s.isKey e.1 = true → e.2 ≠ .table
  | _ => True

theorem Neutral.plain {step : Step} (h : step.Neutral) : step.Plain := by
  cases h <;> trivial

/-- A neutral step gives nothing to any setting. -/
theorem Neutral.spares {step : Step} (h : step.Neutral) (s : Setting) : step.Spares s := by
  cases h <;> exact ⟨rfl, rfl, rfl⟩

end Step

/-- The last of what steps give. -/
def lastOf {α : Type} (give : Step → Option α) (steps : List Step) : Option α := (steps.filterMap give).getLast?

theorem lastOf_append_singleton {α : Type} (give : Step → Option α) (steps : List Step) (step : Step) :
    lastOf give (steps ++ [step]) = (give step).or (lastOf give steps) := by
  unfold lastOf
  rw [List.filterMap_append, List.getLast?_append]
  cases hgive : give step <;> simp [hgive]

/-- A step that gives nothing can be left out. -/
theorem lastOf_of_none {α : Type} {give : Step → Option α} {step : Step} (h : give step = none) (front back : List Step) :
    lastOf give (front ++ step :: back) = lastOf give (front ++ back) := by
  unfold lastOf
  rw [List.filterMap_append, List.filterMap_append, List.filterMap_cons_none h]

/-- The text that steps have configured for a setting, beginning with an environment: the value that was set last, unless that
is the absence of a value; else the variable as it stands, unless it is missing or empty; else the value that was merged in
last, unless that is the absence of a value; else the standard. -/
def configured (env : Environment) (steps : List Step) (s : Setting) : Bytes :=
  match (lastOf (Step.set? s) steps).filter Value.present with
  | some value => value.toText
  | none => match ((lastOf (Step.exported? s) steps).getD (env.get? s)).filter (!·.isEmpty) with
    | some text => text
    | none => match (lastOf (Step.merged? s) steps).filter Value.present with
      | some value => value.toText
      | none => match s with
        | .algorithm => utf8 "recursive"
        | .logLevel => utf8 "warning"

/-- A step that gives a setting nothing makes no difference to it. -/
theorem configured_of_spares {s : Setting} {step : Step} (h : step.Spares s) (env : Environment) (front back : List Step) :
    configured env (front ++ step :: back) s = configured env (front ++ back) s := by
  obtain ⟨hset, hexported, hmerged⟩ := h
  unfold configured
  rw [lastOf_of_none hset, lastOf_of_none hexported, lastOf_of_none hmerged]

/-- The value of a setting in a configuration. -/
def Config.get (config : Config) : Setting → Bytes
  | .algorithm => config.algorithm
  | .logLevel => config.logLevel

/-- The configuration that steps have made. -/
def configuration (env : Environment) (steps : List Step) : Config :=
  ⟨configured env steps .algorithm, configured env steps .logLevel⟩

/-! ## What the layers of a session hold -/

namespace Session

/-- Running the command of a session leaves alone what was set, what was merged in, and the environment. -/
theorem execute_layers (session : Session) (args : List Bytes) (source : Source) :
    (session.execute args source).1.settings.overrides = session.settings.overrides ∧
      (session.execute args source).1.settings.merged = session.settings.merged ∧
      (session.execute args source).1.environment = session.environment := by
  have hsettings := session.command.execute_settings session.settings session.environment source args
  refine ⟨?_, ?_, rfl⟩
  · show (session.command.execute session.settings session.environment args source).2.1.overrides = _
    rcases hsettings with hsettings | hsettings
    · rw [hsettings]
    · rw [hsettings]
      rfl
  · show (session.command.execute session.settings session.environment args source).2.1.merged = _
    rcases hsettings with hsettings | hsettings
    · rw [hsettings]
    · rw [hsettings]
      rfl

/-- So does every neutral step. -/
theorem step_of_neutral (session : Session) {step : Step} (h : step.Neutral) :
    (session.step step).1.settings.overrides = session.settings.overrides ∧
      (session.step step).1.settings.merged = session.settings.merged ∧
      (session.step step).1.environment = session.environment := by
  cases h with
  | setDefault key value => exact ⟨rfl, rfl, rfl⟩
  | load => exact ⟨rfl, rfl, rfl⟩
  | execute args source => exact session.execute_layers args source
  | executeFresh args source => exact { session with command := .fresh : Session }.execute_layers args source

/-- What a plain step does to the layers: for each setting, what the step gives comes in the place of what was there. -/
structure Layered (session session' : Session) (step : Step) : Prop where
  overrides : ∀ s, session'.settings.overrides.get? s = (step.set? s).or (session.settings.overrides.get? s)
  environment : ∀ s, session'.environment.get? s = (step.exported? s).getD (session.environment.get? s)
  merged : ∀ s, session'.settings.merged.get? s = (step.merged? s).or (session.settings.merged.get? s)
  noTable : ∀ s, session'.settings.merged.get? s ≠ some .table

theorem layered_of_neutral {session : Session} {step : Step} (h : step.Neutral)
    (hnoTable : ∀ s, session.settings.merged.get? s ≠ some .table) : Layered session (session.step step).1 step := by
  obtain ⟨hoverrides, hmerged, henvironment⟩ := session.step_of_neutral h
  refine ⟨?_, ?_, ?_, ?_⟩ <;> intro s
  · rw [hoverrides, (h.spares s).1, Option.none_or]
  · rw [henvironment, (h.spares s).2.1, Option.getD_none]
  · rw [hmerged, (h.spares s).2.2, Option.none_or]
  · rw [hmerged]
    exact hnoTable s

/-- One step, layer by layer. -/
theorem layered_step {session : Session} {step : Step} (h : step.Plain)
    (hnoTable : ∀ s, session.settings.merged.get? s ≠ some .table) : Layered session (session.step step).1 step := by
  cases step with
  | set key value =>
    exact ⟨fun s => Settings.get?_store h _ value s, fun _ => rfl, fun _ => rfl, hnoTable⟩
  | merge entries =>
    have hmerge := fun s => Settings.get?_foldl_mergeEntry hnoTable h.1 h.2 s
    exact ⟨fun _ => rfl, fun _ => rfl, fun s => (hmerge s).2, fun s => (hmerge s).1⟩
  | setVariable name value =>
    exact ⟨fun _ => rfl, fun s => session.environment.get?_update name (some value) s, fun _ => rfl, hnoTable⟩
  | unsetVariable name =>
    exact ⟨fun _ => rfl, fun s => session.environment.get?_update name none s, fun _ => rfl, hnoTable⟩
  | setDefault key value => exact layered_of_neutral (.setDefault key value) hnoTable
  | load => exact layered_of_neutral .load hnoTable
  | execute args source => exact layered_of_neutral (.execute args source) hnoTable
  | executeFresh args source => exact layered_of_neutral (.executeFresh args source) hnoTable

/-- The layers of a session hold what the last steps gave, beginning with an environment and nothing else. -/
structure Holds (env : Environment) (steps : List Step) (session : Session) : Prop where
  overrides : ∀ s, session.settings.overrides.get? s = lastOf (Step.set? s) steps
  environment : ∀ s, session.environment.get? s = (lastOf (Step.exported? s) steps).getD (env.get? s)
  merged : ∀ s, session.settings.merged.get? s = lastOf (Step.merged? s) steps
  noTable : ∀ s, session.settings.merged.get? s ≠ some .table

/-- A session in which nothing has been done holds nothing but its environment. -/
theorem holds_nil (env : Environment) (command : Command) : Holds env [] ⟨.empty, env, command⟩ := by
  refine ⟨?_, ?_, ?_, ?_⟩ <;> intro s
  · cases s <;> rfl
  · rfl
  · cases s <;> rfl
  · cases s <;> exact nofun

/-- A plain step keeps that. -/
theorem Holds.step {env : Environment} {steps : List Step} {session : Session} (h : session.Holds env steps) {step : Step}
    (hplain : step.Plain) : (session.step step).1.Holds env (steps ++ [step]) := by
  have hlayered := layered_step hplain h.noTable
  refine ⟨?_, ?_, ?_, hlayered.noTable⟩ <;> intro s
  · rw [hlayered.overrides, h.overrides, lastOf_append_singleton]
  · rw [hlayered.environment, h.environment, lastOf_append_singleton]
    cases step.exported? s <;> rfl
  · rw [hlayered.merged, h.merged, lastOf_append_singleton]

/-- The session after some steps. -/
def after (session : Session) (steps : List Step) : Session := steps.foldl (fun session step => (session.step step).1) session

/-- So a session holds what its steps gave. -/
theorem holds_after (env : Environment) (command : Command) {steps : List Step} (h : ∀ step ∈ steps, step.Plain) :
    (after ⟨.empty, env, command⟩ steps).Holds env steps := by
  induction steps using List.reverseRecOn with
  | nil => exact holds_nil env command
  | append_singleton steps step ih =>
    have hsteps := ih (fun step' hstep' => h step' (by simp [hstep']))
    have hlast := hsteps.step (h step (by simp))
    rw [after, List.foldl_append]
    exact hlast

/-! ## What is read -/

/-- The configuration that a session reads next. -/
def read (session : Session) : Config := session.settings.withDefaults.config session.environment

/-- A session that holds what its steps gave reads what they have configured. -/
theorem Holds.read_eq {env : Environment} {steps : List Step} {session : Session} (h : session.Holds env steps) :
    session.read = configuration env steps := by
  have htext : ∀ s, session.settings.withDefaults.text session.environment s = configured env steps s := by
    intro s
    have hstandard : Settings.textAt session.settings.withDefaults.defaults s = some s.standard := by
      cases s <;> rfl
    have hoverrides : session.settings.withDefaults.overrides = session.settings.overrides := rfl
    have hmerged : session.settings.withDefaults.merged = session.settings.merged := rfl
    unfold Settings.text configured
    rw [hstandard, hoverrides, hmerged, Settings.textAt, Settings.textAt, h.overrides, h.environment, h.merged]
    cases (lastOf (Step.set? s) steps).filter Value.present with
    | some value => rfl
    | none =>
      cases ((lastOf (Step.exported? s) steps).getD (env.get? s)).filter (!·.isEmpty) with
      | some text => rfl
      | none =>
        cases (lastOf (Step.merged? s) steps).filter Value.present with
        | some value => rfl
        | none => cases s <;> rfl
  unfold read Settings.config configuration
  rw [htext, htext]

/-- The answer to a step is the one that the session gives after the steps before it. -/
theorem getElem?_run (session : Session) (steps : List Step) (step : Step) (later : List Step) :
    (session.run (steps ++ step :: later))[steps.length]? = some ((session.after steps).step step).2 := by
  induction steps generalizing session with
  | nil => rfl
  | cons first steps ih => exact ih (session.step first).1

/-- After these steps, whatever reads the configuration reads this one: `load` answers it, and a command whose arguments let
it pass holds the dialogue that it asks for. -/
structure Reads (session : Session) (steps : List Step) (config : Config) : Prop where
  load : ∀ later, (session.run (steps ++ .load :: later))[steps.length]? = some (.config config)
  execute : ∀ args source later, (session.after steps).command.Passes args →
    (session.run (steps ++ .execute args source :: later))[steps.length]? =
      some (.outcome (Command.converse config source))
  executeFresh : ∀ args source later, Command.fresh.Passes args →
    (session.run (steps ++ .executeFresh args source :: later))[steps.length]? =
      some (.outcome (Command.converse config source))

/-- What is read is what the session has come to. -/
theorem reads_iff (session : Session) (steps : List Step) (config : Config) :
    session.Reads steps config ↔ (session.after steps).read = config := by
  constructor
  · intro h
    have hload := h.load []
    rw [getElem?_run] at hload
    cases hload
    rfl
  · rintro rfl
    refine ⟨?_, ?_, ?_⟩
    · intro later
      rw [getElem?_run]
      rfl
    · intro args source later hpasses
      have houtcome := (session.after steps).command.execute_of_passes (session.after steps).settings
        (session.after steps).environment source hpasses
      rw [getElem?_run]
      exact congrArg (fun outcome => some (Reply.outcome outcome)) houtcome
    · intro args source later hpasses
      have houtcome := Command.fresh.execute_of_passes (session.after steps).settings
        (session.after steps).environment source hpasses
      rw [getElem?_run]
      exact congrArg (fun outcome => some (Reply.outcome outcome)) houtcome

/-- After plain steps, that is the configuration that they have made. -/
theorem reads_iff_of_plain (env : Environment) (command : Command) {steps : List Step} (h : ∀ step ∈ steps, step.Plain)
    (config : Config) : (⟨.empty, env, command⟩ : Session).Reads steps config ↔ configuration env steps = config := by
  rw [reads_iff, (holds_after env command h).read_eq]

/-- What a session reads, told by its steps, whatever environment and command it begins with. After plain steps it reads the
configuration that they have made: for each setting the value that was set last, if it is present, else the variable as it
stands, if it is not empty, else the value that was merged in last, if it is present, else the standard. So a default, a
reading or a run of a command, wherever it is put in between, changes nothing that is read later; and a step that gives a
setting nothing changes nothing that is read of that setting. -/
theorem reads_configured (env : Environment) (command : Command) (steps : List Step) (h : ∀ step ∈ steps, step.Plain) :
    (⟨.empty, env, command⟩ : Session).Reads steps (configuration env steps) ∧
    (∀ front back step, steps = front ++ back → step.Neutral → ∀ config,
      (⟨.empty, env, command⟩ : Session).Reads (front ++ step :: back) config ↔
        (⟨.empty, env, command⟩ : Session).Reads steps config) ∧
    (∀ front back step s, steps = front ++ step :: back → step.Spares s → ∀ config config',
      (⟨.empty, env, command⟩ : Session).Reads steps config →
        (⟨.empty, env, command⟩ : Session).Reads (front ++ back) config' → config.get s = config'.get s) := by
  refine ⟨?_, ?_, ?_⟩
  · rw [reads_iff_of_plain env command h]
  · rintro front back step rfl hneutral config
    have hplain : ∀ step' ∈ front ++ step :: back, step'.Plain := by
      rw [List.forall_mem_append, List.forall_mem_cons]
      rw [List.forall_mem_append] at h
      exact ⟨h.1, hneutral.plain, h.2⟩
    have hsame : configuration env (front ++ step :: back) = configuration env (front ++ back) := by
      unfold configuration
      rw [configured_of_spares (hneutral.spares _), configured_of_spares (hneutral.spares _)]
    rw [reads_iff_of_plain env command hplain, reads_iff_of_plain env command h, hsame]
  · rintro front back step s rfl hspares config config' hconfig hconfig'
    have hplain : ∀ step' ∈ front ++ back, step'.Plain := by
      rw [List.forall_mem_append, List.forall_mem_cons] at h
      rw [List.forall_mem_append]
      exact ⟨h.1, h.2.2⟩
    have hget : ∀ steps, (configuration env steps).get s = configured env steps s := by
      intro steps
      cases s <;> rfl
    rw [reads_iff_of_plain env command h] at hconfig
    rw [reads_iff_of_plain env command hplain] at hconfig'
    rw [← hconfig, ← hconfig', hget, hget, configured_of_spares hspares]

/-- Steps after which the algorithm is the one that was merged in first: what was set over it is set to nothing again, and its
variable is empty. The level comes from its variable. -/
def uncovering : List Step :=
  [.merge [(utf8 "Algorithm", .text (utf8 "iterative")), (utf8 "log_level", .boolean true)],
    .set (utf8 "ALGORITHM") (.integer 7), .load, .setDefault (utf8 "algorithm.x") .list,
    .setVariable (utf8 "FIBSEQ_ALGORITHM") [], .set (utf8 "algorithm") .null,
    .setVariable (utf8 "FIBSEQ_LOG_LEVEL") (utf8 "debug"), .executeFresh [utf8 "-h"] (.characters [])]

/-- The default that reaches into a table, the reading and the run in between do not count. -/
theorem reads_configured_uncovering :
    (∀ step ∈ uncovering, step.Plain) ∧
    (fresh.run (uncovering ++ [.load]))[8]? = some (.config ⟨utf8 "iterative", utf8 "debug"⟩) := by
  have hmerge : (Step.merge [(utf8 "Algorithm", .text (utf8 "iterative")), (utf8 "log_level", .boolean true)]).Plain := by
    refine ⟨by decide +kernel, ?_⟩
    simp
  have hset : ∀ key ∈ [utf8 "ALGORITHM", utf8 "algorithm"], (0x2E : UInt8) ∉ key := by decide
  have hplain : ∀ step ∈ uncovering, step.Plain := by
    simp only [uncovering, List.forall_mem_cons]
    exact ⟨hmerge, hset _ (by simp), trivial, trivial, trivial, hset _ (by simp), trivial, trivial, nofun⟩
  have hconfiguration : configuration Layer.empty uncovering = ⟨utf8 "iterative", utf8 "debug"⟩ := by decide +kernel
  have hload := (reads_configured Layer.empty .fresh uncovering hplain).1.load []
  rw [hconfiguration] at hload
  exact ⟨hplain, hload⟩

end Session

end LeadingTerms
