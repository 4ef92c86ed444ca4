import LeadingTerms.Diagnostics.Level
import LeadingTerms.Sequence.Algorithm
import LeadingTerms.Settings.Value

/-!
# Settings

There are two settings, the algorithm and the level of the log. Each can be given a value on four layers, and the first
layer with a value decides: what was set, a variable of the environment, what was merged in, and a default. Keys are
compared up to letter case, names of variables exactly. A key that names no setting is nowhere asked for and leaves no
trace.
-/

namespace LeadingTerms

/-- The settings of the program. -/
inductive Setting where
  | algorithm
  | logLevel
deriving DecidableEq

namespace Setting

/-- The key of a setting. -/
def key : Setting → String
  | algorithm => "algorithm"
  | logLevel => "log_level"

/-- The environment variable of a setting. -/
def variableName : Setting → String
  | algorithm => "FIBSEQ_ALGORITHM"
  | logLevel => "FIBSEQ_LOG_LEVEL"

/-- The value of a setting that is given none. -/
def standard : Setting → Bytes
  | algorithm => utf8 Algorithm.standard.name
  | logLevel => utf8 Level.standard.name

/-- The setting whose key the symbols spell, letter case aside. -/
def ofKey? (symbols : List Symbol) : Option Setting :=
  if spells algorithm.key symbols then some algorithm
  else if spells logLevel.key symbols then some logLevel
  else none

/-- The setting that an environment variable is for. -/
def ofVariable? (name : Bytes) : Option Setting :=
  if name = utf8 algorithm.variableName then some algorithm
  else if name = utf8 logLevel.variableName then some logLevel
  else none

end Setting

/-! ## Layers -/

/-- Something for each setting, or nothing. -/
structure Layer (α : Type) where
  algorithm : Option α
  logLevel : Option α
deriving DecidableEq

namespace Layer

variable {α : Type}

/-- The layer that gives nothing. -/
def empty : Layer α := ⟨none, none⟩

/-- What a layer gives for a setting. -/
def get? (l : Layer α) : Setting → Option α
  | .algorithm => l.algorithm
  | .logLevel => l.logLevel

/-- The layer with something else for a setting. -/
def put (l : Layer α) (s : Setting) (x : Option α) : Layer α :=
  match s with
  | .algorithm => { l with algorithm := x }
  | .logLevel => { l with logLevel := x }

/-- What was put is what the layer gives; other settings keep what they had. -/
theorem get?_put (l : Layer α) (s t : Setting) (x : Option α) :
    (l.put s x).get? t = if t = s then x else l.get? t := by
  cases s <;> cases t <;> rfl

end Layer

/-- The variables of the environment that are for a setting. -/
abbrev Environment := Layer Bytes

namespace Environment

/-- The environment with a variable set, or removed. -/
def update (env : Environment) (name : Bytes) (value : Option Bytes) : Environment :=
  match Setting.ofVariable? name with
  | some s => env.put s value
  | none => env

/-- The environment with the given variables set, in order. -/
def ofList (bindings : List (Bytes × Bytes)) : Environment :=
  bindings.foldl (fun env v => env.update v.1 (some v.2)) Layer.empty

end Environment

/-! ## The layered store -/

/-- The values given on the layers other than the environment. -/
structure Settings where
  overrides : Layer Value
  merged : Layer Value
  defaults : Layer Value
deriving DecidableEq

/-- The values that a run is made with. -/
structure Config where
  algorithm : Bytes
  logLevel : Bytes
deriving DecidableEq

namespace Settings

/-- Nothing given. -/
def empty : Settings := ⟨Layer.empty, Layer.empty, Layer.empty⟩

/-- A layer with a value at a key. A key with a dot reaches into a table, which takes the place of any other value under
the part in front of the dot. -/
def store (l : Layer Value) (key : Bytes) (value : Value) : Layer Value :=
  let symbols := decode key
  let first := symbols.takeWhile (· ≠ .char '.')
  match Setting.ofKey? first with
  | some s => l.put s (some (if first.length < symbols.length then .table else value))
  | none => l

/-- Sets a value, above everything else. -/
def set (s : Settings) (key : Bytes) (value : Value) : Settings :=
  { s with overrides := store s.overrides key value }

/-- Gives a default. -/
def setDefault (s : Settings) (key : Bytes) (value : Value) : Settings :=
  { s with defaults := store s.defaults key value }

/-- A layer with one entry merged in. A dot in the key has no meaning here, and a table gives way to a table only. -/
def mergeEntry (l : Layer Value) (entry : Bytes × Value) : Layer Value :=
  match Setting.ofKey? (decode entry.1) with
  | some s => if l.get? s = some .table ∧ entry.2 ≠ .table then l else l.put s (some entry.2)
  | none => l

/-- Merges entries in. -/
def merge (s : Settings) (entries : List (Bytes × Value)) : Settings :=
  { s with merged := entries.foldl mergeEntry s.merged }

/-- The text of the value that a layer gives, the absence of a value not counting. -/
def textAt (l : Layer Value) (s : Setting) : Option Bytes :=
  ((l.get? s).filter Value.present).map Value.toText

/-- The text of a setting: from the first layer that gives one. An empty variable gives none. -/
def text (s : Settings) (env : Environment) (setting : Setting) : Bytes :=
  (textAt s.overrides setting <|> (env.get? setting).filter (!·.isEmpty) <|> textAt s.merged setting <|>
    textAt s.defaults setting).getD []

/-- The settings with every default as it should be. -/
def withDefaults (s : Settings) : Settings :=
  { s with defaults := ⟨some (.text Setting.algorithm.standard), some (.text Setting.logLevel.standard)⟩ }

/-- Reads both settings. -/
def config (s : Settings) (env : Environment) : Config :=
  ⟨s.text env .algorithm, s.text env .logLevel⟩

end Settings

end LeadingTerms
