import LeadingTerms.Text.Quoted

/-!
# Command-line arguments

The command has one flag, `-h` or `--help`, which may be given a truth value. Arguments are read from left to right; the
first one that cannot be read ends the reading, and what was assigned before it stays assigned. Everything that is not a
flag is an operand, and so is everything behind `--`.
-/

namespace LeadingTerms

/-- The reasons why an argument cannot be read. -/
inductive FlagError where
  /-- Two dashes with no name behind them. -/
  | malformed (argument : Bytes)
  /-- Two dashes with another name than that of the flag. -/
  | unknownName (name : Bytes)
  /-- A letter other than that of the flag, at the front of the rest of a cluster. -/
  | unknownLetter (letter : UInt8) (cluster : Bytes)
  /-- A text that is no truth value, given to the flag. -/
  | notABoolean (value : Bytes)
deriving DecidableEq

/-- The wording of a flag error. -/
def FlagError.message : FlagError → Bytes
  | malformed argument => utf8 "bad flag syntax: " ++ argument
  | unknownName name => utf8 "unknown flag: --" ++ name
  | unknownLetter letter cluster =>
    utf8 "unknown shorthand flag: " ++ quoteChar (Char.ofNat letter.toNat) ++ utf8 " in -" ++ cluster
  | notABoolean value =>
    utf8 "invalid argument " ++ quoteText value ++ utf8 " for \"-h, --help\" flag: strconv.ParseBool: parsing " ++
      quoteText value ++ utf8 ": invalid syntax"

namespace Arguments

/-- The spellings of true. -/
def trueTexts : List Bytes := ["1", "t", "T", "TRUE", "true", "True"].map utf8

/-- The spellings of false. -/
def falseTexts : List Bytes := ["0", "f", "F", "FALSE", "false", "False"].map utf8

/-- The truth value that a text spells. -/
def boolean? (text : Bytes) : Option Bool :=
  if trueTexts.contains text then some true
  else if falseTexts.contains text then some false
  else none

/-- What the reading of a flag leaves: whether help is wanted, and what went wrong. -/
abbrev Flagged := Bool × Option FlagError

/-- Gives the flag a value. A text that is no truth value takes the wish for help back and is an error. -/
def assign (value : Bytes) : Flagged :=
  match boolean? value with
  | some b => (b, none)
  | none => (false, some (.notABoolean value))

/-- The byte `-`. -/
def dash : UInt8 := 0x2D

/-- The byte `=`. -/
def equals : UInt8 := 0x3D

/-- The byte `h`. -/
def helpLetter : UInt8 := 0x68

/-- A cluster that begins like this is left alone. -/
def ignoredCluster : Bytes := utf8 "test."

/-- Reads a cluster of one-letter flags. `h=` takes all that follows for its value, if anything does; a plain `h` asks for
help, and the cluster goes on behind it. -/
def cluster (help : Bool) : Bytes → Flagged
  | [] => (help, none)
  | b :: bs =>
    if ignoredCluster.isPrefixOf (b :: bs) then (help, none)
    else if b ≠ helpLetter then (help, some (.unknownLetter b (b :: bs)))
    else match bs with
      | e :: v :: vs => if e = equals then assign (v :: vs) else cluster true bs
      | _ => cluster true bs

/-- Reads a flag given by name; `text` is the argument without its two dashes. -/
def named (help : Bool) (text : Bytes) : Flagged :=
  if text.isEmpty ∨ text.head? = some dash ∨ text.head? = some equals then
    (help, some (.malformed (dash :: dash :: text)))
  else
    let name := text.takeWhile (· ≠ equals)
    if name ≠ utf8 "help" then (help, some (.unknownName name))
    else match text.dropWhile (· ≠ equals) with
      | [] => (true, none)
      | _ :: value => assign value

/-- What an argument is. -/
inductive Kind where
  | operand
  /-- The end of the flags. -/
  | terminator
  /-- A flag by name, without its dashes. -/
  | name (text : Bytes)
  /-- A cluster of one-letter flags, without its dash. -/
  | letters (text : Bytes)

/-- Tells flags from operands. A single dash and an empty argument are operands. -/
def kind : Bytes → Kind
  | a :: b :: rest =>
    if a ≠ dash then .operand
    else if b ≠ dash then .letters (b :: rest)
    else if rest.isEmpty then .terminator
    else .name rest
  | _ => .operand

end Arguments

/-- What the reading of all arguments leaves. -/
structure Arguments where
  /-- Whether help is wanted. -/
  help : Bool
  /-- The operands, in order. -/
  operands : List Bytes
  /-- What ended the reading early. -/
  error : Option FlagError

namespace Arguments

/-- Reads the arguments, starting from a standing wish for help. -/
def parse (help : Bool) : List Bytes → Arguments
  | [] => ⟨help, [], none⟩
  | arg :: args =>
    let goOn : Flagged → Arguments
      | (h, none) => parse h args
      | (h, some e) => ⟨h, [], some e⟩
    match kind arg with
    | .operand =>
      let a := parse help args
      { a with operands := arg :: a.operands }
    | .terminator => ⟨help, args, none⟩
    | .name text => goOn (named help text)
    | .letters text => goOn (cluster help text)

end Arguments

end LeadingTerms
