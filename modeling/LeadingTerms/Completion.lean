import LeadingTerms.Outcome

/-!
# Completions

A shell that completes command lines can ask the program how one may go on: it hands over the command line so far, the word
being typed last, with one of two words in front that make it a request. The request is found before the arguments are read,
as the first argument that can name a command. No flag is known at that point, so a flag that is given no value is taken to
have the next argument for its value; empty arguments are passed over. The answer holds the flags that the word may become and
a directive for the shell. What is wrong with the command line is told beside the answer; it is no failure.
-/

namespace LeadingTerms

namespace Completion

open Arguments (dash equals helpLetter)

/-! ## Requests -/

/-- Whether an argument is taken together with the one behind it: it is a name behind two dashes, or a single byte behind one,
and has no value of its own. -/
def takesNext (arg : Bytes) : Bool :=
  !arg.contains equals && ([dash, dash].isPrefixOf arg || (arg.head? == some dash && arg.length == 2))

/-- The first argument that can name a command, and the arguments without it. -/
def word? : List Bytes → Option (Bytes × List Bytes)
  | [] => none
  | arg :: args =>
    if arg = [dash, dash] then none
    else if takesNext arg then
      match args with
      | [] => none
      | value :: args => (word? args).map fun (word, others) => (word, arg :: value :: others)
    else if arg.isEmpty ∨ arg.head? = some dash then (word? args).map fun (word, others) => (word, arg :: others)
    else some (arg, args)

/-- The word that asks for completions and for what they mean. -/
def describedWord : Bytes := utf8 "__complete"

/-- The word that asks for completions alone. -/
def plainWord : Bytes := utf8 "__completeNoDesc"

/-- A request for completions. -/
structure Request where
  /-- Whether the completions are shown with what they mean. -/
  described : Bool
  /-- The command line so far, the word being typed last. -/
  line : List Bytes
deriving DecidableEq

/-- The request that arguments make, if they make one. -/
def request? (args : List Bytes) : Option Request :=
  match word? args with
  | none => none
  | some (word, line) =>
    if word = describedWord then some ⟨true, line⟩
    else if word = plainWord then some ⟨false, line⟩
    else none

/-! ## The word being typed -/

/-- What is being typed at the end of a command line. -/
structure Focus where
  /-- The arguments in front of it. -/
  before : List Bytes
  /-- The text so far. -/
  text : Bytes
  /-- Whether it is a value for the flag. -/
  isValue : Bool
  /-- The name of the flag that it would be a value for, if there is no such flag. -/
  unknown : Option Bytes

/-- The name of the flag that an argument ends with: everything behind two dashes, or else its last byte. -/
def flagName (arg : Bytes) : Bytes :=
  if [dash, dash].isPrefixOf arg then arg.drop 2 else arg.drop (arg.length - 1)

/-- The name of the flag that is to get its value from the next argument. -/
def openFlag? (arg : Bytes) : Option Bytes :=
  if arg.contains equals then none
  else match Arguments.kind arg with
    | .name _ | .letters _ => some (flagName arg)
    | _ => none

/-- Tells what is being typed. A word with a dash in front and no equals sign is a flag. Otherwise it may be the value of a
flag: of the one in front of the equals sign or, if there is none, of the argument before it. The one flag there is does not
get its value from the next argument. -/
def focus (before : List Bytes) (typed : Bytes) : Focus :=
  if typed.head? = some dash ∧ typed.contains equals = false then ⟨before, typed, false, none⟩
  else
    let assigned : Bool := typed.head? == some dash
    let own : Bytes := if assigned then flagName (typed.takeWhile (· ≠ equals)) else []
    let text : Bytes := if assigned then (typed.dropWhile (· ≠ equals)).drop 1 else typed
    let flag? : Option (Bytes × List Bytes) :=
      if own.isEmpty then (before.getLast?.bind openFlag?).map (·, before.dropLast) else some (own, before)
    match flag? with
    | none => ⟨before, text, false, none⟩
    | some (name, before') =>
      if name = [helpLetter] ∨ name = utf8 "help" then
        if assigned then ⟨before', text, true, none⟩ else ⟨before, text, false, none⟩
      else ⟨before, typed, false, some name⟩

/-! ## Answers -/

/-- What the shell is told to do besides showing the completions. -/
inductive Directive where
  /-- To go on as usual, with the names of files. -/
  | usual
  /-- Not to show the names of files. -/
  | noFiles
deriving DecidableEq

/-- The number of a directive. -/
def Directive.number : Directive → Nat
  | usual => 0
  | noFiles => 4

/-- The name of a directive. -/
def Directive.name : Directive → String
  | usual => "ShellCompDirectiveDefault"
  | noFiles => "ShellCompDirectiveNoFileComp"

/-- What can be wrong with a command line. -/
inductive Complaint where
  /-- An argument in front of the word being typed could not be read. -/
  | unreadable (args : List Bytes) (cause : FlagError)
  /-- The word would be the value of a flag that there is not. -/
  | unknownFlag (name : Bytes)
deriving DecidableEq

/-- The wording of a complaint. -/
def Complaint.message : Complaint → Bytes
  | unreadable args cause =>
    utf8 "Error while parsing flags from args [" ++ (utf8 " ").intercalate args ++ utf8 "]: " ++ cause.message
  | unknownFlag name => utf8 "Subcommand 'fibseq' does not support flag '" ++ name ++ utf8 "'"

/-- The answer to a request. -/
structure Answer where
  /-- The flags that the word may become. -/
  flags : List Bytes
  directive : Directive
  complaint : Option Complaint

/-- The spellings of the flag. -/
def spellings : List Bytes := [utf8 "--help", utf8 "-h"]

/-- Whether arguments give the flag a value: the wish for help that stood before them does not count any more. -/
def givesFlag (args : List Bytes) : Bool :=
  (Arguments.parse false args).help == (Arguments.parse true args).help

/-- How a command line may go on. A command line that gives the flag, and one that is not read to its end, is not completed.
Behind `--` there are no flags. -/
def answer (before : List Bytes) (typed : Bytes) : Answer :=
  let f := focus before typed
  let ended : Bool := f.before.contains [dash, dash]
  match (Arguments.parse false f.before).error with
  | some e => ⟨[], .usual, some (.unreadable f.before e)⟩
  | none =>
    match if ended then none else f.unknown with
    | some name => ⟨[], .usual, some (.unknownFlag name)⟩
    | none =>
      if givesFlag f.before then ⟨[], .noFiles, none⟩
      else if !f.isValue && f.text.head? == some dash && !f.text.contains equals && !ended then
        ⟨spellings.filter f.text.isPrefixOf, .noFiles, none⟩
      else ⟨[], .usual, none⟩

/-- A completion on its line. -/
def flagLine (described : Bool) (flag : Bytes) : Bytes :=
  flag ++ (if described then utf8 "\thelp for fibseq" else []) ++ utf8 "\n"

/-- The line of a directive, by its number. -/
def Directive.line (d : Directive) : Bytes := utf8 ":" ++ decimal d.number ++ utf8 "\n"

/-- What is told of an answer beside it: the complaint, if there is one, and the name of the directive. -/
def Answer.notes (a : Answer) : Bytes :=
  (match a.complaint with
    | none => []
    | some c => utf8 "[Debug] [Error] " ++ c.message ++ utf8 "\n") ++
    utf8 "Completion ended with directive: " ++ utf8 a.directive.name ++ utf8 "\n"

/-- What a run leaves that was a request: it reads no input. There is an answer if there is a word to complete. -/
def Request.outcome (r : Request) (source : Source) : Outcome :=
  match r.line.getLast? with
  | none => .failed .nothingToComplete source
  | some typed =>
    let a := answer r.line.dropLast typed
    ⟨a.flags.flatMap (flagLine r.described) ++ a.directive.line, a.notes, source, none⟩

end Completion

end LeadingTerms
