/-!
# Command line options and failures

Arguments are read from the left, and the first that asks for help or for the version, or that is
refused, decides. An option may be given once, except for the one that raises the verbosity. A value
follows its option as the next argument, or in the same one: `--start=NP`, `-sNP`, `-s=NP`. Options
of one letter without a value may be written together.

A program that fails reports what it could not do and, below that, the chain of causes.
-/

namespace PhraseStructure

structure Failure where
  message : String
  /-- The causes, each the cause of the one before. -/
  causes : List String := []
  deriving DecidableEq, Repr

namespace Failure

/-- A text with `lead` before its first line and `next` before every other. -/
def indented (lead next text : String) : String :=
  lead ++ ("\n" ++ next).intercalate (text.splitOn "\n")

/-- The causes from number `n` on, each on lines of its own. -/
def numbered (n : Nat) : List String → String
  | [] => ""
  | cause :: rest =>
    let number := n.repr
    "\n" ++ indented ("".pushn ' ' (5 - number.length) ++ number ++ ": ") "       " cause ++
      numbered (n + 1) rest

/-- The report of a failure. Several causes are numbered. -/
def report (f : Failure) : String :=
  "Error: " ++ f.message ++
    (match f.causes with
    | [] => ""
    | [cause] => "\n\nCaused by:\n" ++ indented "    " "    " cause
    | causes => "\n\nCaused by:" ++ numbered 0 causes) ++ "\n"

end Failure

namespace CommandLine

inductive Format
  | text
  | json
  deriving DecidableEq, Repr

/-- The options, each of which may be missing. -/
structure Options where
  /-- The file with the sentence. -/
  file : Option String := none
  grammar : Option String := none
  start : Option String := none
  maxTrees : Option Nat := none
  format : Option Format := none
  verbosity : Nat := 0
  deriving DecidableEq, Repr

inductive ValueOption
  | grammar
  | start
  | maxTrees
  | format
  deriving DecidableEq, Repr

inductive Flag
  | verbose
  | help
  | version
  deriving DecidableEq, Repr

inductive UsageError
  | unknownOption (argument : String)
  | repeated (option : ValueOption)
  | missingValue (option : ValueOption)
  | invalidValue (option : ValueOption) (value : String)
  | unexpectedValue (flag : Flag)
  | unexpectedArgument (argument : String)
  | emptyFile
  deriving DecidableEq, Repr

/-- What a command line asks for. -/
inductive Request
  | parse (options : Options)
  | help
  | version
  deriving DecidableEq, Repr

def ValueOption.name : ValueOption → String
  | grammar => "--grammar"
  | start => "--start"
  | maxTrees => "--max-trees"
  | format => "--format"

def UsageError.message : UsageError → String
  | unknownOption argument => "there is no option '" ++ argument ++ "'"
  | repeated option => option.name ++ " is given twice"
  | missingValue option => option.name ++ " needs a value"
  | invalidValue option value => "'" ++ value ++ "' is no value for " ++ option.name
  | unexpectedValue flag =>
    match flag with
    | .verbose => "--verbose takes no value"
    | .help => "--help takes no value"
    | .version => "--version takes no value"
  | unexpectedArgument argument => "there is no place for '" ++ argument ++ "'"
  | emptyFile => "the name of a file is not empty"

def longOption? (name : String) : Option (ValueOption ⊕ Flag) :=
  match name with
  | "grammar" => some (.inl .grammar)
  | "start" => some (.inl .start)
  | "max-trees" => some (.inl .maxTrees)
  | "format" => some (.inl .format)
  | "verbose" => some (.inr .verbose)
  | "help" => some (.inr .help)
  | "version" => some (.inr .version)
  | _ => none

def shortOption? : Char → Option (ValueOption ⊕ Flag)
  | 'g' => some (.inl .grammar)
  | 's' => some (.inl .start)
  | 'v' => some (.inr .verbose)
  | 'h' => some (.inr .help)
  | 'V' => some (.inr .version)
  | _ => none

/-- The first number that does not fit a word of 64 bits. -/
def wordLimit : Nat := Nat.pow 2 64

/-- A number below `wordLimit` in decimal, with or without a plus sign. -/
def readNumber? (text : String) : Option Nat :=
  let digits := match text.toList with
    | '+' :: rest => rest
    | all => all
  if digits.isEmpty || digits.any (!·.isDigit) then none
  else
    let n := digits.foldl (fun n c => 10 * n + (c.toNat - '0'.toNat)) 0
    if n < wordLimit then some n else none

def readFormat? : String → Option Format
  | "text" => some .text
  | "json" => some .json
  | _ => none

def Options.has (o : Options) : ValueOption → Bool
  | .grammar => o.grammar.isSome
  | .start => o.start.isSome
  | .maxTrees => o.maxTrees.isSome
  | .format => o.format.isSome

def Options.set (o : Options) (option : ValueOption) (value : String) :
    Except UsageError Options :=
  if o.has option then .error (.repeated option)
  else match option with
    | .grammar =>
      if value.isEmpty then .error (.invalidValue option value)
      else .ok { o with grammar := some value }
    | .start => .ok { o with start := some value }
    | .maxTrees =>
      match readNumber? value with
      | some n => .ok { o with maxTrees := some n }
      | none => .error (.invalidValue option value)
    | .format =>
      match readFormat? value with
      | some format => .ok { o with format := some format }
      | none => .error (.invalidValue option value)

def Options.setFile (o : Options) (argument : String) : Except UsageError Options :=
  if o.file.isSome then .error (.unexpectedArgument argument)
  else if argument.isEmpty then .error .emptyFile
  else .ok { o with file := some argument }

/-- What an argument has led to: options so far, an option that waits for its value, or a request
for which the other arguments do not matter. -/
inductive Step
  | options (o : Options)
  | waiting (o : Options) (option : ValueOption)
  | request (r : Request)

def Options.raise (o : Options) : Flag → Step
  | .verbose => .options { o with verbosity := o.verbosity + 1 }
  | .help => .request .help
  | .version => .request .version

/-- Reads options of one letter that are written together. The characters behind an option with a
value are its value, without an equals sign in front. -/
def readLetters (argument : String) (o : Options) : List Char → Except UsageError Step
  | [] => .ok (.options o)
  | c :: rest =>
    match shortOption? c with
    | none => .error (.unknownOption argument)
    | some (.inl option) =>
      match rest with
      | [] => .ok (.waiting o option)
      | '=' :: value => (o.set option (String.ofList value)).map .options
      | value => (o.set option (String.ofList value)).map .options
    | some (.inr flag) =>
      match o.raise flag with
      | .options o => readLetters argument o rest
      | step => .ok step

def readLong (argument : String) (o : Options) (text : List Char) : Except UsageError Step :=
  let name := text.takeWhile (· != '=')
  let value? := match text.dropWhile (· != '=') with
    | [] => none
    | _ :: value => some (String.ofList value)
  match longOption? (String.ofList name), value? with
  | none, _ => .error (.unknownOption argument)
  | some (.inl option), none => .ok (.waiting o option)
  | some (.inl option), some value => (o.set option value).map .options
  | some (.inr flag), none => .ok (o.raise flag)
  | some (.inr flag), some _ => .error (.unexpectedValue flag)

def readArgument (o : Options) (argument : String) : Except UsageError Step :=
  match argument.toList with
  | '-' :: '-' :: text => readLong argument o text
  | '-' :: c :: letters => readLetters argument o (c :: letters)
  | _ => (o.setFile argument).map .options

/-- Whether an argument looks like an option, and so cannot be a value on its own. -/
def looksLikeOption (argument : String) : Bool :=
  match argument.toList with
  | '-' :: _ :: _ => true
  | _ => false

/-- Reads the arguments from the left. -/
def readArguments (o : Options) : List String → Except UsageError Request
  | [] => .ok (.parse o)
  | "--" :: files => (files.foldlM Options.setFile o).map .parse
  | argument :: rest =>
    match readArgument o argument with
    | .error e => .error e
    | .ok (.request r) => .ok r
    | .ok (.options o) => readArguments o rest
    | .ok (.waiting o option) =>
      match rest with
      | [] => .error (.missingValue option)
      | value :: rest =>
        if looksLikeOption value then .error (.missingValue option)
        else match o.set option value with
          | .error e => .error e
          | .ok o => readArguments o rest

def Request.ofArguments (arguments : List String) : Except UsageError Request :=
  readArguments {} arguments

end CommandLine

end PhraseStructure
