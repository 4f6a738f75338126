import PhraseStructure.Chart.Derivations
import PhraseStructure.Chunk
import PhraseStructure.CommandLine.Options
import PhraseStructure.Grammar.English
import PhraseStructure.Grammar.File
import PhraseStructure.ParseTree.Bracketed
import PhraseStructure.ParseTree.Drawing
import PhraseStructure.ParseTree.Json
import PhraseStructure.Token

/-!
# Sessions

A session parses one sentence and prints its derivations with their noun phrase chunks. The grammar
is read before the sentence, and the sentence comes from a file, or else from the first line of the
input, for which there is a prompt. What is logged on the way is not modelled.
-/

namespace PhraseStructure.CommandLine

/-- What a program leaves behind: its exit code, and what it has written to its two streams. The
lines that it logs on the second stream when the verbosity is raised are left out of `complaint`,
which holds only the report of a failure. -/
structure Outcome where
  code : UInt32
  output : String
  complaint : String
  deriving DecidableEq, Repr

namespace Session

/-- The cause below the message of an error, if the error has one. -/
def causesBelow : GrammarError → List String
  | .unreadable _ cause => [cause.message]
  | .invalidDocument fault => [fault.message]
  | _ => []

/-- The grammar that the options name, with their start symbol. -/
def loadGrammar (read : Reading) (o : Options) : Except Failure Grammar := do
  let g ← match o.grammar with
    | none => Grammar.english.mapError fun e => { message := e.message, causes := causesBelow e }
    | some path => (Grammar.ofFile read path).mapError fun e =>
      { message := "Error loading grammar " ++ path, causes := e.message :: causesBelow e }
  match o.start with
  | none => return g
  | some start => (g.withStart start).mapError fun e => { message := e.message }

def prompt : String := "Sentence: "

def readSentence (read : Reading) (path : String) : Except Failure String :=
  (read.text path).mapError fun e =>
    { message := "Failed to read input file '" ++ path ++ "'", causes := [e.message] }

/-- The first line of the input, with its end. -/
def firstLine (input : List UInt8) : List UInt8 :=
  input.takeWhile (· != 10) ++ (input.dropWhile (· != 10)).take 1

def readInput (input : ByteArray) : Except Failure String :=
  let line := ByteArray.mk (firstLine input.toList).toArray
  match String.fromUTF8? line with
  | some sentence => .ok sentence
  | none => .error { message := FileError.message .invalidText }

/-- A derivation as text: the drawing of its tree, and its chunks one a line. -/
def asText (t : ParseTree) : String :=
  t.drawn ++ "\n\nNoun Phrase Chunks\n" ++
    String.join (t.nounPhrases.map fun chunk => chunk.text ++ "\n") ++ "\n"

/-- A derivation as one line of JSON. -/
def asJson (t : ParseTree) : String :=
  "\x7b\"tree\":" ++ t.json ++ ",\"chunks\":" ++
    Json.arrayOf (t.nounPhrases.map fun chunk => Json.quoted chunk.text) ++ "\x7d\n"

def write : Format → ParseTree → String
  | .text => asText
  | .json => asJson

/-- The number of derivations that are printed if the options do not limit it. -/
def unlimited : Nat := wordLimit - 1

/-- What is printed for a sentence. -/
def answer (g : Grammar) (o : Options) (sentence : String) : String :=
  match Chart.ofTokens g (tokenize sentence) with
  | .error u => u.message ++ "\n"
  | .ok c =>
    let derivations := c.derivations g.start
    if derivations.isEmpty then "Could not parse sentence.\n"
    else
      let trees := (derivations.take (o.maxTrees.getD unlimited)).1
      String.join (trees.map (write (o.format.getD .text)))

/-- The outcome of a failure, after `output` has been written. -/
def failed (output : String) (f : Failure) : Outcome :=
  { code := 1, output, complaint := f.report }

def run (read : Reading) (input : ByteArray) (o : Options) : Outcome :=
  match loadGrammar read o with
  | .error f => failed "" f
  | .ok g =>
    match o.file with
    | some path =>
      match readSentence read path with
      | .error f => failed "" f
      | .ok sentence => { code := 0, output := answer g o sentence, complaint := "" }
    | none =>
      match readInput input with
      | .error f => failed prompt f
      | .ok sentence => { code := 0, output := prompt ++ answer g o sentence, complaint := "" }

end Session

def version : String := "np_chunker 0.1.0\n"

def usage : String :=
  "Parse a sentence and list its noun phrase chunks\n\n" ++
  "Usage: np_chunker [OPTIONS] [FILE]\n\n" ++
  "  FILE                  the file with the sentence; without it, one line is read\n" ++
  "  -g, --grammar PATH    the grammar, rule text or a .json document\n" ++
  "  -s, --start SYMBOL    the start symbol\n" ++
  "      --max-trees N     stop after this many derivations\n" ++
  "      --format FORMAT   text or json\n" ++
  "  -v, --verbose         raise the verbosity\n" ++
  "  -h, --help            print this text\n" ++
  "  -V, --version         print the version\n"

def outcome (read : Reading) (input : ByteArray) (arguments : List String) : Outcome :=
  match Request.ofArguments arguments with
  | .error e => { code := 2, output := "", complaint := "error: " ++ e.message ++ "\n\n" ++ usage }
  | .ok .help => { code := 0, output := usage, complaint := "" }
  | .ok .version => { code := 0, output := version, complaint := "" }
  | .ok (.parse o) => Session.run read input o

end PhraseStructure.CommandLine
