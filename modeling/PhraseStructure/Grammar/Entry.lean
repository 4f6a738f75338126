import PhraseStructure.File.Tree
import PhraseStructure.Json.Reader
import PhraseStructure.Text.Numeric

/-!
# Grammar rules as written

A rule entry is a left-hand side with its alternatives, all symbols still spelled out: words, which
stand in quotes where rules are written, and names of non-terminals. The errors are the causes for
which a text, a document or a file is refused as a grammar, with their wording.
-/

namespace PhraseStructure

/-- What is wrong with one written rule. -/
inductive RuleFault
  | missingArrow
  | invalidName (name : String)
  | unterminatedLiteral
  | emptyLiteral
  | emptyAlternative
  | emptyAlternativeOf (lhs : String)
  deriving DecidableEq, Repr

def RuleFault.message : RuleFault → String
  | missingArrow => "expected 'LHS -> RHS'"
  | invalidName name => "'" ++ name ++ "' is not a valid non-terminal name"
  | unterminatedLiteral => "unterminated terminal literal"
  | emptyLiteral => "empty terminal literal"
  | emptyAlternative => "empty alternative"
  | emptyAlternativeOf lhs => "empty alternative for '" ++ lhs ++ "'"

inductive GrammarError
  /-- A rule that cannot be read. Lines count from one; line zero is a document without lines. -/
  | malformedRule (line : Nat) (fault : RuleFault)
  | undefinedNonTerminal (name : String)
  | mixedAlternative (lhs : String)
  | unaryCycle (name : String)
  | unknownStart (name : String)
  | empty
  | invalidDocument (fault : Json.Fault)
  | unreadable (path : String) (cause : FileError)
  deriving DecidableEq, Repr

def GrammarError.message : GrammarError → String
  | malformedRule line fault => "line " ++ line.repr ++ ": " ++ fault.message
  | undefinedNonTerminal name => "non-terminal '" ++ name ++ "' is used but never defined"
  | mixedAlternative lhs =>
    "alternative of '" ++ lhs ++ "' mixes terminal literals with other symbols"
  | unaryCycle name => "unary rules form a cycle through '" ++ name ++ "'"
  | unknownStart name => "start symbol '" ++ name ++ "' is not defined"
  | empty => "grammar has no rules"
  | invalidDocument fault => "invalid JSON grammar: " ++ fault.message
  | unreadable path cause => "failed to read grammar file " ++ path ++ ": " ++ cause.message

inductive WrittenSymbol
  | word (text : String)
  | name (text : String)
  deriving DecidableEq, Repr

abbrev WrittenAlternative := List WrittenSymbol

structure Entry where
  lhs : String
  alternatives : List WrittenAlternative
  deriving DecidableEq, Repr

/-- Whether a text can name a non-terminal: a letter or `_`, then letters, digits and `_`. -/
def isName : List Char → Bool
  | [] => false
  | c :: rest =>
    (Text.isAlphabetic c || c == '_') && rest.all fun d => Text.isAlphanumeric d || d == '_'

def readName (text : List Char) : Except RuleFault String :=
  if isName text then .ok (String.ofList text) else .error (.invalidName (String.ofList text))

theorem readName_eq_ok {text : List Char} {name : String} :
    readName text = .ok name ↔ isName text = true ∧ name = String.ofList text := by
  unfold readName
  split
  · next h => simp only [h, Except.ok.injEq, true_and, eq_comm]
  · next h => simp [h]

end PhraseStructure
