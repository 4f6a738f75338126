import PhraseStructure.Grammar.OfEntries
import PhraseStructure.Text.Basic

/-!
# Rule text

Rule text has one rule a line, `LHS -> A B | "word"`. Blank lines and lines that begin with `#` hold
no rule, and behind the last symbol of a rule a `#` begins a comment. Words stand in quotes, in
which every character but the quote stands for itself. Reading stops at the first line that is none
of these.
-/

namespace PhraseStructure

namespace RuleText

open Text

/-- What the right-hand side of a rule is made of. -/
inductive Item
  | bar
  | symbol (s : WrittenSymbol)
  deriving DecidableEq, Repr

def continuesName (c : Char) : Bool := !isBlank c && c != '|' && c != '"' && c != '#'

/-- The items of a right-hand side, up to its comment. -/
def items : List Char → Except RuleFault (List Item)
  | [] => .ok []
  | c :: text =>
    if c = '#' then .ok []
    else if c = '|' then return .bar :: (← items text)
    else if c = '"' then
      let word := text.takeWhile (· != '"')
      let rest := text.dropWhile (· != '"')
      if rest.isEmpty then .error .unterminatedLiteral
      else if word.isEmpty then .error .emptyLiteral
      else return .symbol (.word (String.ofList word)) :: (← items rest.tail)
    else if isBlank c then items text
    else do
      let name ← readName (c :: text.takeWhile continuesName)
      return .symbol (.name name) :: (← items (text.dropWhile continuesName))
termination_by text => text.length
decreasing_by
  · simp
  · have : (text.dropWhile (· != '"')).length ≤ text.length :=
      (List.dropWhile_sublist _).length_le
    simp only [List.length_tail, List.length_cons]
    omega
  · simp
  · have : (text.dropWhile continuesName).length ≤ text.length :=
      (List.dropWhile_sublist _).length_le
    simp only [List.length_cons]
    omega

def splitAtBars : List Item → List WrittenAlternative
  | [] => [[]]
  | .bar :: rest => [] :: splitAtBars rest
  | .symbol s :: rest =>
    match splitAtBars rest with
    | [] => [[s]]
    | alternative :: more => (s :: alternative) :: more

theorem splitAtBars_ne_nil (is : List Item) : splitAtBars is ≠ [] := by
  cases is with
  | nil => simp [splitAtBars]
  | cons i rest =>
    cases i with
    | bar => simp [splitAtBars]
    | symbol s =>
      rw [splitAtBars]
      split <;> simp

/-- The alternatives of a right-hand side, none of which may be empty. -/
def readAlternatives (rhs : List Char) : Except RuleFault (List WrittenAlternative) := do
  let alternatives := splitAtBars (← items rhs)
  if alternatives.any List.isEmpty then .error .emptyAlternative else .ok alternatives

def splitAtArrow : List Char → Option (List Char × List Char)
  | '-' :: '>' :: rest => some ([], rest)
  | c :: rest => (splitAtArrow rest).map fun (lhs, rhs) => (c :: lhs, rhs)
  | [] => none

def readRule (text : List Char) : Except RuleFault Entry :=
  match splitAtArrow text with
  | none => .error .missingArrow
  | some (lhs, rhs) => do
    let lhs ← readName (trim lhs)
    return { lhs, alternatives := ← readAlternatives rhs }

/-- The rule of a line, if the line holds one. -/
def readLine (line : List Char) : Except RuleFault (Option Entry) :=
  let text := trim line
  if text.isEmpty || text.head? == some '#' then .ok none
  else (readRule text).map some

def readLines (line : Nat) : List (List Char) → Except GrammarError (List Entry)
  | [] => .ok []
  | text :: rest =>
    match readLine text with
    | .error fault => .error (.malformedRule line fault)
    | .ok none => readLines (line + 1) rest
    | .ok (some entry) => return entry :: (← readLines (line + 1) rest)

/-- The rule entries of a text, in reading order. -/
def readEntries (text : String) : Except GrammarError (List Entry) :=
  readLines 1 (lines text.toList)

end RuleText

/-- The grammar written as rule text, with the first left-hand side as start symbol. -/
def Grammar.ofRuleText (text : String) : Except GrammarError Grammar := do
  Grammar.ofEntries "grammar" none (← RuleText.readEntries text)

end PhraseStructure
