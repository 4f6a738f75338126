import PhraseStructure.Grammar.RuleText
import PhraseStructure.Json.Skip
import Std.Data.TreeMap

/-!
# Grammar documents and files

A grammar may be written as a JSON document, an object with the members `rules`, `name` and `start`,
of which the last two may be missing or null. `rules` has a member for each left-hand side, with the
array of its alternatives, each an array of symbols; a word stands in quotes inside its string. The
document may also be the array of name, start and rules. Unknown members are read past. The
left-hand sides are taken in the order of their code points.

A file with the ending `json` holds a grammar document, any other file rule text. A grammar that is
not given a name takes that of its file.
-/

namespace PhraseStructure

namespace Document

open Json

/-- The alternatives of each left-hand side, as they stand in the document. -/
abbrev Rules := Std.TreeMap String (List (List String))

/-- The members of a document that have been read. A member that is null has been read too. -/
structure Members where
  name : Option (Option String) := none
  start : Option (Option String) := none
  rules : Option Rules := none

end Document

structure Document where
  name : Option String
  start : Option String
  rules : Document.Rules

namespace Document

open Json

def readRules : Reader Rules :=
  object (fun rules lhs text => do
    let (alternatives, rest) ← behindColon (array (array string)) text
    return (rules.insert lhs alternatives, rest)) ∅

/-- One member of the document. A member that has been read before is refused at its key. -/
def readMember (m : Members) (key : String) : Reader Members := fun text =>
  if key = "name" then
    if m.name.isSome then .error .mistyped
    else do
      let (name, rest) ← behindColon string? text
      return ({ m with name := some name }, rest)
  else if key = "start" then
    if m.start.isSome then .error .mistyped
    else do
      let (start, rest) ← behindColon string? text
      return ({ m with start := some start }, rest)
  else if key = "rules" then
    if m.rules.isSome then .error .mistyped
    else do
      let (rules, rest) ← behindColon readRules text
      return ({ m with rules := some rules }, rest)
  else do
    let (_, rest) ← behindColon skipValue text
    return (m, rest)

/-- The document of an object, read behind its bracket. -/
def readObject : Reader Document := fun text => do
  let (m, rest) ← members readMember {} true text
  match m.rules with
  | none => .error .mistyped
  | some rules => do
    let (_, last) ← objectEnd rest.1
    return (⟨m.name.join, m.start.join, rules⟩, rest.next last)

/-- The next element of the document as an array, unless the array ends here. -/
def readElement {α : Type} (element : Reader α) (first : Bool) (text : List Char) :
    Except Fault (Option α × Suffix text) := do
  match ← nextElement element first text with
  | none => return (none, Suffix.all text)
  | some (a, rest) => return (some a, rest.toSuffix)

/-- The document of an array, read behind its bracket. -/
def readArray : Reader Document := fun text => do
  let (name, rest₁) ← readElement string? true text
  let (start, rest₂) ← readElement string? name.isNone rest₁.1
  let (rules, rest₃) ← readElement readRules (name.isNone && start.isNone) rest₂.1
  match rules with
  | none => .error .mistyped
  | some rules => do
    let (_, rest₄) ← arrayEnd rest₃.1
    return (⟨name.join, start.join, rules⟩, rest₁.next (rest₂.next (rest₃.next rest₄)))

def readDocument : Reader Document := spaced fun
  | '\x7b' :: rest => do
    let (d, last) ← readObject rest
    return (d, last.afterFirst)
  | '[' :: rest => do
    let (d, last) ← readArray rest
    return (d, last.afterFirst)
  | text => .error (wrongType text)

/-- The document that a text holds, with nothing but white space behind it. -/
def ofText (text : String) : Except Fault Document := do
  let (d, rest) ← readDocument text.toList
  if (skipSpace rest.1).1.isEmpty then .ok d else .error .malformed

/-- The word that stands in quotes, if the text is quoted. -/
def quoted? : List Char → Option (List Char)
  | '"' :: rest => if rest.getLast? = some '"' then some rest.dropLast else none
  | _ => none

def readSymbol (text : String) : Except RuleFault WrittenSymbol :=
  match quoted? text.toList with
  | some [] => .error .emptyLiteral
  | some word => .ok (.word (String.ofList word))
  | none => (readName text.toList).map .name

def readAlternative (lhs : String) (alternative : List String) :
    Except RuleFault WrittenAlternative :=
  if alternative.isEmpty then .error (.emptyAlternativeOf lhs) else alternative.mapM readSymbol

def readEntry (lhs : String) (alternatives : List (List String)) : Except RuleFault Entry := do
  let lhs ← readName lhs.toList
  return { lhs, alternatives := ← alternatives.mapM (readAlternative lhs) }

/-- The rule entries of a document. They have no lines. -/
def entries (d : Document) : Except GrammarError (List Entry) :=
  (d.rules.toList.mapM fun (lhs, alternatives) => readEntry lhs alternatives).mapError
    (.malformedRule 0)

end Document

def Grammar.ofDocument (d : Document) : Except GrammarError Grammar := do
  Grammar.ofEntries (d.name.getD "grammar") d.start (← d.entries)

def Grammar.ofJson (text : String) : Except GrammarError Grammar := do
  Grammar.ofDocument (← (Document.ofText text).mapError .invalidDocument)

namespace Grammar

/-- Replaces the name that unnamed grammars have by that of their file. -/
def namedAfter (path : String) (g : Grammar) : Grammar :=
  if g.name = "grammar" then { g with name := (Path.stem? path).getD g.name } else g

def ofFileText (path text : String) : Except GrammarError Grammar :=
  (if Path.extension? path = some "json" then ofJson text else ofRuleText text).map
    (namedAfter path)

def ofFile (read : Reading) (path : String) : Except GrammarError Grammar :=
  match read.text path with
  | .error cause => .error (.unreadable path cause)
  | .ok text => ofFileText path text

end Grammar

end PhraseStructure
