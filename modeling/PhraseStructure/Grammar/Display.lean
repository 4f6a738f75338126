import PhraseStructure.Grammar.Basic

/-!
# What a grammar shows

A grammar tells which words it knows and of which categories they are, and is written as rule text.
There each non-terminal has one line with all its alternatives. The start symbol comes first, so
that the text, read again, starts from it; the others follow in the order of their ids.
-/

namespace PhraseStructure

namespace Grammar

variable (g : Grammar)

/-- The words that are alternatives of a non-terminal, in the order of its alternatives. -/
def wordsOf (nt : SymbolId) : List String :=
  (g.alternatives nt).filterMap fun
    | [.terminal t] => g.terminals.name? t
    | _ => none

/-- The non-terminals that have a word as an alternative. -/
def categories (word : String) : List SymbolId :=
  match g.terminals.id? word with
  | some t => g.lexicon.get t
  | none => []

def knowsWord (word : String) : Bool := !(g.categories word).isEmpty

def startName? : Option String := g.nonTerminals.name? g.start

def productionCount : Nat := g.rules.foldl (fun n alternatives => n + alternatives.length) 0

/-- A non-terminal by its name, a word in quotes. -/
def symbolText : Symbol → String
  | .terminal t => "\"" ++ g.terminalText t ++ "\""
  | .nonTerminal nt => g.nonTerminalText nt

def alternativeText (alternative : Production) : String :=
  " ".intercalate (alternative.map g.symbolText)

/-- The line of one non-terminal, without its end. -/
def ruleLine (nt : SymbolId) : String :=
  g.nonTerminalText nt ++ " -> " ++
    " | ".intercalate ((g.alternatives nt).map g.alternativeText)

def displayOrder : List SymbolId :=
  g.start :: g.nonTerminalIds.filter (· != g.start)

def ruleText : String :=
  String.join (g.displayOrder.map fun nt => g.ruleLine nt ++ "\n")

theorem mem_wordsOf {g : Grammar} {nt : SymbolId} {word : String} :
    word ∈ g.wordsOf nt ↔
      ∃ t, [.terminal t] ∈ g.alternatives nt ∧ g.terminals.name? t = some word := by
  unfold wordsOf
  rw [List.mem_filterMap]
  constructor
  · intro h
    obtain ⟨p, hp, hword⟩ := h
    split at hword
    · exact ⟨_, hp, hword⟩
    · cases hword
  · rintro ⟨t, ht, hword⟩
    exact ⟨[.terminal t], ht, hword⟩

end Grammar

end PhraseStructure
