import PhraseStructure.Grammar.Entry
import PhraseStructure.Multimap
import PhraseStructure.SymbolTable

/-!
# Context-free grammars

A grammar keeps the alternatives of each non-terminal in the order in which they were written, so
that all that is derived from it comes in a fixed order. An alternative is a single terminal or a
sequence of non-terminals. The lexicon leads back from a terminal to the non-terminals that have it
as an alternative, its categories.
-/

namespace PhraseStructure

inductive Symbol
  | terminal (id : SymbolId)
  | nonTerminal (id : SymbolId)
  deriving DecidableEq, Repr

/-- One alternative: the right-hand side of one rule. -/
abbrev Production := List Symbol

structure Grammar where
  name : String
  start : SymbolId
  terminals : SymbolTable
  nonTerminals : SymbolTable
  /-- The alternatives of each non-terminal, by its id. -/
  rules : Array (List Production)
  /-- The categories of each terminal. -/
  lexicon : Multimap SymbolId SymbolId

namespace Grammar

variable (g : Grammar)

/-- The alternatives of a non-terminal; an unknown id has none. -/
def alternatives (nt : SymbolId) : List Production := g.rules[nt.toNat]?.getD []

def nonTerminalIds : List SymbolId := (List.range g.rules.size).map UInt32.ofNat

/-- The name of a non-terminal; an id that is in no use is shown as a question mark. -/
def nonTerminalText (nt : SymbolId) : String := (g.nonTerminals.name? nt).getD "?"

/-- The word of a terminal; an id that is in no use is shown as a question mark. -/
def terminalText (t : SymbolId) : String := (g.terminals.name? t).getD "?"

/-- The targets of the alternatives of `nt` that are one non-terminal. -/
def unaryTargets (nt : SymbolId) : List SymbolId :=
  (g.alternatives nt).filterMap fun
    | [.nonTerminal child] => some child
    | _ => none

/-- The id of a non-terminal that has alternatives. -/
def definedId (name : String) : Except GrammarError SymbolId :=
  match g.nonTerminals.id? name with
  | some id => if (g.alternatives id).isEmpty then .error (.unknownStart name) else .ok id
  | none => .error (.unknownStart name)

def withStart (name : String) : Except GrammarError Grammar :=
  (g.definedId name).map fun start => { g with start }

theorem mem_unaryTargets {nt child : SymbolId} :
    child ∈ g.unaryTargets nt ↔ [.nonTerminal child] ∈ g.alternatives nt := by
  simp only [unaryTargets, List.mem_filterMap]
  constructor
  · rintro ⟨alt, h, he⟩
    split at he <;> simp_all
  · exact fun h => ⟨_, h, rfl⟩

theorem withStart_eq_ok {name : String} {g' : Grammar} :
    g.withStart name = .ok g' ↔ ∃ id, g.definedId name = .ok id ∧ g' = { g with start := id } := by
  unfold withStart
  cases g.definedId name <;> simp [Except.map, eq_comm]

end Grammar

end PhraseStructure
