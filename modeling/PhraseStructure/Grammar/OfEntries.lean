import PhraseStructure.Grammar.Basic

/-!
# Grammars from rule entries

The left-hand sides are numbered first, in the order in which they come; a non-terminal is defined
exactly if it is one of them. The alternatives are then read in order, which numbers the words and
finds the first symbol that is out of place. The start symbol and the unary rules are checked last.

Rules with a single non-terminal on the right must not lead back to where they began: a stretch
would then have infinitely many derivations. A depth-first search finds a non-terminal on such a
cycle.
-/

namespace PhraseStructure

namespace UnaryCycle

/-- Searches everything below `nt`, which was reached through the non-terminals of `path`. Fails
with the first non-terminal that is met again on its own path, and else adds to `done`, where no
further search is needed, all that it has left. The path is never longer than `depth` allows if
`depth` exceeds the number of non-terminals. -/
def search (targets : SymbolId → List SymbolId) :
    Nat → List SymbolId → List SymbolId → SymbolId → Except SymbolId (List SymbolId)
  | 0, _, done, _ => .ok done
  | depth + 1, path, done, nt =>
    if nt ∈ done then .ok done
    else if nt ∈ path then .error nt
    else do
      let done ← (targets nt).foldlM (search targets depth (nt :: path)) done
      return nt :: done

/-- Searches below each of `roots`, and gives all non-terminals met, latest first. -/
def searchAll (targets : SymbolId → List SymbolId) (roots : List SymbolId) :
    Except SymbolId (List SymbolId) :=
  roots.foldlM (search targets (roots.length + 1) []) []

end UnaryCycle

namespace Grammar

/-- A non-terminal from which unary rules lead back to it, if there is one. -/
def unaryCycle? (g : Grammar) : Option SymbolId :=
  match UnaryCycle.searchAll g.unaryTargets g.nonTerminalIds with
  | .ok _ => none
  | .error culprit => some culprit

def checkUnaryCycles (g : Grammar) : Except GrammarError Unit :=
  match g.unaryCycle? with
  | none => .ok ()
  | some culprit => .error (.unaryCycle (g.nonTerminalText culprit))

/-- The grammar that knows the left-hand sides of the entries, and no alternative yet. -/
def ofLeftHandSides (name : String) (entries : List Entry) : Grammar :=
  let nonTerminals := (∅ : SymbolTable).internAll (entries.map Entry.lhs)
  { name
    start := 0
    terminals := ∅
    nonTerminals
    rules := Array.replicate nonTerminals.size []
    lexicon := ∅ }

def addAlternative (g : Grammar) (lhs : SymbolId) (alternative : Production) : Grammar :=
  { g with rules := g.rules.modify lhs.toNat (· ++ [alternative]) }

theorem alternatives_addAlternative (g : Grammar) (lhs nt : SymbolId) (alternative : Production) :
    (g.addAlternative lhs alternative).alternatives nt =
      if lhs = nt ∧ lhs.toNat < g.rules.size then g.alternatives nt ++ [alternative]
      else g.alternatives nt := by
  simp only [alternatives, addAlternative, Array.getElem?_modify, ← UInt32.toNat_inj]
  by_cases h : lhs.toNat = nt.toNat <;> by_cases hs : nt.toNat < g.rules.size <;> simp [h, hs]

/-- Adds `lhs` to the categories of a terminal, unless it is one already. -/
def addCategory (g : Grammar) (terminal lhs : SymbolId) : Grammar :=
  if lhs ∈ g.lexicon.get terminal then g
  else { g with lexicon := g.lexicon.append terminal [lhs] }

def addWord (g : Grammar) (lhs : SymbolId) (word : String) : Grammar :=
  let (id, terminals) := g.terminals.intern word
  (addCategory { g with terminals } id lhs).addAlternative lhs [.terminal id]

/-- A symbol of an alternative that is not one word. -/
def resolve (g : Grammar) (lhs : String) : WrittenSymbol → Except GrammarError Symbol
  | .word _ => .error (.mixedAlternative lhs)
  | .name name =>
    match g.nonTerminals.id? name with
    | some id => .ok (.nonTerminal id)
    | none => .error (.undefinedNonTerminal name)

def addWritten (lhs : String) (g : Grammar) (alternative : WrittenAlternative) :
    Except GrammarError Grammar :=
  let id := (g.nonTerminals.id? lhs).getD 0
  match alternative with
  | [.word word] => .ok (g.addWord id word)
  | symbols => do
    let production ← symbols.mapM (g.resolve lhs)
    return g.addAlternative id production

def addEntry (g : Grammar) (entry : Entry) : Except GrammarError Grammar :=
  entry.alternatives.foldlM (addWritten entry.lhs) g

/-- The grammar of a list of rule entries. Without an explicit start symbol it starts from the
first left-hand side. -/
def ofEntries (name : String) (start? : Option String) (entries : List Entry) :
    Except GrammarError Grammar :=
  if entries.isEmpty then .error .empty
  else do
    let g ← entries.foldlM addEntry (ofLeftHandSides name entries)
    let g ← match start? with
      | some start => g.withStart start
      | none => pure g
    g.checkUnaryCycles
    return g

end Grammar

end PhraseStructure
