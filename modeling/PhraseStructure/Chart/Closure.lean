import PhraseStructure.Chart.Edge

/-!
# Rules by shape, and the unary closure

For charting, the alternatives of a grammar are sorted by their shape: unary rules have one
non-terminal, lexical rules one terminal, and all others branch. Within one stretch, a unary rule
makes its left-hand side derivable as soon as its child is. The rules are applied in passes until a
pass adds nothing, and each rule is recorded once.
-/

namespace PhraseStructure

/-- The alternative `index` of `lhs`, if it is the one non-terminal `child`. -/
structure UnaryRule where
  lhs : SymbolId
  index : Nat
  child : SymbolId
  deriving DecidableEq, Repr

/-- The alternative `index` of `lhs`, if it is neither unary nor lexical. -/
structure BranchingRule where
  lhs : SymbolId
  index : Nat
  symbols : Production
  deriving DecidableEq, Repr

namespace Grammar

variable (g : Grammar)

/-- All alternatives with their left-hand sides and indices, by left-hand side, then by index. -/
def numbered : List (SymbolId × Nat × Production) :=
  g.nonTerminals.toList.flatMap fun (lhs, _) =>
    (g.alternatives lhs).zipIdx.map fun (symbols, index) => (lhs, index, symbols)

def unaryRules : List UnaryRule :=
  g.numbered.filterMap fun
    | (lhs, index, [.nonTerminal child]) => some ⟨lhs, index, child⟩
    | _ => none

def branchingRules : List BranchingRule :=
  g.numbered.filterMap fun
    | (_, _, [_]) => none
    | (lhs, index, symbols) => some ⟨lhs, index, symbols⟩

end Grammar

namespace Cell

/-- Records a unary rule if its child is there and the rule is not recorded yet. The second part
says whether anything has been added so far. -/
def applyUnary (start stop : Nat) (state : Cell × Bool) (rule : UnaryRule) : Cell × Bool :=
  if state.1.hasKey rule.child && !(state.1.get rule.lhs).any (·.isBy rule.index) then
    (state.1.append rule.lhs [.split rule.index [⟨start, stop, rule.child⟩]], true)
  else state

def unaryPass (rules : List UnaryRule) (start stop : Nat) (cell : Cell) : Cell × Bool :=
  rules.foldl (applyUnary start stop) (cell, false)

/-- Passes over the unary rules until one adds nothing, but no more than `passes`. -/
def closeWithin (rules : List UnaryRule) (start stop : Nat) : Nat → Cell → Cell
  | 0, cell => cell
  | passes + 1, cell =>
    let next := unaryPass rules start stop cell
    if next.2 then closeWithin rules start stop passes next.1 else next.1

/-- The unary closure of a cell. Each pass but the last records a rule that was not recorded, so
that one pass more than there are rules is enough. -/
def close (rules : List UnaryRule) (start stop : Nat) (cell : Cell) : Cell :=
  closeWithin rules start stop (rules.length + 1) cell

end Cell

end PhraseStructure
