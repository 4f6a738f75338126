import PhraseStructure.Chart.Closure

/-!
# Charts

The chart of a sentence has, for each stretch of its tokens, every way of deriving the stretch from
every non-terminal. It is built row by row: a row holds the cells of all stretches of one length,
and needs only the rows of shorter stretches. Stretches of one token derive by their lexical rules,
longer ones by branching rules, and both then by unary rules.
-/

namespace PhraseStructure

/-- The cells of all stretches, by their length less one, then by their start. -/
abbrev Rows := Array (Array Cell)

def Rows.cell (rows : Rows) (start stop : Nat) : Cell :=
  if start < stop then (rows[stop - start - 1]?.bind (·[start]?)).getD ∅ else ∅

structure UnknownWord where
  word : String
  position : Nat
  deriving DecidableEq, Repr

def UnknownWord.message (u : UnknownWord) : String :=
  "grammar does not cover the word '" ++ u.word ++ "' (position " ++ u.position.repr ++ ")"

/-- The terminals of the tokens from number `position` on, or the first token that is none. -/
def Grammar.terminalsOf (g : Grammar) (position : Nat) :
    List String → Except UnknownWord (List SymbolId)
  | [] => .ok []
  | word :: rest =>
    match g.terminals.id? word with
    | none => .error ⟨word, position⟩
    | some id => return id :: (← g.terminalsOf (position + 1) rest)

structure Chart where
  grammar : Grammar
  tokens : List SymbolId
  rows : Rows

namespace Chart

def lexicalCell (g : Grammar) (tokens : List SymbolId) (position : Nat) : Cell :=
  match tokens[position]? with
  | none => ∅
  | some t => (g.lexicon.get t).foldl (fun cell nt => cell.append nt [.word t]) ∅

/-- Adds the ways of one branching rule to the cell of the tokens from `start` to `stop`. -/
def applyBranching (shorter : Rows) (start stop : Nat) (cell : Cell) (rule : BranchingRule) :
    Cell :=
  let derives s e nt := (shorter.cell s e).hasKey nt
  match partitions derives rule.symbols start stop with
  | [] => cell
  | found => cell.append rule.lhs (found.map (.split rule.index))

/-- The cell of several tokens, before its unary closure. -/
def branchingCell (rules : List BranchingRule) (shorter : Rows) (start stop : Nat) : Cell :=
  rules.foldl (applyBranching shorter start stop) ∅

/-- The row after the rows of all shorter stretches. -/
def nextRow (g : Grammar) (tokens : List SymbolId) (unary : List UnaryRule)
    (branching : List BranchingRule) (shorter : Rows) : Array Cell :=
  (Array.range (tokens.length - shorter.size)).map fun start =>
    let stop := start + shorter.size + 1
    let cell :=
      if shorter.isEmpty then lexicalCell g tokens start
      else branchingCell branching shorter start stop
    cell.close unary start stop

/-- The rows of all stretches of up to `n` tokens. -/
def firstRows (g : Grammar) (tokens : List SymbolId) (unary : List UnaryRule)
    (branching : List BranchingRule) : Nat → Rows
  | 0 => #[]
  | n + 1 =>
    let shorter := firstRows g tokens unary branching n
    shorter.push (nextRow g tokens unary branching shorter)

@[simp] theorem size_nextRow (g : Grammar) (tokens : List SymbolId) (unary : List UnaryRule)
    (branching : List BranchingRule) (shorter : Rows) :
    (nextRow g tokens unary branching shorter).size = tokens.length - shorter.size := by
  simp [nextRow]

@[simp] theorem size_firstRows (g : Grammar) (tokens : List SymbolId) (unary : List UnaryRule)
    (branching : List BranchingRule) (n : Nat) :
    (firstRows g tokens unary branching n).size = n := by
  induction n with
  | zero => rfl
  | succ n ih => rw [firstRows, Array.size_push, ih]

/-- A row, once built, is not changed by the rows after it. -/
theorem getElem?_firstRows (g : Grammar) (tokens : List SymbolId) (unary : List UnaryRule)
    (branching : List BranchingRule) {n k : Nat} (h : k < n) :
    (firstRows g tokens unary branching n)[k]? =
      some (nextRow g tokens unary branching (firstRows g tokens unary branching k)) := by
  induction n with
  | zero => exact absurd h (Nat.not_lt_zero k)
  | succ n ih =>
    rw [firstRows, Array.getElem?_push, size_firstRows]
    rcases Nat.lt_succ_iff_lt_or_eq.mp h with hk | rfl
    · rw [if_neg (Nat.ne_of_lt hk), ih hk]
    · rw [if_pos rfl]

/-- The chart of a list of terminals. -/
def ofTerminals (g : Grammar) (tokens : List SymbolId) : Chart :=
  { grammar := g
    tokens
    rows := firstRows g tokens g.unaryRules g.branchingRules tokens.length }

/-- The chart of a sentence, unless it has an unknown word. -/
def ofTokens (g : Grammar) (tokens : List String) : Except UnknownWord Chart :=
  (g.terminalsOf 0 tokens).map (ofTerminals g)

variable (c : Chart)

def length : Nat := c.tokens.length

def isEmpty : Bool := c.tokens.isEmpty

def cell (start stop : Nat) : Cell := c.rows.cell start stop

/-- The ways of deriving the tokens from `start` to `stop` from `nt`, in the order in which they
were recorded. -/
def ways (start stop : Nat) (nt : SymbolId) : List Way := (c.cell start stop).get nt

def waysOf (e : Edge) : List Way := c.ways e.start e.stop e.category

/-- The edge of the whole sentence as `nt`, if it is derivable. -/
def root? (nt : SymbolId) : Option Edge :=
  let e : Edge := ⟨0, c.length, nt⟩
  if (c.waysOf e).isEmpty then none else some e

def isParseable (nt : SymbolId) : Bool := (c.root? nt).isSome

/-- The number of non-terminals of all cells together. -/
def cellCount : Nat :=
  c.rows.foldl (fun n row => n + row.foldl (fun n cell => n + cell.size) 0) 0

/-- The number of ways of all cells together. -/
def wayCount : Nat :=
  c.rows.foldl (fun n row => n + row.foldl (fun n cell => n + cell.total) 0) 0

/-- A bound on the depth of the trees of the chart: along a path, each stretch has each non-terminal
at most once. -/
def height : Nat := c.length * c.grammar.nonTerminals.size

end Chart

end PhraseStructure
