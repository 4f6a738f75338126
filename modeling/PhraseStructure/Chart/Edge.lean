import PhraseStructure.Grammar.Basic

/-!
# Edges, ways and partitions

An edge is a stretch of the sentence with a non-terminal from which it is derived. A way of deriving
it is a word, or an alternative of the non-terminal with an edge for each of its symbols. The ways
of one stretch are a cell: each non-terminal that derives the stretch is a key of the cell.

The partitions of a stretch have one edge for each symbol of an alternative. The edges are not
empty, follow each other without gaps, and each is known to be derivable. Partitions come in the
order of their cuts, the first cut first.
-/

namespace PhraseStructure

/-- The tokens from position `start` to position `stop`, that one excluded, as a `category`. -/
structure Edge where
  start : Nat
  stop : Nat
  category : SymbolId
  deriving DecidableEq, Repr

namespace Edge

/-- Edges in the order of their starts, then their stops, then their categories. -/
def order : Edge → Edge → Ordering :=
  compareLex (compareOn start) (compareLex (compareOn stop) (compareOn category))

instance : Std.TransCmp order :=
  inferInstanceAs (Std.TransCmp
    (compareLex (compareOn start) (compareLex (compareOn stop) (compareOn category))))

instance : Std.LawfulEqCmp order where
  compare_self := by simp [order, compareLex, compareOn]
  eq_of_compare {a b} h := by
    simp only [order, compareLex, compareOn, Ordering.then_eq_eq, Std.LawfulEqCmp.compare_eq_iff_eq] at h
    obtain ⟨h₁, h₂, h₃⟩ := h
    cases a
    cases b
    simp_all

def length (e : Edge) : Nat := e.stop - e.start

end Edge

inductive Way
  | word (terminal : SymbolId)
  | split (alternative : Nat) (children : List Edge)
  deriving DecidableEq, Repr

namespace Way

def children : Way → List Edge
  | word _ => []
  | split _ children => children

/-- Whether a way is by the alternative with this index. -/
def isBy (index : Nat) : Way → Bool
  | word _ => false
  | split alternative _ => alternative == index

end Way

/-- The ways of deriving one stretch, for each non-terminal that derives it. -/
abbrev Cell := Multimap SymbolId Way

/-- The partitions of the tokens from `pos` to `stop` for the symbols of an alternative.
`derives s e nt` says whether the tokens from `s` to `e` derive from `nt`. The last edge has to end
at `stop`, and the others leave at least one token for each symbol after them. -/
def partitions (derives : Nat → Nat → SymbolId → Bool) :
    List Symbol → (pos stop : Nat) → List (List Edge)
  | [], pos, stop => if pos = stop then [[]] else []
  | .terminal _ :: _, _, _ => []
  | .nonTerminal nt :: rest, pos, stop =>
    if stop - pos < rest.length + 1 then []
    else
      let first := if rest.isEmpty then stop else pos + 1
      let last := stop - rest.length
      (List.range' first (last + 1 - first)).flatMap fun cut =>
        if derives pos cut nt then
          (partitions derives rest cut stop).map (⟨pos, cut, nt⟩ :: ·)
        else []

@[simp] theorem partitions_nil (derives : Nat → Nat → SymbolId → Bool) (pos : Nat) :
    partitions derives [] pos pos = [[]] := by
  simp [partitions]

end PhraseStructure
