import PhraseStructure.Chart.Cursor
import Std.Data.TreeMap

/-!
# Counting and pulling derivations

The number of derivations of an edge is the sum over its ways of the product over their children. It
is found without enumerating them: each edge is counted once and then looked up. Counts stop at the
largest value of a word of 128 bits.

The derivations of a sentence are pulled one at a time. Nothing is kept between two pulls but the
cursor at the derivation that was pulled last.
-/

namespace PhraseStructure

def countLimit : Nat := Nat.pow 2 128 - 1

def cappedAdd (m n : Nat) : Nat := min (m + n) countLimit

def cappedMul (m n : Nat) : Nat := min (m * n) countLimit

namespace Chart

variable (c : Chart)

/-- The edges that have been counted, with their counts. -/
abbrev Memo := Std.TreeMap Edge Nat Edge.order

/-- Counts the derivations of an edge, and keeps the count of each edge below it. -/
def countFrom : (height : Nat) → Edge → Memo → Nat × Memo
  | 0, _, memo => (0, memo)
  | height + 1, e, memo =>
    match memo[e]? with
    | some count => (count, memo)
    | none =>
      let (total, memo) := (c.waysOf e).foldl
        (fun (total, memo) way =>
          let (product, memo) := way.children.foldl
            (fun (product, memo) child =>
              let (count, memo) := countFrom height child memo
              (cappedMul product count, memo))
            (1, memo)
          (cappedAdd total product, memo))
        (0, memo)
      (total, memo.insert e total)

/-- The number of derivations of the whole sentence from `nt`, or `countLimit` if there are more. -/
def derivationCount (nt : SymbolId) : Nat :=
  match c.root? nt with
  | none => 0
  | some e => (c.countFrom c.height e ∅).1

end Chart

structure Derivations where
  chart : Chart
  /-- The cursor at the last derivation pulled, or at the first one if none has been pulled. There
  is none once a pull has found nothing. -/
  cursor : Option Cursor
  started : Bool

/-- The derivations of the whole sentence from `nt`. -/
def Chart.derivations (c : Chart) (nt : SymbolId) : Derivations :=
  { chart := c
    cursor := (c.root? nt).map (Cursor.first c c.height)
    started := false }

namespace Derivations

/-- Whether there is no derivation, or a pull has found no further one. -/
def isEmpty (d : Derivations) : Bool := d.cursor.isNone

def next (d : Derivations) : Option ParseTree × Derivations :=
  match d.cursor with
  | none => (none, d)
  | some cursor =>
    match if d.started then cursor.next? d.chart else some cursor with
    | none => (none, { d with cursor := none })
    | some cursor => (some (cursor.tree d.chart), { d with cursor := some cursor, started := true })

/-- Pulls up to `n` trees, and stops at the first pull that finds none. -/
def take (d : Derivations) : Nat → List ParseTree × Derivations
  | 0 => ([], d)
  | n + 1 =>
    match d.next with
    | (none, d) => ([], d)
    | (some t, d) =>
      let (ts, d) := d.take n
      (t :: ts, d)

theorem next_of_isEmpty {d : Derivations} (h : d.isEmpty = true) : d.next = (none, d) := by
  have : d.cursor = none := Option.isNone_iff_eq_none.mp h
  simp [next, this]

end Derivations

inductive ParseError
  | unknownWord (u : UnknownWord)
  | unknownStart (name : String)
  deriving DecidableEq, Repr

def ParseError.message : ParseError → String
  | unknownWord u => u.message
  | unknownStart name => "start symbol '" ++ name ++ "' is not defined"

/-- The derivations of a sentence from the non-terminal named `start`. -/
def Grammar.parse (g : Grammar) (start : String) (tokens : List String) :
    Except ParseError Derivations :=
  match g.nonTerminals.id? start with
  | none => .error (.unknownStart start)
  | some nt => ((Chart.ofTokens g tokens).mapError .unknownWord).map (·.derivations nt)

end PhraseStructure
