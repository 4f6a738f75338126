/-!
# Classes of characters, blanks and lines

A class of characters is a list of closed intervals of code points, the form in which character
properties are published. Membership reads the list from the left. A line ends at a line feed, and a
carriage return right before that line feed belongs to the end. What follows the last line feed is a
line too, unless it is empty.
-/

namespace PhraseStructure.Text

/-- The code points from `first` to `last`, both included. -/
structure CodeRange where
  first : Nat
  last : Nat
  deriving DecidableEq, Repr

abbrev CharClass := List CodeRange

namespace CharClass

def contains (k : CharClass) (c : Char) : Bool :=
  k.any fun r => r.first ≤ c.toNat && c.toNat ≤ r.last

theorem contains_iff {k : CharClass} {c : Char} :
    k.contains c = true ↔ ∃ r ∈ k, r.first ≤ c.toNat ∧ c.toNat ≤ r.last := by
  simp [contains]

end CharClass

/-- The characters with the property White_Space. -/
def blankClass : CharClass :=
  [⟨0x9, 0xD⟩, ⟨0x20, 0x20⟩, ⟨0x85, 0x85⟩, ⟨0xA0, 0xA0⟩, ⟨0x1680, 0x1680⟩, ⟨0x2000, 0x200A⟩,
   ⟨0x2028, 0x2029⟩, ⟨0x202F, 0x202F⟩, ⟨0x205F, 0x205F⟩, ⟨0x3000, 0x3000⟩]

def isBlank (c : Char) : Bool := blankClass.contains c

/-- The text without the blanks at its two ends. -/
def trim (text : List Char) : List Char :=
  ((text.dropWhile isBlank).reverse.dropWhile isBlank).reverse

/-- The text read so far, backwards, without a carriage return at its end. -/
def dropReturn : List Char → List Char
  | '\r' :: line => line
  | line => line

/-- The lines of a text, of which `line` has been read, backwards. -/
def linesAfter (line : List Char) : List Char → List (List Char)
  | [] => if line.isEmpty then [] else [line.reverse]
  | '\n' :: text => (dropReturn line).reverse :: linesAfter [] text
  | c :: text => linesAfter (c :: line) text

def lines (text : List Char) : List (List Char) := linesAfter [] text

end PhraseStructure.Text
