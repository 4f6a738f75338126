import PhraseStructure.ParseTree.Basic

/-!
# Box drawings

A tree is drawn with one line for each label and each word. Below a label hang the drawings of the
trees under it, or its word: the first line of each is joined to the label by a tee, or by a corner
if it is the last, and the lines under a tee are passed by a bar.
-/

namespace PhraseStructure.ParseTree

/-- Hangs a drawing under a label: `first` stands before its first line, `next` before the
others. -/
def hang (first next : String) : List String → List String
  | [] => []
  | line :: lines => (first ++ line) :: lines.map (next ++ ·)

theorem length_hang (first next : String) (lines : List String) :
    (hang first next lines).length = lines.length := by
  cases lines <;> simp [hang]

/-- Hangs the last drawing under a label. -/
def hangLast (drawing : List String) : List String := hang "└─ " "    " drawing

/-- Hangs a drawing under a label at which others follow. -/
def hangNext (drawing : List String) : List String := hang "├─ " "│   " drawing

mutual

/-- The lines of the drawing of a tree. -/
def drawing : ParseTree → List String
  | .leaf label word => label :: hangLast [word]
  | .node label children => label :: drawingAll children

def drawingAll : List ParseTree → List String
  | [] => []
  | [t] => hangLast t.drawing
  | t :: ts => hangNext t.drawing ++ drawingAll ts

end

/-- The drawing of a tree as one text. -/
def drawn (t : ParseTree) : String := "\n".intercalate t.drawing

end PhraseStructure.ParseTree
