import PhraseStructure.ParseTree.Basic

/-!
# Words and brackets

On one line, a tree is its words with spaces between them, or, in its bracketed form, its label and
what is below it in brackets: `(S (NP (N holmes)) (VP (V sat)))`.
-/

namespace PhraseStructure.ParseTree

mutual

/-- The words of a tree, from left to right. -/
def words : ParseTree → List String
  | .leaf _ word => [word]
  | .node _ children => wordsAll children

def wordsAll : List ParseTree → List String
  | [] => []
  | t :: ts => t.words ++ wordsAll ts

end

/-- The words of a tree with single spaces between them. -/
def text (t : ParseTree) : String := " ".intercalate t.words

theorem wordsAll_eq_flatMap (ts : List ParseTree) : wordsAll ts = ts.flatMap words := by
  induction ts <;> simp_all [wordsAll]

@[simp] theorem words_leaf (label word : String) : (leaf label word).words = [word] := rfl

@[simp] theorem words_node (label : String) (ts : List ParseTree) :
    (node label ts).words = ts.flatMap words := wordsAll_eq_flatMap ts

mutual

def bracketed : ParseTree → String
  | .leaf label word => "(" ++ label ++ " " ++ word ++ ")"
  | .node label children => "(" ++ label ++ " " ++ " ".intercalate (bracketedAll children) ++ ")"

def bracketedAll : List ParseTree → List String
  | [] => []
  | t :: ts => t.bracketed :: bracketedAll ts

end

theorem bracketedAll_eq_map (ts : List ParseTree) : bracketedAll ts = ts.map bracketed := by
  induction ts <;> simp_all [bracketedAll]

end PhraseStructure.ParseTree
