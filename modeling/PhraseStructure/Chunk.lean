import PhraseStructure.ParseTree.Basic

/-!
# Chunks

A chunk of a tree is a subtree that carries a label and has no other subtree below it that does.
The chunks labelled `NP` are the smallest noun phrases of a sentence.
-/

namespace PhraseStructure.ParseTree

mutual

/-- The chunks of a tree with a label, from left to right. -/
def chunks (label : String) : ParseTree → List ParseTree
  | .leaf l word => if l = label then [.leaf l word] else []
  | .node l children =>
    let below := chunksAll label children
    if l = label && below.isEmpty then [.node l children] else below

def chunksAll (label : String) : List ParseTree → List ParseTree
  | [] => []
  | t :: ts => t.chunks label ++ chunksAll label ts

end

mutual

def hasLabel (label : String) : ParseTree → Bool
  | .leaf l _ => l == label
  | .node l children => l == label || hasLabelAny label children

def hasLabelAny (label : String) : List ParseTree → Bool
  | [] => false
  | t :: ts => t.hasLabel label || hasLabelAny label ts

end

def nounPhrase : String := "NP"

def nounPhrases (t : ParseTree) : List ParseTree := t.chunks nounPhrase

theorem chunksAll_eq_flatMap (label : String) (ts : List ParseTree) :
    chunksAll label ts = ts.flatMap (chunks label) := by
  induction ts <;> simp_all [chunksAll]

theorem hasLabelAny_eq_any (label : String) (ts : List ParseTree) :
    hasLabelAny label ts = ts.any (hasLabel label) := by
  induction ts <;> simp_all [hasLabelAny]

end PhraseStructure.ParseTree
