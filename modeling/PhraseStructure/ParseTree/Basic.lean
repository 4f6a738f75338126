/-!
# Parse trees

A parse tree is a label over a word, or a label over trees. Functions on trees come in pairs, one
for a tree and one for a list of trees; the lemmas with `All` in their names restate the second by
the operations of lists.
-/

namespace PhraseStructure

inductive ParseTree
  | leaf (label word : String)
  | node (label : String) (children : List ParseTree)
  deriving Inhabited, Repr

namespace ParseTree

/-- Induction over trees, with the hypothesis for all children of a node. -/
@[elab_as_elim, induction_eliminator]
theorem induction {motive : ParseTree → Prop} (leaf : ∀ label word, motive (.leaf label word))
    (node : ∀ label children, (∀ t ∈ children, motive t) → motive (.node label children))
    (t : ParseTree) : motive t :=
  ParseTree.rec (motive_1 := motive) (motive_2 := fun ts => ∀ t ∈ ts, motive t) leaf node
    (fun _ h => absurd h (List.not_mem_nil))
    (fun _ _ ht hts s hs => (List.mem_cons.mp hs).elim (fun e => e ▸ ht) (hts s)) t

mutual

def decEq : (s t : ParseTree) → Decidable (s = t)
  | .leaf a v, .leaf b w =>
    if h : a = b ∧ v = w then isTrue (by rw [h.1, h.2])
    else isFalse fun e => h (ParseTree.leaf.inj e)
  | .leaf _ _, .node _ _ => isFalse nofun
  | .node _ _, .leaf _ _ => isFalse nofun
  | .node a ss, .node b ts =>
    if h : a = b then
      match decEqAll ss ts with
      | isTrue h' => isTrue (by rw [h, h'])
      | isFalse h' => isFalse fun e => h' (ParseTree.node.inj e).2
    else isFalse fun e => h (ParseTree.node.inj e).1

def decEqAll : (ss ts : List ParseTree) → Decidable (ss = ts)
  | [], [] => isTrue rfl
  | [], _ :: _ => isFalse nofun
  | _ :: _, [] => isFalse nofun
  | s :: ss, t :: ts =>
    match decEq s t with
    | isTrue h =>
      match decEqAll ss ts with
      | isTrue h' => isTrue (by rw [h, h'])
      | isFalse h' => isFalse fun e => h' (List.cons.inj e).2
    | isFalse h => isFalse fun e => h (List.cons.inj e).1

end

instance : DecidableEq ParseTree := decEq

def label : ParseTree → String
  | .leaf label _ => label
  | .node label _ => label

def isLeaf : ParseTree → Bool
  | .leaf _ _ => true
  | .node _ _ => false

def word? : ParseTree → Option String
  | .leaf _ word => some word
  | .node _ _ => none

/-- The trees right below the root; a leaf has none. -/
def children : ParseTree → List ParseTree
  | .leaf _ _ => []
  | .node _ children => children

mutual

/-- The number of labels on the longest path from the root down. -/
def depth : ParseTree → Nat
  | .leaf _ _ => 1
  | .node _ children => 1 + depthAll children

def depthAll : List ParseTree → Nat
  | [] => 0
  | t :: ts => max t.depth (depthAll ts)

end

mutual

/-- The subtrees of a tree, itself included, each before those below it. -/
def subtrees : ParseTree → List ParseTree
  | .leaf label word => [.leaf label word]
  | .node label children => .node label children :: subtreesAll children

def subtreesAll : List ParseTree → List ParseTree
  | [] => []
  | t :: ts => t.subtrees ++ subtreesAll ts

end

theorem subtreesAll_eq_flatMap (ts : List ParseTree) : subtreesAll ts = ts.flatMap subtrees := by
  induction ts <;> simp_all [subtreesAll]

theorem depthAll_le_iff {ts : List ParseTree} {n : Nat} :
    depthAll ts ≤ n ↔ ∀ t ∈ ts, t.depth ≤ n := by
  induction ts with
  | nil => simp [depthAll]
  | cons t ts ih => rw [depthAll, Nat.max_le, ih, List.forall_mem_cons]

end ParseTree

end PhraseStructure
