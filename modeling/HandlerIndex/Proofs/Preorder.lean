import HandlerIndex.SyntaxNode

/-!
The nodes that the extractor visits, by recursion over the tree: a node comes before its children,
and each child's nodes come before those of the next child. The walk that keeps its open trees in a
list visits them in this order. Left out is how deep a call stack may grow; the walk uses none.
-/
namespace HandlerIndex.SyntaxNode

mutual

def preorder : SyntaxNode → List SyntaxNode
  | node label children => node label children :: preorderAll children

def preorderAll : List SyntaxNode → List SyntaxNode
  | [] => []
  | tree :: rest => preorder tree ++ preorderAll rest

end

def strictlyBelow (tree : SyntaxNode) : List SyntaxNode := preorderAll tree.children

@[simp] theorem preorder_eq_cons (tree : SyntaxNode) :
    preorder tree = tree :: strictlyBelow tree := by
  cases tree with
  | node label children => rfl

@[simp] theorem preorder_all_append (left right : List SyntaxNode) :
    preorderAll (left ++ right) = preorderAll left ++ preorderAll right := by
  induction left with
  | nil => simp [preorderAll]
  | cons tree rest ih => simp [preorderAll, ih]

-- The trees still pending are the ones to come; those seen so far are held in reverse.
theorem walk_eq_preorder_all (pending seen : List SyntaxNode) :
    walk pending seen = seen.reverse ++ preorderAll pending := by
  fun_induction walk pending seen with
  | case1 seen => simp [preorderAll]
  | case2 seen tree rest ih =>
    simp [ih, preorderAll, strictlyBelow]

@[simp] theorem descendants_eq_strictly_below (tree : SyntaxNode) :
    tree.descendants = strictlyBelow tree := by
  rw [descendants, walk_eq_preorder_all, strictlyBelow]
  simp

end HandlerIndex.SyntaxNode
