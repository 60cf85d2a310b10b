/-!
The syntax trees that the extractor sees, reduced to what it looks at. A node is of one of six kinds
and may carry a declared name, a literal text and the name of the type around it. Left out are
places in the source, and all that a parser knows besides.
-/
namespace HandlerIndex

inductive NodeKind where
  | methodDeclaration
  | returnStatement
  | arrayLiteral
  | arrayEntry
  | stringLiteral
  | other
  deriving DecidableEq, Repr

structure NodeLabel where
  kind : NodeKind
  declaredName : Option String := none
  literalText : Option String := none
  enclosingType : Option String := none
  deriving DecidableEq, Repr

inductive SyntaxNode where
  | node (label : NodeLabel) (children : List SyntaxNode)

namespace SyntaxNode

def label : SyntaxNode → NodeLabel
  | node label _ => label

def children : SyntaxNode → List SyntaxNode
  | node _ children => children

@[simp] theorem label_node (label : NodeLabel) (children : List SyntaxNode) :
    (node label children).label = label := rfl

@[simp] theorem children_node (label : NodeLabel) (children : List SyntaxNode) :
    (node label children).children = children := rfl

def kind (tree : SyntaxNode) : NodeKind := tree.label.kind

def declaredName (tree : SyntaxNode) : Option String := tree.label.declaredName

def literalText (tree : SyntaxNode) : Option String := tree.label.literalText

def enclosingType (tree : SyntaxNode) : Option String := tree.label.enclosingType

/-- The key of an array entry: its first child, if it has exactly two. -/
def entryKey? : SyntaxNode → Option SyntaxNode
  | node label [key, _] => if label.kind = .arrayEntry then some key else none
  | _ => none

def entryValue? (tree : SyntaxNode) : Option SyntaxNode :=
  if tree.kind = .arrayEntry then tree.children.getLast? else none

def wrap : Nat → SyntaxNode → SyntaxNode
  | 0, tree => tree
  | depth + 1, tree => wrap depth (node { kind := .other } [tree])

mutual
def size : SyntaxNode → Nat
  | node _ children => 1 + sizeAll children

def sizeAll : List SyntaxNode → Nat
  | [] => 0
  | tree :: rest => size tree + sizeAll rest
end

@[simp] theorem size_all_append (left right : List SyntaxNode) :
    sizeAll (left ++ right) = sizeAll left + sizeAll right := by
  induction left with
  | nil => simp [sizeAll]
  | cons tree rest ih => simp [sizeAll, ih, Nat.add_assoc]

-- A file may be nested deeper than any call stack, so the walk keeps the open trees in a list of
-- its own: the first is visited next, and its children take its place.
/-- Visits the pending trees and everything below them, in pre-order, after those already seen. -/
def walk (pending seen : List SyntaxNode) : List SyntaxNode :=
  match pending with
  | [] => seen.reverse
  | tree :: rest => walk (tree.children ++ rest) (tree :: seen)
termination_by sizeAll pending
decreasing_by
  cases tree with
  | node label children => simp [sizeAll, size]

def descendants (tree : SyntaxNode) : List SyntaxNode := walk tree.children []

end SyntaxNode
end HandlerIndex
