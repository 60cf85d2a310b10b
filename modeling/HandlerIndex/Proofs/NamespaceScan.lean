import HandlerIndex.Php.Reader
import HandlerIndex.Proofs.Places

/-!
The namespaces of the node adapter, from left to right. Read in this way, a file has a current
namespace at each of its statements: a namespace without a block sets it, and a namespace with a
block leaves none behind. Inside a block it is the block's own. The namespace that is found by
climbing from a type and searching backwards is the one that was current there. Left out are imports
and aliases, which the adapter does not follow.
-/
namespace HandlerIndex.Php

def namespaceAfter (current : Option String) (statement : Tree) : Option String :=
  match statement.construct with
  | .namespaceStatement name => name
  | .namespaceBlock _ => none
  | _ => current

def namespaceInside (current : Option String) (parent : Construct) (before : List Tree) :
    Option String :=
  match parent with
  | .file => before.foldl namespaceAfter none
  | .namespaceBlock name | .namespaceStatement name => name
  | _ => current

namespace Tree

def nodeAt? : List Nat → Tree → Option Tree
  | [], tree => some tree
  | number :: rest, tree => tree.children[number]?.bind (nodeAt? rest)

def namespaceBelow (current : Option String) : List Nat → Tree → Option String
  | [], _ => current
  | number :: rest, tree =>
    match tree.children[number]? with
    | some child =>
      namespaceBelow (namespaceInside current tree.construct (tree.children.take number)) rest child
    | none => none

def framesBelow (path : List Frame) : List Nat → Tree → List Frame
  | [], _ => path
  | number :: rest, tree =>
    match tree.children[number]? with
    | some child =>
      framesBelow (⟨tree.construct, (tree.children.take number).reverse⟩ :: path) rest child
    | none => []

end Tree

def currentNamespace (statements : List Tree) (place : List Nat) : Option String :=
  (Tree.node .file statements).namespaceBelow none place

/-! Searching backwards and passing from left to right. -/

@[simp] theorem preceding_namespace_cons (tree : Tree) (earlier : List Tree) :
    precedingNamespace (tree :: earlier) = namespaceAfter (precedingNamespace earlier) tree := by
  cases found : tree.construct <;> simp only [precedingNamespace, namespaceAfter, found]

theorem preceding_namespace_reverse (statements : List Tree) :
    precedingNamespace statements.reverse = statements.foldl namespaceAfter none := by
  rw [← List.foldr_reverse]
  induction statements.reverse with
  | nil => rfl
  | cons last earlier ih => rw [preceding_namespace_cons, List.foldr_cons, ih]

theorem namespace_at_child (parent : Construct) (before : List Tree) (path : List Frame) :
    namespaceAt (⟨parent, before.reverse⟩ :: path) =
      namespaceInside (namespaceAt path) parent before := by
  cases parent with
  | file => exact preceding_namespace_reverse before
  | _ => rfl

/-- Climbing from the end of a way finds what was current there. -/
theorem namespace_at_frames (place : List Nat) (tree : Tree) (path : List Frame)
    (there : tree.nodeAt? place ≠ none) :
    namespaceAt (tree.framesBelow path place) = tree.namespaceBelow (namespaceAt path) place := by
  induction place generalizing tree path with
  | nil => rfl
  | cons number rest ih =>
    rw [Tree.nodeAt?] at there
    rw [Tree.framesBelow, Tree.namespaceBelow]
    cases found : tree.children[number]? with
    | none => rw [found] at there; exact absurd rfl there
    | some child =>
      rw [found] at there
      rw [← namespace_at_child]
      exact ih child _ there

/-! Labels at their places. -/

theorem labelled_all_eq (parent : Construct) (path : List Frame) (preceding : List Tree)
    (done : List SyntaxNode) (trees : List Tree) :
    labelledAll parent path preceding done trees = done.reverse ++ trees.mapIdx fun number tree =>
      tree.labelled (⟨parent, (trees.take number).reverse ++ preceding⟩ :: path) := by
  induction trees generalizing preceding done with
  | nil => rw [labelledAll, List.mapIdx_nil, List.append_nil]
  | cons tree rest ih =>
    rw [labelledAll, ih, List.mapIdx_cons]
    simp

theorem labelled_children (tree : Tree) (path : List Frame) (number : Nat) :
    (tree.labelled path).children[number]? = tree.children[number]?.map fun child =>
      child.labelled (⟨tree.construct, (tree.children.take number).reverse⟩ :: path) := by
  cases tree with
  | node construct children =>
    have all := labelled_all_eq construct path [] [] children
    rw [Tree.labelled, SyntaxNode.children_node, all]
    simp [Tree.children, Tree.construct]

theorem labelled_at (place : List Nat) (tree : Tree) (path : List Frame) :
    (tree.labelled path).nodeAt? place =
      (tree.nodeAt? place).map fun node => node.labelled (tree.framesBelow path place) := by
  induction place generalizing tree path with
  | nil => rfl
  | cons number rest ih =>
    rw [SyntaxNode.nodeAt?, Tree.nodeAt?, Tree.framesBelow, labelled_children]
    cases tree.children[number]? with
    | none => rfl
    | some child => exact ih child _

/-! Owners of methods. -/

theorem enclosing_type_named {type : String} (filled : type ≠ "") (preceding : List Tree)
    (outer : List Frame) {space : String} (current : namespaceAt outer = some space)
    (named : space ≠ "") :
    enclosingType (⟨.typeDeclaration type, preceding⟩ :: outer) =
      some ("\\" ++ space ++ "\\" ++ type) := by
  simp only [enclosingType, current, if_neg filled, if_neg named]

theorem enclosing_type_unnamed {type : String} (filled : type ≠ "") (preceding : List Tree)
    (outer : List Frame) (unnamed : namespaceAt outer = none ∨ namespaceAt outer = some "") :
    enclosingType (⟨.typeDeclaration type, preceding⟩ :: outer) = some ("\\" ++ type) := by
  rcases unnamed with none | empty
  · simp only [enclosingType, none, if_neg filled]
  · simp only [enclosingType, empty, if_neg filled, if_pos]

theorem enclosing_type_untyped {parent : Construct}
    (untyped : ∀ type, type ≠ "" → parent ≠ .typeDeclaration type) (preceding : List Tree)
    (outer : List Frame) : enclosingType (⟨parent, preceding⟩ :: outer) = none := by
  cases parent with
  | typeDeclaration type =>
    by_cases filled : type = ""
    · simp only [enclosingType, if_pos filled]
    · exact absurd rfl (untyped type filled)
  | _ => rfl

theorem labelled_method {method : Tree} {name : String} (declared : method.construct = .method name)
    (path : List Frame) :
    (method.labelled path).label =
      { kind := .methodDeclaration
        declaredName := some name
        enclosingType := enclosingType path } := by
  cases method with
  | node construct children =>
    cases declared
    rfl

/-- The owner of a method of a named type is the type's name in the namespace that was current at
the type, reading the file from left to right. A method of anything else, or of a type whose name is
empty, has no owner. -/
theorem owners_by_scan (statements : List Tree) (place : List Nat) (holder : Tree) (number : Nat)
    (method : Tree) (name : String)
    (held : (Tree.node .file statements).nodeAt? place = some holder)
    (member : holder.children[number]? = some method) (declared : method.construct = .method name) :
    ∃ node, ((Tree.node .file statements).labelled []).nodeAt? (place ++ [number]) = some node ∧
      node.kind = .methodDeclaration ∧ node.declaredName = some name ∧
      (∀ type, type ≠ "" → holder.construct = .typeDeclaration type →
        (∀ space, currentNamespace statements place = some space → space ≠ "" →
          node.enclosingType = some ("\\" ++ space ++ "\\" ++ type)) ∧
        (currentNamespace statements place = none ∨ currentNamespace statements place = some "" →
          node.enclosingType = some ("\\" ++ type))) ∧
      ((∀ type, type ≠ "" → holder.construct ≠ .typeDeclaration type) →
        node.enclosingType = none) := by
  have there : (Tree.node .file statements).nodeAt? place ≠ none := by
    rw [held]
    exact Option.some_ne_none holder
  have found := labelled_at place (.node .file statements) []
  rw [held, Option.map_some] at found
  have climbed : namespaceAt ((Tree.node .file statements).framesBelow [] place) =
      currentNamespace statements place :=
    namespace_at_frames place _ [] there
  generalize (Tree.node .file statements).framesBelow [] place = outer at found climbed
  refine ⟨method.labelled (⟨holder.construct, (holder.children.take number).reverse⟩ :: outer), ?_,
    ?_⟩
  · rw [SyntaxNode.node_at_append, found, Option.bind_some, SyntaxNode.nodeAt?, labelled_children,
      member]
    rfl
  · have label :=
      labelled_method declared (⟨holder.construct, (holder.children.take number).reverse⟩ :: outer)
    simp only [SyntaxNode.kind, SyntaxNode.declaredName, SyntaxNode.enclosingType, label, true_and,
      ← climbed]
    refine ⟨?_, fun untyped => enclosing_type_untyped untyped _ outer⟩
    intro type filled typed
    rw [typed]
    exact ⟨fun space => enclosing_type_named filled _ outer, enclosing_type_unnamed filled _ outer⟩

def mixedNamespaces : List Tree :=
  [.node (.namespaceStatement (some "A\\B")) [],
   .node (.typeDeclaration "C") [.node (.method "m") [.node .other [.node (.typeDeclaration "D")
    [.node (.method "n") []]]]],
   .node (.namespaceBlock (some "E")) [.node .anonymousClass [.node (.method "o") []]],
   .node .other [.node (.typeDeclaration "F") [.node (.method "p") []]]]

-- The type inside the other one is in the namespace of the statement before, which the block has
-- ended for the last.
theorem mixed_namespaces_scanned :
    (∃ node, ((Tree.node .file mixedNamespaces).labelled []).nodeAt? [1, 0, 0, 0, 0] = some node ∧
      node.enclosingType = some "\\A\\B\\D") ∧
    (∃ node, ((Tree.node .file mixedNamespaces).labelled []).nodeAt? [2, 0, 0] = some node ∧
      node.enclosingType = none) ∧
    ∃ node, ((Tree.node .file mixedNamespaces).labelled []).nodeAt? [3, 0, 0] = some node ∧
      node.enclosingType = some "\\F" := by
  refine ⟨?_, ?_, ?_⟩
  · obtain ⟨node, found, -, -, typed, -⟩ :=
      owners_by_scan mixedNamespaces [1, 0, 0, 0] _ 0 _ "n" rfl rfl rfl
    exact ⟨node, found, (typed "D" (by decide) rfl).1 "A\\B" rfl (by decide)⟩
  · obtain ⟨node, found, -, -, -, untyped⟩ :=
      owners_by_scan mixedNamespaces [2, 0] _ 0 _ "o" rfl rfl rfl
    refine ⟨node, found, untyped ?_⟩
    intro type _ equal
    cases equal
  · obtain ⟨node, found, -, -, typed, -⟩ :=
      owners_by_scan mixedNamespaces [3, 0] _ 0 _ "p" rfl rfl rfl
    exact ⟨node, found, (typed "F" (by decide) rfl).2 (.inl rfl)⟩

end HandlerIndex.Php
