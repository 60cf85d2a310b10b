import HandlerIndex.SyntaxNode

/-!
The node adapter of the source parser: trees of PHP source and the names in effect in them. The
owner of a method is the named type that declares it, qualified by the namespace in effect there. A
namespace with a block is in effect inside it; one without is in effect for the statements after it,
up to the next one of either form. Left out are imports and aliases: a type is qualified by its
namespace alone.
-/
namespace HandlerIndex.Php

inductive Construct where
  | file
  /-- a namespace for the statements after it -/
  | namespaceStatement (name : Option String)
  /-- a namespace for its own block -/
  | namespaceBlock (name : Option String)
  /-- a class, trait, interface or enumeration -/
  | typeDeclaration (name : String)
  | anonymousClass
  | function (name : String)
  | method (name : String)
  | returnStatement
  | arrayLiteral
  | arrayEntry
  | stringLiteral (text : Option String)
  | other
  deriving DecidableEq, Repr

inductive Tree where
  | node (construct : Construct) (children : List Tree)

namespace Tree

def construct : Tree → Construct
  | node construct _ => construct

def children : Tree → List Tree
  | node _ children => children

end Tree

/-- One step up from a node: what its parent is, and the siblings before the node, the closest
first. -/
structure Frame where
  parent : Construct
  preceding : List Tree

def precedingNamespace : List Tree → Option String
  | [] => none
  | tree :: earlier =>
    match tree.construct with
    | .namespaceStatement name => name
    | .namespaceBlock _ => none
    | _ => precedingNamespace earlier

def namespaceAt : List Frame → Option String
  | [] => none
  | frame :: outer =>
    match frame.parent with
    | .namespaceStatement name => name
    | .namespaceBlock name => name
    | .file => precedingNamespace frame.preceding
    | _ => namespaceAt outer

/-- The qualified name of the type around a member; members of anonymous classes have none. -/
def enclosingType : List Frame → Option String
  | [] => none
  | frame :: outer =>
    match frame.parent with
    | .typeDeclaration name =>
      if name = "" then none
      else
        match namespaceAt outer with
        | some space =>
          if space = "" then some ("\\" ++ name) else some ("\\" ++ space ++ "\\" ++ name)
        | none => some ("\\" ++ name)
    | _ => none

def Construct.label (path : List Frame) : Construct → NodeLabel
  | .method name =>
    { kind := .methodDeclaration, declaredName := some name, enclosingType := enclosingType path }
  | .function name => { kind := .other, declaredName := some name }
  | .typeDeclaration name => { kind := .other, declaredName := some name }
  | .returnStatement => { kind := .returnStatement }
  | .arrayLiteral => { kind := .arrayLiteral }
  | .arrayEntry => { kind := .arrayEntry }
  | .stringLiteral text => { kind := .stringLiteral, literalText := text }
  | .file | .namespaceStatement _ | .namespaceBlock _ | .anonymousClass | .other =>
    { kind := .other }

mutual
def Tree.labelled (path : List Frame) : Tree → SyntaxNode
  | .node construct children =>
    .node (construct.label path) (labelledAll construct path [] [] children)

def labelledAll (parent : Construct) (path : List Frame) (preceding : List Tree)
    (done : List SyntaxNode) : List Tree → List SyntaxNode
  | [] => done.reverse
  | tree :: rest =>
    labelledAll parent path (tree :: preceding)
      (tree.labelled (⟨parent, preceding⟩ :: path) :: done) rest
end

end HandlerIndex.Php
