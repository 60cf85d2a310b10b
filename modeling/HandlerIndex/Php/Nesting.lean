import HandlerIndex.Php.Token

/-!
The second stage of the source parser: tokens grouped by their brackets. A damaged source may leave
brackets open, close what was never opened, or close in the wrong order; the grouping always
succeeds, and what is complete stays together. Left out are places in the source, and the parser's
own repairs of a damaged one.
-/
namespace HandlerIndex.Php

inductive Item where
  | leaf (token : Token)
  | group (bracket : Bracket) (items : List Item)

/-- A grouping in progress: the items of the innermost open group, the last one first, and for every
open group its bracket with the items before it. -/
structure Nest where
  items : List Item
  enclosing : List (Bracket × List Item)

namespace Nest

def empty : Nest := ⟨[], []⟩

def add (nest : Nest) (item : Item) : Nest := { nest with items := item :: nest.items }

def openGroup (nest : Nest) (bracket : Bracket) : Nest :=
  ⟨[], (bracket, nest.items) :: nest.enclosing⟩

def closeGroups : Nat → Nest → Nest
  | 0, nest => nest
  | count + 1, nest =>
    match nest.enclosing with
    | [] => nest
    | (bracket, before) :: outer =>
      closeGroups count ⟨.group bracket nest.items.reverse :: before, outer⟩

end Nest

/-- How much a closing bracket may end on its way to its own group: braces end parentheses left open
inside them, and never the other way round. -/
def Bracket.strength : Bracket → Nat
  | .paren | .square | .attribute => 1
  | .brace => 2
  | .interpolation => 3
  | .quoted | .shell | .heredoc => 4

def Bracket.closes (closer opener : Bracket) : Bool :=
  closer == opener || (closer == .square && opener == .attribute)

/-- How many open groups a closing bracket ends; none if it belongs to no group within its reach. -/
def closedGroups (closer : Bracket) : List Bracket → Nat
  | [] => 0
  | opener :: outer =>
    if closer.closes opener then 1
    else if opener.strength ≤ closer.strength then
      match closedGroups closer outer with
      | 0 => 0
      | count + 1 => count + 2
    else 0

def Item.isLoopWord : Item → Bool
  | .leaf (.word text) => text.toList.map Char.toLower == ['f', 'o', 'r']
  | _ => false

def refusesStatementEnd : Bracket × List Item → Bool
  | (.square, _) | (.attribute, _) => true
  | (.paren, before) => !before.head?.any Item.isLoopWord
  | _ => false

namespace Nest

def atOpenParen (nest : Nest) : Bool :=
  nest.items.isEmpty && (nest.enclosing.head?.any fun (bracket, _) => bracket == .paren)

-- A semicolon where no statement can end means that closing brackets are missing before it, and so
-- does a brace that comes first between parentheses.
def push (nest : Nest) (token : Token) : Nest :=
  match token with
  | .opening .brace => (if nest.atOpenParen then nest.closeGroups 1 else nest).openGroup .brace
  | .opening bracket => nest.openGroup bracket
  | .closing bracket => nest.closeGroups (closedGroups bracket (nest.enclosing.map Prod.fst))
  | .symbol ";" =>
    let missing := nest.enclosing.takeWhile refusesStatementEnd
    (nest.closeGroups missing.length).add (.leaf token)
  | _ => nest.add (.leaf token)

def finish (nest : Nest) : List Item := (nest.closeGroups nest.enclosing.length).items.reverse

end Nest

def groupTokens (tokens : List Token) : List Item := (tokens.foldl Nest.push .empty).finish

end HandlerIndex.Php
