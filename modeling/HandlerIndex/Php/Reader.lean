import HandlerIndex.Php.Nesting
import HandlerIndex.Php.Quoting
import HandlerIndex.Php.Tree

/-!
The last stage of the source parser, which reads trees off grouped tokens. What extraction looks at
is read exactly: declarations, return statements, array literals with their entries, and string
literals. Operators, control flow and types leave no node of their own behind; only what stands
inside them does. An expression that is nothing but a string or an array is that node. Any other
expression is a node of no particular kind around the nodes inside it, so a parenthesised array is
not taken for an array. Left out is whatever no extraction looks at, and whether the source would
run.
-/
namespace HandlerIndex.Php

inductive Context where
  | statements
  /-- the body of a type -/
  | members
  /-- what stands in braces after a property -/
  | hooks
  /-- expressions divided by commas or semicolons -/
  | expressions
  /-- the elements of an array -/
  | elements
  /-- the target of a destructuring assignment -/
  | pattern
  /-- between the parentheses of `foreach` -/
  | loopHead

section Items

def Item.keyword? : Item → Option String
  | .leaf (.word text) => some (String.ofList (text.toList.map Char.toLower))
  | _ => none

def Item.isKeyword (item : Item) (keyword : String) : Bool := item.keyword? == some keyword

def Item.isSymbol (item : Item) (symbol : String) : Bool :=
  match item with
  | .leaf (.symbol text) => text == symbol
  | _ => false

def Item.isGroup (item : Item) (bracket : Bracket) : Bool :=
  match item with
  | .group b _ => b == bracket
  | _ => false

def memberSymbols : List String := ["->", "?->", "::"]

def Item.isMemberSymbol (item : Item) : Bool := memberSymbols.any item.isSymbol

def splitItems (divides : Item → Bool) (items : List Item) : List (List Item) :=
  let (done, current) := items.foldl
    (fun (done, current) item =>
      if divides item then (current.reverse :: done, []) else (done, item :: current))
    (([], []) : List (List Item) × List Item)
  (current.reverse :: done).reverse

/-- Divides an element at its arrow. An arrow function and a `yield` take the first arrow after them
for themselves; `owed` counts those. -/
def splitArrow : (owed : Nat) → (afterMember : Bool) → (before : List Item) → List Item →
    Option (List Item × List Item)
  | _, _, _, [] => none
  | owed, afterMember, before, item :: rest =>
    if item.isSymbol "=>" then
      match owed with
      | 0 => some (before.reverse, rest)
      | owed + 1 => splitArrow owed false (item :: before) rest
    else if !afterMember && (item.isKeyword "fn" || item.isKeyword "yield") then
      splitArrow (owed + 1) false (item :: before) rest
    else splitArrow owed item.isMemberSymbol (item :: before) rest

end Items

section Expressions

variable (inner : Context → List Item → List Tree)

inductive Body where
  | expression
  | closure
  | anonymousClass
  | arms

/-- Where a scan stands: whether a value has just ended, so that a square bracket selects from it,
whether a member's name comes next, and what the next braces hold. -/
structure Scan where
  afterValue : Bool := false
  afterMember : Bool := false
  body : Body := .expression

def operatorWords : List String :=
  ["and", "or", "xor", "instanceof", "new", "clone", "print", "echo", "return", "include",
    "include_once", "require", "require_once", "throw", "as", "from", "case", "default", "static",
    "global", "const", "fn", "function", "use", "goto", "else", "do", "yield", "var", "public",
    "protected", "private", "final", "abstract", "readonly", "insteadof", "extends", "implements"]

def castTypes : List String :=
  ["array", "int", "integer", "bool", "boolean", "float", "double", "real", "string", "binary",
    "object", "unset"]

def isCast : List Item → Bool
  | [item] => castTypes.any item.isKeyword
  | _ => false

def plainText? (parts : List Item) : Option String :=
  let bodies := parts.mapM fun
    | .leaf (.text body) => some body
    | _ => none
  bodies.map fun bodies => String.ofList (decodeDoubleQuoted bodies.flatten)

def interpolatedNodes (parts : List Item) : List Tree :=
  parts.flatMap fun
    | .group .interpolation items => inner .expressions items
    | _ => []

def groupNodes (scan : Scan) (bracket : Bracket) (items : List Item) (assigned : Bool) :
    List Tree :=
  match bracket with
  | .paren => inner .expressions items
  | .square =>
    if scan.afterValue then inner .expressions items
    else if assigned then inner .pattern items
    else [.node .arrayLiteral (inner .elements items)]
  | .brace =>
    match scan.body with
    | .closure => inner .statements items
    | .anonymousClass => [.node .anonymousClass (inner .members items)]
    | .arms | .expression => inner .expressions items
  | .quoted => [.node (.stringLiteral (plainText? items)) (interpolatedNodes inner items)]
  | .shell | .heredoc => interpolatedNodes inner items
  | .attribute | .interpolation => inner .expressions items

def Scan.afterGroup (scan : Scan) (bracket : Bracket) (items : List Item) : Scan :=
  match bracket with
  | .paren => { scan with afterValue := scan.afterValue || !isCast items, afterMember := false }
  | .brace => { afterValue := true }
  | .attribute => scan
  | _ => { scan with afterValue := true, afterMember := false }

def Scan.afterWord (scan : Scan) (keyword : String) (rest : List Item) : Scan :=
  if rest.head?.any (·.isSymbol ":") then { scan with afterValue := true }
  else if keyword = "function" then { scan with afterValue := false, body := .closure }
  else if keyword = "class" then { scan with afterValue := false, body := .anonymousClass }
  else if keyword = "match" ∧ rest.head?.any (·.isGroup .paren) then
    { scan with afterValue := false, body := .arms }
  else { scan with afterValue := !operatorWords.contains keyword }

def scanNodes (scan : Scan) (found : List Tree) : List Item → List Tree
  | [] => found.reverse
  | .group bracket items :: rest =>
    let nodes := groupNodes inner scan bracket items (rest.head?.any (·.isSymbol "="))
    scanNodes (scan.afterGroup bracket items) (nodes.reverse ++ found) rest
  | .leaf (.literal body) :: rest =>
    let text := String.ofList (decodeSingleQuoted body)
    scanNodes { scan with afterValue := true, afterMember := false }
      (.node (.stringLiteral (some text)) [] :: found) rest
  | .leaf (.word text) :: .group .paren items :: rest =>
    let keyword := String.ofList (text.toList.map Char.toLower)
    if scan.afterMember then
      scanNodes { scan with afterValue := true, afterMember := false }
        ((inner .expressions items).reverse ++ found) rest
    else if keyword = "array" then
      scanNodes { scan with afterValue := true }
        (.node .arrayLiteral (inner .elements items) :: found) rest
    else if keyword = "list" then
      scanNodes { scan with afterValue := true } ((inner .pattern items).reverse ++ found) rest
    else if keyword = "yield" then
      (inner .elements (.group .paren items :: rest)).reverse ++ found |>.reverse
    else
      let scan := scan.afterWord keyword [.group .paren items]
      scanNodes (scan.afterGroup .paren items)
        ((groupNodes inner scan .paren items false).reverse ++ found) rest
  | .leaf (.word text) :: rest =>
    let keyword := String.ofList (text.toList.map Char.toLower)
    if scan.afterMember then
      scanNodes { scan with afterValue := true, afterMember := false } found rest
    else if keyword = "yield" then
      if rest.head?.any (·.isKeyword "from") then
        scanNodes { scan with afterValue := false } found rest
      else (inner .elements rest).reverse ++ found |>.reverse
    else scanNodes (scan.afterWord keyword rest) found rest
  | .leaf (.symbol text) :: rest =>
    if memberSymbols.contains text then
      scanNodes { scan with afterValue := false, afterMember := true } found rest
    else
      scanNodes { scan with afterValue := text == "++" || text == "--", afterMember := false }
        found rest
  | .leaf .operand :: rest =>
    scanNodes { scan with afterValue := true, afterMember := false } found rest
  | .leaf _ :: rest => scanNodes scan found rest

def isBareLiteral : List Item → Bool
  | [.leaf (.literal _)] => true
  | [.group .quoted _] => true
  | [.group .square _] => true
  | [word, .group .paren _] => word.isKeyword "array"
  | _ => false

def expressionNodes (items : List Item) : List Tree :=
  if items.isEmpty then []
  else
    let nodes := scanNodes inner {} [] items
    if isBareLiteral items then nodes else [.node .other nodes]

def listNodes (items : List Item) : List Tree :=
  (splitItems (fun item => item.isSymbol "," || item.isSymbol ";") items).flatMap
    (expressionNodes inner)

def elementNodes (items : List Item) : List Tree :=
  if items.isEmpty then []
  else
    match splitArrow 0 false [] items with
    | some (key, value) =>
      [.node .arrayEntry (expressionNodes inner key ++ expressionNodes inner value)]
    | none => [.node .arrayEntry (expressionNodes inner items)]

def targetNodes : List Item → List Tree
  | [.group .square items] => inner .pattern items
  | [word, .group .paren items] =>
    if word.isKeyword "list" then inner .pattern items
    else expressionNodes inner [word, .group .paren items]
  | items => expressionNodes inner items

def patternNodes (items : List Item) : List Tree :=
  match splitArrow 0 false [] items with
  | some (key, value) => expressionNodes inner key ++ targetNodes inner value
  | none => targetNodes inner items

def loopNodes (items : List Item) : List Tree :=
  let (subject, target) := items.span (!·.isKeyword "as")
  expressionNodes inner subject ++ patternNodes inner target.tail

end Expressions

section Clauses

inductive Progress where
  /-- nothing but attributes and modifiers -/
  | start
  /-- ends with a semicolon -/
  | plain
  /-- ends with the next parentheses -/
  | header
  /-- ends with a colon; so many conditional operators are open -/
  | label (conditions : Nat)
  /-- ends with a block or a semicolon -/
  | declaration
  /-- `function`, which begins a declaration or an expression -/
  | functionWord
  /-- `enum`, which begins a declaration if a name follows -/
  | enumWord
  /-- a word, which is a label if a colon follows -/
  | word
  | finished

def headerWords : List String :=
  ["if", "elseif", "while", "for", "foreach", "switch", "catch", "declare"]

def blockWords : List String := ["else", "do", "try", "finally"]

def declarationWords : List String := ["class", "trait", "interface", "namespace", "use"]

def modifierWords : List String :=
  ["public", "protected", "private", "static", "abstract", "final", "readonly", "var"]

def typeModifiers : List String := ["abstract", "final", "readonly"]

def plainProgress (item : Item) : Progress :=
  match item with
  | .leaf .markup => .finished
  | _ => if item.isSymbol ";" then .finished else .plain

def startProgress (item : Item) : Progress :=
  match item with
  | .group .attribute _ => .start
  | .group .brace _ => .finished
  | _ =>
    match item.keyword? with
    | some keyword =>
      if headerWords.contains keyword then .header
      else if blockWords.contains keyword then .finished
      else if keyword = "case" ∨ keyword = "default" then .label 0
      else if declarationWords.contains keyword then .declaration
      else if typeModifiers.contains keyword then .start
      else if keyword = "enum" then .enumWord
      else if keyword = "function" then .functionWord
      else .word
    | none => if item.isSymbol ":" then .finished else plainProgress item

def Progress.statement (progress : Progress) (item : Item) : Progress :=
  match progress with
  | .start | .finished => startProgress item
  | .plain => plainProgress item
  | .header => if item.isGroup .paren then .finished else plainProgress item
  | .label conditions =>
    if item.isSymbol "?" then .label (conditions + 1)
    else if item.isSymbol ":" then
      match conditions with
      | 0 => .finished
      | conditions + 1 => .label conditions
    else match plainProgress item with
      | .finished => .finished
      | _ => .label conditions
  | .declaration =>
    if item.isGroup .brace then .finished
    else match plainProgress item with
      | .finished => .finished
      | _ => .declaration
  | .functionWord =>
    if item.isSymbol "&" then .functionWord
    else if item.keyword?.isSome then .declaration
    else plainProgress item
  | .enumWord => if item.keyword?.isSome then .declaration else plainProgress item
  | .word => if item.isSymbol ":" then .finished else plainProgress item

def Progress.member (_ : Progress) (item : Item) : Progress :=
  if item.isGroup .brace ∨ item.isSymbol ";" then .finished else .plain

def Item.isTerminator (item : Item) : Bool :=
  match item with
  | .leaf .markup => true
  | _ => item.isSymbol ";" || item.isSymbol ":"

/-- Whether an item begins a statement although the one before it was not ended: these words stand
in no expression, `class` after `new` apart. -/
def startsStatement (previous item : Item) : Bool :=
  !(previous.isMemberSymbol || previous.isGroup .attribute ||
    typeModifiers.any previous.isKeyword) &&
    (["abstract", "final", "trait", "interface", "namespace"].any item.isKeyword ||
      (item.isKeyword "class" && !previous.isKeyword "new"))

def startsMember (previous item : Item) : Bool :=
  !(previous.isMemberSymbol || previous.isGroup .attribute ||
    modifierWords.any previous.isKeyword) &&
    ["public", "protected", "private"].any item.isKeyword

def clauses (advance : Progress → Item → Progress) (starts : Item → Item → Bool)
    (items : List Item) :
    List (List Item) :=
  let (done, current, _) := items.foldl
    (fun (done, current, progress) item =>
      let (done, current, progress) :=
        if current.head?.any (starts · item) then (current.reverse :: done, [], Progress.start)
        else (done, current, progress)
      match advance progress item with
      | .finished =>
        let clause := if item.isTerminator then current else item :: current
        (clause.reverse :: done, [], Progress.start)
      | progress => (done, item :: current, progress))
    (([], [], Progress.start) : List (List Item) × List Item × Progress)
  (current.reverse :: done).reverse

end Clauses

section Statements

variable (inner : Context → List Item → List Tree)

def attributeNodes (clause : List Item) : List Tree × List Item :=
  let (attributes, rest) := clause.span (·.isGroup .attribute)
  (attributes.flatMap fun
    | .group _ items => inner .expressions items
    | _ => [], rest)

def firstGroup? (bracket : Bracket) : List Item → Option (List Item)
  | [] => none
  | .group b items :: rest => if b = bracket then some items else firstGroup? bracket rest
  | _ :: rest => firstGroup? bracket rest

def word? : Item → Option String
  | .leaf (.word text) => some text
  | _ => none

def functionNodes (rest : List Item) : List Tree :=
  let parameters := ((firstGroup? .paren rest).map (inner .expressions)).getD []
  let body := ((firstGroup? .brace rest).map (inner .statements)).getD []
  parameters ++ [.node .other body]

def functionName (rest : List Item) : Option String × List Item :=
  let rest := rest.dropWhile (·.isSymbol "&")
  match rest with
  | item :: after => match word? item with
    | some name => (some name, after)
    | none => (none, rest)
  | [] => (none, [])

def typeNode (attributes : List Tree) (rest : List Item) : Tree :=
  let members := ((firstGroup? .brace rest).map (inner .members)).getD []
  match rest.head?.bind word? with
  | some name => .node (.typeDeclaration name) (attributes ++ members)
  | none => .node .anonymousClass (attributes ++ members)

def namespaceNode (rest : List Item) : Tree :=
  let name := rest.head?.bind word?
  match firstGroup? .brace rest with
  | some body => .node (.namespaceBlock name) (inner .statements body)
  | none => .node (.namespaceStatement name) []

def isTypeWord (item : Item) : Bool :=
  ["class", "trait", "interface", "enum"].any item.isKeyword

def declaresType : List Item → Bool
  | word :: rest =>
    (word.isKeyword "class" || word.isKeyword "trait" || word.isKeyword "interface") ||
      (word.isKeyword "enum" && (rest.head?.bind word?).isSome) ||
      typeModifiers.any word.isKeyword
  | [] => false

def statementNodes (clause : List Item) : List Tree :=
  let (attributes, clause) := attributeNodes inner clause
  match clause with
  | [] => attributes
  | .group .brace items :: _ => attributes ++ [.node .other (inner .statements items)]
  | item :: rest =>
    if item.isKeyword "return" then
      attributes ++ [.node .returnStatement (listNodes inner rest)]
    else if item.isKeyword "foreach" then
      attributes ++ ((firstGroup? .paren rest).map (inner .loopHead)).getD []
    else if (item.keyword?.any headerWords.contains) || item.isKeyword "case" then
      attributes ++ listNodes inner rest
    else if item.isKeyword "namespace" then attributes ++ [namespaceNode inner rest]
    else if item.isKeyword "use" || item.keyword?.any blockWords.contains then attributes
    else if declaresType clause then
      [typeNode inner attributes ((clause.dropWhile (!isTypeWord ·)).tail)]
    else if item.isKeyword "function" then
      match functionName rest with
      | (some name, rest) => [.node (.function name) (attributes ++ functionNodes inner rest)]
      | (none, _) => attributes ++ listNodes inner clause
    else attributes ++ listNodes inner clause

def memberNodes (clause : List Item) : List Tree :=
  let (attributes, clause) := attributeNodes inner clause
  match clause.dropWhile (fun item => modifierWords.any item.isKeyword) with
  | [] => attributes
  | item :: rest =>
    if item.isKeyword "use" then attributes
    else if item.isKeyword "function" then
      match functionName rest with
      | (some name, rest) => [.node (.method name) (attributes ++ functionNodes inner rest)]
      | (none, rest) => [.node .other (attributes ++ functionNodes inner rest)]
    else
      let value := (item :: rest).filter (!·.isGroup .brace)
      let hooks := ((firstGroup? .brace rest).map (inner .hooks)).getD []
      attributes ++ listNodes inner value ++ hooks

def hookNodes (clause : List Item) : List Tree :=
  let (attributes, clause) := attributeNodes inner clause
  let value := clause.filter (!·.isGroup .brace)
  let body := ((firstGroup? .brace clause).map (inner .statements)).getD []
  attributes ++ listNodes inner value ++ body

end Statements

def readItems : Nat → Context → List Item → List Tree
  | 0, _, _ => []
  | budget + 1, context, items =>
    let inner := readItems budget
    match context with
    | .statements =>
      (clauses Progress.statement startsStatement items).flatMap (statementNodes inner)
    | .members => (clauses Progress.member startsMember items).flatMap (memberNodes inner)
    | .hooks => (clauses Progress.member startsMember items).flatMap (hookNodes inner)
    | .expressions => listNodes inner items
    | .elements => (splitItems (·.isSymbol ",") items).flatMap (elementNodes inner)
    | .pattern => (splitItems (·.isSymbol ",") items).flatMap (patternNodes inner)
    | .loopHead => loopNodes inner items

/-- The tree of a source file. No group is nested deeper than there are tokens, so they are budget
enough. -/
def readTree (source : String) : Tree :=
  let tokens := tokenize source.toList
  .node .file (readItems (tokens.length + 1) .statements (groupTokens tokens))

def parse (source : String) : SyntaxNode := (readTree source).labelled []

end HandlerIndex.Php
