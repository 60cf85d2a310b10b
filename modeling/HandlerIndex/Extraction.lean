import HandlerIndex.EventKey
import HandlerIndex.Payload
import HandlerIndex.SyntaxNode

/-!
The extraction pipeline, from a syntax tree to its subscriptions. A declaration of the method with
the agreed name returns array literals; each of their entries that maps a raw key to a handler's
name is one subscription. An entry of any other shape is left out, and that changes nothing for its
neighbours. Notes for the log on why an entry was skipped are not modelled.
-/
namespace HandlerIndex

structure ExtractionRules where
  methodName : String
  convention : Convention
  deriving DecidableEq, Repr

namespace ExtractionRules

def standard : ExtractionRules := ⟨"getSubscribedEvents", Convention.standard⟩

end ExtractionRules

open SyntaxNode

def handlerName? (value : SyntaxNode) : Option String := do
  if value.kind ≠ .stringLiteral then none
  let name := Text.trim (← value.literalText)
  if name = "" then none else some name

def declarations (rules : ExtractionRules) (root : SyntaxNode) : List SyntaxNode :=
  root.descendants.filter fun node =>
    node.kind == .methodDeclaration && node.declaredName == some rules.methodName

def returnedEntries (statement : SyntaxNode) : List SyntaxNode :=
  match statement.children with
  | [] => []
  | value :: _ =>
    if value.kind = .arrayLiteral then value.children.filter (·.kind == .arrayEntry) else []

def entrySubscription? (rules : ExtractionRules) (owner : Option String) (entry : SyntaxNode) :
    Option Subscription := do
  let key ← entry.entryKey?
  if key.kind ≠ .stringLiteral then none
  let rawKey ← key.literalText
  let event ← rules.convention.parse rawKey
  let handler ← handlerName? (← entry.entryValue?)
  let signature ← handlerSignature (← owner) handler
  return ⟨rawKey, event.targetEvent, event.serviceName, signature⟩

def extract (rules : ExtractionRules) (declaration : SyntaxNode) : List Subscription :=
  let statements := declaration.descendants.filter (·.kind == .returnStatement)
  (statements.flatMap returnedEntries).filterMap
    (entrySubscription? rules declaration.enclosingType)

def mapTree (rules : ExtractionRules) (root : SyntaxNode) : Payload :=
  .aggregate ((declarations rules root).flatMap (extract rules))

structure Reading where
  attempts : Nat
  payload : Payload
  deriving DecidableEq

/-- Reads a source and maps its tree. Nothing is read when extraction is switched off, and a source
that has no tree has an empty payload. -/
def runExtraction (read : String → Option SyntaxNode) (rules : ExtractionRules) (enabled : Bool)
    (source : String) : Reading :=
  if enabled then
    match read source with
    | some root => ⟨1, mapTree rules root⟩
    | none => ⟨1, .empty⟩
  else ⟨0, .empty⟩

end HandlerIndex
