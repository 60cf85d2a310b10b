import HandlerIndex.Extraction
import HandlerIndex.Proofs.Grouping
import HandlerIndex.Proofs.Preorder

/-!
What the extraction pipeline means. The entries that count are those in arrays that the return
statements of a declaration give back, in source order, and an entry is kept on its own merits: its
key, its value and the type around the declaration. The payload of a tree is the sequence of the
kept ones, grouped by event. Left out is how a source becomes a tree.
-/
namespace HandlerIndex
open SyntaxNode

structure Site where
  declaration : SyntaxNode
  statement : SyntaxNode
  entry : SyntaxNode

def arrayEntries (statement : SyntaxNode) : List SyntaxNode :=
  match statement.children.head? with
  | some value =>
    if value.kind = .arrayLiteral then value.children.filter (·.kind = .arrayEntry) else []
  | none => []

def sites (rules : ExtractionRules) (root : SyntaxNode) : List Site :=
  let declares := fun node : SyntaxNode =>
    node.kind = .methodDeclaration ∧ node.declaredName = some rules.methodName
  ((strictlyBelow root).filter declares).flatMap fun declaration =>
    ((strictlyBelow declaration).filter (·.kind = .returnStatement)).flatMap fun statement =>
      (arrayEntries statement).map fun entry => ⟨declaration, statement, entry⟩

def signatureText (typeName handler : String) : String :=
  String.ofList ((stripBackslashes typeName.toList).map (fun c => if c = '\\' then '.' else c) ++
    '.' :: handler.toList)

inductive Denotes (rules : ExtractionRules) (owner : Option String) (entry : SyntaxNode) :
    Subscription → Prop
  | subscription (key value : SyntaxNode) (rawKey handler typeName : String) (event : EventKey)
      (keyed : entry.entryKey? = some key) (keyKind : key.kind = .stringLiteral)
      (keyText : key.literalText = some rawKey)
      (parsed : rules.convention.parse rawKey = some event)
      (valued : entry.entryValue? = some value) (valueKind : value.kind = .stringLiteral)
      (valueText : value.literalText = some handler) (named : Text.trim handler ≠ "")
      (owned : owner = some typeName) (typed : stripBackslashes typeName.toList ≠ []) :
      Denotes rules owner entry
        ⟨rawKey, event.targetEvent, event.serviceName, signatureText typeName (Text.trim handler)⟩

theorem handler_name_iff (value : SyntaxNode) (name : String) :
    handlerName? value = some name ↔
      ∃ text, value.kind = .stringLiteral ∧ value.literalText = some text ∧
        Text.trim text ≠ "" ∧ name = Text.trim text := by
  unfold handlerName?
  by_cases literal : value.kind = .stringLiteral
  · simp only [literal, ne_eq, not_true_eq_false, ↓reduceIte, Option.bind_eq_bind,
      Option.bind_eq_some_iff, true_and]
    apply exists_congr
    intro text
    apply and_congr_right
    intro held
    by_cases blank : Text.trim text = "" <;> simp [blank, eq_comm]
  · simp [literal]

theorem handler_signature_iff (typeName handler signature : String) (named : handler ≠ "") :
    handlerSignature typeName handler = some signature ↔
      stripBackslashes typeName.toList ≠ [] ∧ signature = signatureText typeName handler := by
  have letters : handler.toList ≠ [] := fun none => named (String.toList_eq_nil_iff.mp none)
  unfold handlerSignature signatureText
  by_cases typed : stripBackslashes typeName.toList = []
  · simp [typed]
  · simp only [typed, letters, or_self, ↓reduceIte, Option.some.injEq, ne_eq, not_false_eq_true,
      true_and]
    exact eq_comm

theorem entry_subscription_iff (rules : ExtractionRules) (owner : Option String)
    (entry : SyntaxNode) (s : Subscription) :
    entrySubscription? rules owner entry = some s ↔ Denotes rules owner entry s := by
  unfold entrySubscription?
  simp only [Option.bind_eq_bind, Option.bind_eq_some_iff]
  constructor
  · rintro ⟨key, keyed, found⟩
    by_cases keyKind : key.kind = .stringLiteral
    · simp only [keyKind, ne_eq, not_true_eq_false, ↓reduceIte, Option.bind_eq_some_iff] at found
      obtain ⟨rawKey, keyText, event, parsed, value, valued, name, handled, typeName, owned,
          signature, signed, made⟩ := found
      obtain ⟨handler, valueKind, valueText, named, rfl⟩ := (handler_name_iff value name).mp handled
      obtain ⟨typed, rfl⟩ := (handler_signature_iff typeName _ signature named).mp signed
      cases made
      exact .subscription key value rawKey handler typeName event keyed keyKind keyText parsed
        valued valueKind
        valueText named owned typed
    · simp [keyKind] at found
  · intro denoted
    cases denoted with
    | subscription key value rawKey handler typeName event keyed keyKind keyText parsed valued
        valueKind valueText named owned typed =>
      have handled : handlerName? value = some (Text.trim handler) :=
        (handler_name_iff value _).mpr ⟨handler, valueKind, valueText, named, rfl⟩
      have signed : handlerSignature typeName (Text.trim handler) =
          some (signatureText typeName (Text.trim handler)) :=
        (handler_signature_iff typeName _ _ named).mpr ⟨typed, rfl⟩
      refine ⟨key, keyed, ?_⟩
      simp [keyKind, keyText, parsed, valued, handled, owned, signed]

theorem returned_entries_eq (statement : SyntaxNode) :
    returnedEntries statement = arrayEntries statement := by
  unfold returnedEntries arrayEntries
  cases statement.children with
  | nil => rfl
  | cons value rest => rfl

theorem extracted_eq_sites (rules : ExtractionRules) (root : SyntaxNode) :
    (declarations rules root).flatMap (extract rules) =
      (sites rules root).filterMap fun site =>
        entrySubscription? rules site.declaration.enclosingType site.entry := by
  have located : (fun node : SyntaxNode =>
      node.kind == .methodDeclaration && node.declaredName == some rules.methodName) =
      fun node =>
        decide (node.kind = .methodDeclaration ∧ node.declaredName = some rules.methodName) := by
    funext node
    exact Bool.eq_iff_iff.mpr (by simp)
  unfold declarations extract sites
  simp only [descendants_eq_strictly_below, returned_entries_eq, located, List.filterMap_flatMap,
    List.filterMap_map]
  rfl

-- The function that gives an entry its meaning is fixed before the tree, and sees the entry and the
-- owner of its declaration alone: no other entry, return statement or declaration can change
-- whether it is kept.
/-- The payload of a tree is what its entries denote, in source order, grouped by event. -/
theorem map_tree_exact (rules : ExtractionRules) :
    ∃ meaning : Option String → SyntaxNode → Option Subscription,
      (∀ owner entry s, meaning owner entry = some s ↔ Denotes rules owner entry s) ∧
      ∀ root event, (mapTree rules root).get? event =
        nonEmpty? (((sites rules root).filterMap fun site =>
          meaning site.declaration.enclosingType site.entry).filter (·.targetEvent == event)) := by
  refine ⟨entrySubscription? rules, entry_subscription_iff rules, ?_⟩
  intro root event
  rw [mapTree, Payload.aggregate_get, extracted_eq_sites]

end HandlerIndex
