import HandlerIndex.Proofs.ExtractionMeaning
import Mathlib.Logic.Relation

/-!
Code around what the extraction pipeline looks for. Outside of return statements, arrays and
entries, a tree may be put into a node of no particular kind, and a tree that neither returns nor
declares anything may be added. However often that is done, the same declarations are found, and
each of them gives the same subscriptions. Left out is padding inside of what is returned, which can
change what it says.
-/
namespace HandlerIndex
open SyntaxNode

/-- Whether the number and the kinds of a node's children are of no account. -/
def NodeKind.isLoose : NodeKind → Bool
  | .returnStatement | .arrayLiteral | .arrayEntry => false
  | .methodDeclaration | .stringLiteral | .other => true

/-- Nothing in a tree returns or declares anything. -/
def SyntaxNode.Inert (tree : SyntaxNode) : Prop :=
  ∀ node ∈ preorder tree, node.kind ≠ .returnStatement ∧ node.kind ≠ .methodDeclaration

instance (tree : SyntaxNode) : Decidable tree.Inert :=
  inferInstanceAs
    (Decidable (∀ node ∈ preorder tree, node.kind ≠ .returnStatement ∧
      node.kind ≠ .methodDeclaration))

/-- The second tree is the first one with one more node or tree around what is extracted. -/
inductive Pads : SyntaxNode → SyntaxNode → Prop
  | wrap (label : NodeLabel) (before after : List SyntaxNode) (child : SyntaxNode)
      (loose : label.kind.isLoose = true) :
      Pads (node label (before ++ child :: after))
        (node label (before ++ node { kind := .other } [child] :: after))
  | insert (label : NodeLabel) (before after : List SyntaxNode) (added : SyntaxNode)
      (loose : label.kind.isLoose = true) (inert : added.Inert) :
      Pads (node label (before ++ after)) (node label (before ++ added :: after))
  | inside (label : NodeLabel) (before after : List SyntaxNode) {child padded : SyntaxNode}
      (pads : Pads child padded) :
      Pads (node label (before ++ child :: after)) (node label (before ++ padded :: after))

/-! What is seen of one node. -/
section Nodes
variable {tree padded : SyntaxNode}

theorem Pads.label_eq (pads : Pads tree padded) : padded.label = tree.label := by
  cases pads <;> rfl

theorem Pads.kind_eq (pads : Pads tree padded) : padded.kind = tree.kind :=
  congrArg NodeLabel.kind pads.label_eq

/-- A node that is not loose keeps its children one by one. -/
theorem Pads.children_eq (pads : Pads tree padded) (tight : tree.kind.isLoose = false) :
    ∃ before after child changed, Pads child changed ∧
      tree.children = before ++ child :: after ∧ padded.children = before ++ changed :: after := by
  cases pads with
  | wrap label before after child loose => exact absurd (loose.symm.trans tight) (by decide)
  | insert label before after added loose inert => exact absurd (loose.symm.trans tight) (by decide)
  | inside label before after pads => exact ⟨before, after, _, _, pads, rfl, rfl⟩

theorem entry_key_eq_some_iff {entry key : SyntaxNode} :
    entry.entryKey? = some key ↔ entry.kind = .arrayEntry ∧ ∃ value,
      entry.children = [key, value] := by
  obtain ⟨label, held⟩ := entry
  rcases held with _ | ⟨first, _ | ⟨second, _ | ⟨third, more⟩⟩⟩ <;>
    simp [entryKey?, SyntaxNode.kind]

-- An entry that denotes anything has a key and a value and nothing else, and of both only the
-- labels count.
theorem Denotes.of_labels {rules : ExtractionRules} {owner : Option String}
    {entry other : SyntaxNode} {s : Subscription} (denoted : Denotes rules owner entry s)
    (same : other.label = entry.label)
    (children : other.children.map (·.label) = entry.children.map (·.label)) :
    Denotes rules owner other s := by
  cases denoted with
  | subscription key value rawKey handler typeName event keyed keyKind keyText parsed valued
    valueKind valueText
      named owned typed =>
    obtain ⟨kind, last, pair⟩ := entry_key_eq_some_iff.mp keyed
    have other_kind : other.kind = .arrayEntry := (congrArg NodeLabel.kind same).trans kind
    obtain rfl : last = value := by
      rw [entryValue?, if_pos kind, pair] at valued
      exact Option.some.inj valued
    rw [pair] at children
    obtain ⟨other_key, rest, shape, keys, rest_labels⟩ := List.map_eq_cons_iff.mp children
    obtain ⟨other_value, none, rest_shape, values, no_labels⟩ := List.map_eq_cons_iff.mp rest_labels
    rw [List.map_nil, List.map_eq_nil_iff] at no_labels
    rw [rest_shape, no_labels] at shape
    refine .subscription other_key other_value rawKey handler typeName event
      (entry_key_eq_some_iff.mpr ⟨other_kind, other_value, shape⟩)
      ((congrArg NodeLabel.kind keys).trans keyKind)
      ((congrArg NodeLabel.literalText keys).trans keyText) parsed ?_
      ((congrArg NodeLabel.kind values).trans valueKind)
      ((congrArg NodeLabel.literalText values).trans valueText)
      named owned typed
    rw [entryValue?, if_pos other_kind, shape]
    rfl

theorem Denotes.kind {rules : ExtractionRules} {owner : Option String} {entry : SyntaxNode}
    {s : Subscription} (denoted : Denotes rules owner entry s) : entry.kind = .arrayEntry := by
  cases denoted with
  | subscription key _ _ _ _ _ keyed => exact (entry_key_eq_some_iff.mp keyed).1

theorem Pads.child_labels (pads : Pads tree padded) (tight : tree.kind.isLoose = false) :
    padded.children.map (·.label) = tree.children.map (·.label) := by
  obtain ⟨before, after, child, changed, inner, own, new⟩ := pads.children_eq tight
  rw [own, new, List.map_append, List.map_append, List.map_cons, List.map_cons, inner.label_eq]

theorem Pads.entry_subscription_eq (pads : Pads tree padded) (rules : ExtractionRules)
    (owner : Option String) :
    entrySubscription? rules owner padded = entrySubscription? rules owner tree := by
  ext s
  rw [entry_subscription_iff, entry_subscription_iff]
  constructor
  · intro denoted
    have kind : tree.kind = .arrayEntry := pads.kind_eq.symm.trans denoted.kind
    exact denoted.of_labels pads.label_eq.symm (pads.child_labels (by rw [kind]; rfl)).symm
  · intro denoted
    exact denoted.of_labels pads.label_eq (pads.child_labels (by rw [denoted.kind]; rfl))

def returnedSubscriptions (rules : ExtractionRules) (owner : Option String)
    (statement : SyntaxNode) :
    List Subscription :=
  (returnedEntries statement).filterMap (entrySubscription? rules owner)

theorem Pads.array_entries_eq (pads : Pads tree padded) (literal : tree.kind = .arrayLiteral)
    (rules : ExtractionRules) (owner : Option String) :
    (padded.children.filter (·.kind == .arrayEntry)).filterMap (entrySubscription? rules owner) =
      (tree.children.filter (·.kind == .arrayEntry)).filterMap
        (entrySubscription? rules owner) := by
  obtain ⟨before, after, entry, changed, inner, own, new⟩ := pads.children_eq (by rw [literal]; rfl)
  rw [own, new, List.filter_append, List.filter_append, List.filter_cons, List.filter_cons,
    inner.kind_eq]
  split
  · rw [List.filterMap_append, List.filterMap_append, List.filterMap_cons, List.filterMap_cons,
      inner.entry_subscription_eq]
  · rfl

theorem Pads.returned_eq (pads : Pads tree padded) (statement : tree.kind = .returnStatement)
    (rules : ExtractionRules) (owner : Option String) :
    returnedSubscriptions rules owner padded = returnedSubscriptions rules owner tree := by
  obtain ⟨before, after, child, changed, inner, own, new⟩ :=
    pads.children_eq (by rw [statement]; rfl)
  unfold returnedSubscriptions returnedEntries
  rw [own, new]
  cases before with
  | nil =>
    -- The padding is in the value that is given back.
    simp only [List.nil_append, inner.kind_eq]
    by_cases literal : child.kind = .arrayLiteral
    · rw [if_pos literal, if_pos literal]
      exact inner.array_entries_eq literal rules owner
    · rw [if_neg literal, if_neg literal]
  | cons value rest => rfl

end Nodes

/-! What is gathered from all nodes. -/
section Gathering
variable {α : Type} (gives : SyntaxNode → List α)

def gathered (trees : List SyntaxNode) : List α := (preorderAll trees).flatMap gives

@[simp] theorem gathered_nil : gathered gives [] = [] := rfl

@[simp] theorem gathered_append (left right : List SyntaxNode) :
    gathered gives (left ++ right) = gathered gives left ++ gathered gives right := by
  simp [gathered]

@[simp] theorem gathered_cons (tree : SyntaxNode) (rest : List SyntaxNode) :
    gathered gives (tree :: rest) =
      gives tree ++ (gathered gives tree.children ++ gathered gives rest) := by
  simp [gathered, preorderAll, strictlyBelow]

theorem gathered_filter (counts : SyntaxNode → Bool) (trees : List SyntaxNode) :
    ((preorderAll trees).filter counts).flatMap gives =
      gathered (fun node => if counts node = true then gives node else []) trees := by
  rw [gathered]
  induction preorderAll trees with
  | nil => rfl
  | cons node rest ih =>
    rw [List.filter_cons, List.flatMap_cons, ← ih]
    split
    · rw [List.flatMap_cons]
    · rw [List.nil_append]

variable {gives}

theorem gathered_inert
    (idle : ∀ node, node.kind ≠ .returnStatement → node.kind ≠ .methodDeclaration → gives node = [])
    {tree : SyntaxNode} (inert : tree.Inert) : gathered gives [tree] = [] := by
  rw [gathered, List.flatMap_eq_nil_iff, preorderAll, preorderAll, List.append_nil]
  intro node member
  exact idle node (inert node member).1 (inert node member).2

/-- What nodes give that padding does not change, and that only statements and declarations give, is
not changed for whole trees either. -/
theorem Pads.gathered_below (same : ∀ {tree padded}, Pads tree padded → gives padded = gives tree)
    (idle : ∀ node, node.kind ≠ .returnStatement → node.kind ≠ .methodDeclaration → gives node = [])
    {tree padded : SyntaxNode} (pads : Pads tree padded) :
    gathered gives padded.children = gathered gives tree.children := by
  induction pads with
  | wrap label before after child loose =>
    have around : gives (node { kind := .other } [child]) = [] :=
      idle _ (fun kind => by cases kind) (fun kind => by cases kind)
    have wrapped : gathered gives [node { kind := .other } [child]] = gathered gives [child] := by
      simp [around]
    calc gathered gives (before ++ ([node { kind := .other } [child]] ++ after))
      _ = gathered gives before ++ (gathered gives [child] ++ gathered gives after) := by
        rw [gathered_append, gathered_append, wrapped]
      _ = gathered gives (before ++ ([child] ++ after)) := by simp
  | insert label before after added loose inert =>
    calc gathered gives (before ++ ([added] ++ after))
      _ = gathered gives before ++ ([] ++ gathered gives after) := by
        rw [gathered_append, gathered_append, gathered_inert idle inert]
      _ = gathered gives (before ++ after) := by simp
  | @inside label before after child padded pads ih =>
    calc gathered gives (before ++ padded :: after)
      _ = gathered gives before ++
        (gives child ++ (gathered gives child.children ++ gathered gives after)) := by
        rw [gathered_append, gathered_cons, same pads, ih]
      _ = gathered gives (before ++ child :: after) := by simp

end Gathering

/-! Declarations and their subscriptions. -/
section Declarations
variable (rules : ExtractionRules) {tree padded : SyntaxNode}

def statementGives (owner : Option String) (node : SyntaxNode) : List Subscription :=
  if node.kind = .returnStatement then returnedSubscriptions rules owner node else []

theorem extract_eq_gathered (declaration : SyntaxNode) :
    extract rules declaration =
      gathered (statementGives rules declaration.enclosingType) declaration.children := by
  unfold extract statementGives
  rw [descendants_eq_strictly_below, strictlyBelow, List.filterMap_flatMap, gathered_filter]
  simp only [beq_iff_eq, returnedSubscriptions]

theorem Pads.extract_eq (pads : Pads tree padded) : extract rules padded = extract rules tree := by
  have owner : padded.enclosingType = tree.enclosingType :=
    congrArg NodeLabel.enclosingType pads.label_eq
  rw [extract_eq_gathered, extract_eq_gathered, owner]
  refine pads.gathered_below ?_ ?_
  · intro statement other inner
    unfold statementGives
    rw [inner.kind_eq]
    by_cases kind : statement.kind = .returnStatement
    · rw [if_pos kind, if_pos kind]
      exact inner.returned_eq kind rules _
    · rw [if_neg kind, if_neg kind]
  · intro node not_return _
    exact if_neg not_return

def declarationGives (node : SyntaxNode) : List (NodeLabel × List Subscription) :=
  if node.kind = .methodDeclaration ∧ node.declaredName = some rules.methodName
  then [(node.label, extract rules node)] else []

theorem declarations_eq_gathered (root : SyntaxNode) :
    (declarations rules root).map (fun node => (node.label, extract rules node)) =
      gathered (declarationGives rules) root.children := by
  unfold declarations declarationGives
  rw [descendants_eq_strictly_below, strictlyBelow, List.map_eq_flatMap, gathered_filter]
  simp only [Bool.and_eq_true, beq_iff_eq]

theorem Pads.declarations_eq (pads : Pads tree padded) :
    (declarations rules padded).map (fun node => (node.label, extract rules node)) =
      (declarations rules tree).map fun node => (node.label, extract rules node) := by
  rw [declarations_eq_gathered, declarations_eq_gathered]
  refine pads.gathered_below ?_ ?_
  · intro node other inner
    unfold declarationGives
    rw [inner.kind_eq, inner.label_eq, inner.extract_eq, SyntaxNode.declaredName, inner.label_eq]
    rfl
  · intro node _ not_method
    exact if_neg fun declares => not_method declares.1

end Declarations

/-- However much irrelevant code is put around a tree's statements and declarations, the same
declarations are found in the same order, each with the same subscriptions, and the payload is the
same. -/
theorem padding_changes_nothing (rules : ExtractionRules) {tree padded : SyntaxNode}
    (padding : Relation.ReflTransGen Pads tree padded) :
    (declarations rules padded).map (fun node => (node.label, extract rules node)) =
        (declarations rules tree).map (fun node => (node.label, extract rules node)) ∧
      mapTree rules padded = mapTree rules tree := by
  have found : (declarations rules padded).map (fun node => (node.label, extract rules node)) =
      (declarations rules tree).map fun node => (node.label, extract rules node) := by
    induction padding with
    | refl => rfl
    | tail _ last ih => exact (last.declarations_eq rules).trans ih
  have payload (root : SyntaxNode) : mapTree rules root = .aggregate
      (((declarations rules root).map fun node => (node.label, extract rules node)).flatMap
        (·.2)) := by
    rw [List.flatMap_map]
    rfl
  exact ⟨found, by rw [payload, payload, found]⟩

def methodReturning (value : SyntaxNode) : SyntaxNode :=
  .node { kind := .methodDeclaration, declaredName := some "events", enclosingType := some "A" }
    [.node { kind := .returnStatement }
      [.node { kind := .arrayLiteral } [.node { kind := .arrayEntry }
      [.node { kind := .stringLiteral, literalText := some "on_x.a" } [], value]]]]

def handlerText (inside : List SyntaxNode) : SyntaxNode :=
  .node { kind := .stringLiteral, literalText := some "f" } inside

-- The first step is inside the returned entry, the other two are around the method.
theorem padded_method_unchanged :
    Relation.ReflTransGen Pads (.node { kind := .other } [methodReturning (handlerText [])])
      (.node { kind := .other } [handlerText [],
        .node { kind := .other } [methodReturning (handlerText [handlerText []])]]) ∧
    mapTree ⟨"events", ⟨["on_"], '.'⟩⟩ (.node { kind := .other } [handlerText [],
        .node { kind := .other } [methodReturning (handlerText [handlerText []])]]) =
      .aggregate [⟨"on_x.a", "on_x", "a", "A.f"⟩] := by
  have deep :
      Pads (methodReturning (handlerText [])) (methodReturning (handlerText [handlerText []])) := by
    refine .inside _ [] [] (.inside _ [] [] (.inside _ [] [] (.inside _ [_] [] ?_)))
    exact .insert _ [] [] (handlerText []) rfl (by decide +kernel)
  have padding :
      Relation.ReflTransGen Pads (.node { kind := .other } [methodReturning (handlerText [])])
      (.node { kind := .other } [handlerText [],
        .node { kind := .other } [methodReturning (handlerText [handlerText []])]]) := by
    refine .tail (.tail (.single (.inside _ [] [] deep)) (.wrap _ [] [] _ rfl)) ?_
    exact .insert _ [] [_] (handlerText []) rfl (by decide +kernel)
  refine ⟨padding, (padding_changes_nothing _ padding).2.trans ?_⟩
  decide +kernel

end HandlerIndex
