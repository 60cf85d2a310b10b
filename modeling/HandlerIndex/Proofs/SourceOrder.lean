import HandlerIndex.Php.Reader
import HandlerIndex.Proofs.ExtractionMeaning
import HandlerIndex.Proofs.Places
import Mathlib.Data.List.Pairwise

/-!
The order in which the extraction pipeline finds subscriptions. Declarations, their return
statements and the entries of the returned arrays are each visited in source order, but what is
nested is visited on its own account: an array with a return statement inside comes before what that
statement returns, and a declaration inside another one is visited twice. Where nothing that is
found is nested in this way, the subscriptions come in the order of their entries in the source.
Left out is the order of groups, which is that of their events.
-/
namespace HandlerIndex
open SyntaxNode

structure Finding where
  declaration : Spot
  statement : Spot
  entry : Spot
  subscription : Subscription

def entrySpots (statement : Spot) : List Spot :=
  match statement.children.head? with
  | some value =>
    if value.node.kind = .arrayLiteral then value.children.filter (·.node.kind = .arrayEntry)
    else []
  | none => []

def finding? (rules : ExtractionRules) (declaration statement entry : Spot) : Option Finding :=
  (entrySubscription? rules declaration.node.enclosingType entry.node).map fun s =>
    ⟨declaration, statement, entry, s⟩

def findings (rules : ExtractionRules) (root : SyntaxNode) : List Finding :=
  let declares := fun spot : Spot =>
    spot.node.kind = .methodDeclaration ∧ spot.node.declaredName = some rules.methodName
  ((⟨[], root⟩ : Spot).below.filter declares).flatMap fun declaration =>
    (declaration.below.filter (·.node.kind = .returnStatement)).flatMap fun statement =>
      (entrySpots statement).filterMap (finding? rules declaration statement)

def sourceEntries (root : SyntaxNode) : List Spot :=
  (spots [] root).filter (·.node.kind = .arrayEntry)

theorem source_entries_nodes (root : SyntaxNode) :
    (sourceEntries root).map (·.node) = (preorder root).filter (·.kind = .arrayEntry) := by
  rw [← spots_nodes [] root, List.filter_map]
  rfl

theorem source_entries_ascend (root : SyntaxNode) :
    (sourceEntries root).Pairwise fun a b => a.place < b.place :=
  (spots_ascend [] root).filter _

/-! Entries of a statement. -/
section Entries
variable {statement entry : Spot}

theorem head_child (statement : Spot) :
    statement.children.head? = statement.node.children.head?.map fun child =>
      ⟨statement.place ++ [0], child⟩ :=
  List.head?_mapIdx

theorem entry_spots_nodes (statement : Spot) :
    (entrySpots statement).map (·.node) = arrayEntries statement.node := by
  unfold entrySpots arrayEntries
  rw [head_child]
  cases statement.node.children.head? with
  | none => rfl
  | some value =>
    by_cases literal : value.kind = .arrayLiteral
    · have inner := Spot.children_nodes ⟨statement.place ++ [0], value⟩
      simp only [Option.map_some, literal, ↓reduceIte]
      rw [← inner, List.filter_map]
      rfl
    · simp [literal]

theorem entry_spots_ascend (statement : Spot) :
    (entrySpots statement).Pairwise fun a b => a.place < b.place := by
  unfold entrySpots
  cases statement.children.head? with
  | none => exact .nil
  | some value =>
    dsimp only
    split
    · exact value.children_ascend.filter _
    · exact .nil

theorem mem_entry_spots (member : entry ∈ entrySpots statement) :
    entry ∈ statement.below ∧ entry.node.kind = .arrayEntry ∧ ∃ number,
      entry.place = statement.place ++ [0, number] := by
  unfold entrySpots at member
  cases head : statement.children.head? with
  | none =>
    rw [head] at member
    cases member
  | some value =>
    rw [head] at member
    dsimp only at member
    split at member
    · obtain ⟨child, kind⟩ := List.mem_filter.mp member
      have first : value ∈ statement.children := List.mem_of_head? head
      rw [head_child] at head
      obtain ⟨node, -, rfl⟩ := Option.map_eq_some_iff.mp head
      obtain ⟨number, placed, -⟩ := Spot.mem_children.mp child
      refine ⟨Spot.below_trans (Spot.child_below first) (Spot.child_below child), by
        simpa using kind, number, ?_⟩
      rw [placed, List.append_assoc]
      rfl
    · cases member

end Entries

/-! What is found. -/
section Found
variable {rules : ExtractionRules} {root : SyntaxNode} {a b : Finding}

theorem extracted_findings (rules : ExtractionRules) (root : SyntaxNode) :
    (declarations rules root).flatMap (extract rules) =
      (findings rules root).map (·.subscription) := by
  have top : strictlyBelow root = (⟨[], root⟩ : Spot).below.map (·.node) :=
    (Spot.below_nodes ⟨[], root⟩).symm
  have inner : ∀ spot : Spot, strictlyBelow spot.node = spot.below.map (·.node) :=
    fun spot => spot.below_nodes.symm
  have found : ∀ declaration statement : Spot,
      ((arrayEntries statement.node).map fun entry =>
        (⟨declaration.node, statement.node, entry⟩ : Site)).filterMap
          (fun site => entrySubscription? rules site.declaration.enclosingType site.entry) =
        ((entrySpots statement).filterMap (finding? rules declaration statement)).map
          (·.subscription) := by
    intro declaration statement
    rw [← entry_spots_nodes, List.map_map, List.filterMap_map, List.map_filterMap]
    apply List.filterMap_congr
    intro entry _
    rw [finding?, Option.map_map]
    exact (congrFun Option.map_id _).symm
  rw [extracted_eq_sites]
  unfold sites findings
  simp only [top, List.filter_map, List.flatMap_map, inner, List.filterMap_flatMap,
    List.map_flatMap, found]
  rfl

/-- What it takes for a subscription to be found at these places. -/
structure Finding.Holds (rules : ExtractionRules) (root : SyntaxNode) (finding : Finding) :
    Prop where
  declared : finding.declaration ∈ (⟨[], root⟩ : Spot).below
  named : finding.declaration.node.kind = .methodDeclaration ∧
    finding.declaration.node.declaredName = some rules.methodName
  inside : finding.statement ∈ finding.declaration.below
  returned : finding.statement.node.kind = .returnStatement
  listed : finding.entry ∈ entrySpots finding.statement
  denoted : Denotes rules finding.declaration.node.enclosingType finding.entry.node
    finding.subscription

theorem mem_findings (finding : Finding) :
    finding ∈ findings rules root ↔ finding.Holds rules root := by
  unfold findings finding?
  simp only [List.mem_flatMap, List.mem_filter, List.mem_filterMap, Option.map_eq_some_iff,
    decide_eq_true_eq, entry_subscription_iff]
  constructor
  · rintro ⟨declaration, ⟨declared, named⟩, statement, ⟨inside, returned⟩, entry, listed, s,
      denoted, rfl⟩
    exact ⟨declared, named, inside, returned, listed, denoted⟩
  · intro holds
    exact ⟨_, ⟨holds.declared, holds.named⟩, _, ⟨holds.inside, holds.returned⟩, _, holds.listed, _,
      holds.denoted, rfl⟩

theorem Finding.Holds.entry_found (holds : a.Holds rules root) : a.entry ∈ sourceEntries root := by
  obtain ⟨below, kind, -⟩ := mem_entry_spots holds.listed
  obtain ⟨number, way, placed, leads⟩ := Spot.mem_below.mp
    (Spot.below_trans holds.declared (Spot.below_trans holds.inside below))
  refine List.mem_filter.mpr ⟨(mem_spots [] a.entry root).mpr ⟨number :: way, placed, leads⟩, ?_⟩
  simpa using kind

/-- The order of extraction: by declarations, then by return statements, then by entries. -/
def Finding.Precedes (a b : Finding) : Prop :=
  a.declaration.place < b.declaration.place ∨ a.declaration = b.declaration ∧
    (a.statement.place < b.statement.place ∨ a.statement = b.statement ∧
      a.entry.place < b.entry.place)

theorem finding_eq {declaration statement entry : Spot}
    (found : finding? rules declaration statement entry = some a) :
    a.declaration = declaration ∧ a.statement = statement ∧ a.entry = entry := by
  obtain ⟨s, -, rfl⟩ := Option.map_eq_some_iff.mp found
  exact ⟨rfl, rfl, rfl⟩

theorem findings_precede (rules : ExtractionRules) (root : SyntaxNode) :
    (findings rules root).Pairwise Finding.Precedes := by
  unfold findings
  refine List.pairwise_flatMap.mpr ⟨fun declaration _ =>
    List.pairwise_flatMap.mpr ⟨fun statement _ => ?_, ?_⟩, ?_⟩
  · refine (entry_spots_ascend statement).filterMap _ ?_
    intro first second before x x_found y y_found
    obtain ⟨x_declaration, x_statement, x_entry⟩ := finding_eq x_found
    obtain ⟨y_declaration, y_statement, y_entry⟩ := finding_eq y_found
    refine .inr ⟨x_declaration.trans y_declaration.symm,
      .inr ⟨x_statement.trans y_statement.symm, ?_⟩⟩
    rw [x_entry, y_entry]
    exact before
  · refine (declaration.below_ascends.filter _).imp ?_
    intro first second before x x_found y y_found
    obtain ⟨_, -, x_found⟩ := List.mem_filterMap.mp x_found
    obtain ⟨_, -, y_found⟩ := List.mem_filterMap.mp y_found
    obtain ⟨x_declaration, x_statement, -⟩ := finding_eq x_found
    obtain ⟨y_declaration, y_statement, -⟩ := finding_eq y_found
    refine .inr ⟨x_declaration.trans y_declaration.symm, .inl ?_⟩
    rw [x_statement, y_statement]
    exact before
  · refine ((Spot.below_ascends _).filter _).imp ?_
    intro first second before x x_found y y_found
    obtain ⟨_, -, x_found⟩ := List.mem_flatMap.mp x_found
    obtain ⟨_, -, y_found⟩ := List.mem_flatMap.mp y_found
    obtain ⟨_, -, x_found⟩ := List.mem_filterMap.mp x_found
    obtain ⟨_, -, y_found⟩ := List.mem_filterMap.mp y_found
    left
    rw [(finding_eq x_found).1, (finding_eq y_found).1]
    exact before

theorem Finding.Holds.statement_placed (holds : a.Holds rules root) :
    ∃ number, a.entry.place = a.statement.place ++ [0, number] :=
  (mem_entry_spots holds.listed).2.2

theorem Finding.Holds.entry_inside (holds : a.Holds rules root) : a.entry ∈ a.declaration.below :=
  Spot.below_trans holds.inside (mem_entry_spots holds.listed).1

-- An entry stands in one statement, so two findings of one declaration have different entries.
theorem declaration_entries_distinct (rules : ExtractionRules) (root : SyntaxNode) :
    (findings rules root).Pairwise fun a b => a.declaration.place = b.declaration.place →
      a.entry.place ≠ b.entry.place := by
  refine (findings_precede rules root).imp_of_mem ?_
  intro a b a_found b_found precedes declarations entries
  obtain ⟨k, a_placed⟩ := ((mem_findings a).mp a_found).statement_placed
  obtain ⟨m, b_placed⟩ := ((mem_findings b).mp b_found).statement_placed
  have statements : a.statement.place = b.statement.place := by
    rw [a_placed, b_placed] at entries
    exact (List.append_inj' entries rfl).1
  rcases precedes with before | ⟨-, before | ⟨-, before⟩⟩
  · exact List.lt_irrefl _ (declarations ▸ before)
  · exact List.lt_irrefl _ (statements ▸ before)
  · exact List.lt_irrefl _ (entries ▸ before)

/-- An entry that counts in one declaration counts, for the same event, in any other in which some
entry does. -/
theorem denotes_elsewhere {owner other : Option String} {entry elsewhere : SyntaxNode}
    {s t : Subscription} (here : Denotes rules owner entry s)
    (there : Denotes rules other elsewhere t) :
    ∃ u, Denotes rules other entry u ∧ u.targetEvent = s.targetEvent := by
  cases here with
  | subscription key value rawKey handler typeName event keyed keyKind keyText parsed valued
    valueKind valueText named =>
    cases there with
    | subscription _ _ _ _ typeName _ _ _ _ _ _ _ _ _ owned typed =>
      exact ⟨_, .subscription key value rawKey handler typeName event keyed keyKind keyText parsed
        valued valueKind
        valueText named owned typed, rfl⟩

end Found

/-! When the order of extraction is the order of the source. -/
section Order
variable {rules : ExtractionRules} {root : SyntaxNode} {a b : Finding}

def findingsFor (rules : ExtractionRules) (root : SyntaxNode) (wanted : String → Bool) :
    List Finding :=
  (findings rules root).filter fun finding => wanted finding.subscription.targetEvent

theorem map_tree_findings (rules : ExtractionRules) (root : SyntaxNode) (event : String) :
    (mapTree rules root).get? event =
      nonEmpty? ((findingsFor rules root (· == event)).map (·.subscription)) := by
  rw [mapTree, Payload.aggregate_get, extracted_findings, List.filter_map]
  rfl

theorem pairwise_either {α : Type} {relation : α → α → Prop} {items : List α}
    (pairwise : items.Pairwise relation) {x y : α} (x_member : x ∈ items) (y_member : y ∈ items)
    (different : x ≠ y) : relation x y ∨ relation y x := by
  have symmetric : Std.Symm fun x y => relation x y ∨ relation y x := ⟨fun _ _ => Or.symm⟩
  have either : items.Pairwise fun x y => relation x y ∨ relation y x := pairwise.imp Or.inl
  exact either.forall x_member y_member different

/-- One finding is extracted before the other, although it does not stand before it in the source:
its declaration holds that of the other, or its statement holds that of the other in front of its
own entry. -/
def Finding.Overtakes (a b : Finding) : Prop :=
  a.declaration.Encloses b.declaration ∨ a.statement.Encloses b.statement ∧
    b.entry.place < a.entry.place

theorem mem_findings_for {wanted : String → Bool} {finding : Finding} :
    finding ∈ findingsFor rules root wanted ↔
      finding.Holds rules root ∧ wanted finding.subscription.targetEvent = true := by
  rw [findingsFor, List.mem_filter, mem_findings]

theorem entry_before_of_precedes (a_holds : a.Holds rules root) (b_holds : b.Holds rules root)
    (precedes : a.Precedes b) (straight : ¬a.Overtakes b) : a.entry.place < b.entry.place := by
  obtain ⟨k, a_placed⟩ := a_holds.statement_placed
  obtain ⟨m, b_placed⟩ := b_holds.statement_placed
  rcases precedes with before | ⟨same, before | ⟨-, before⟩⟩
  · -- Declarations that are apart have all their entries apart.
    have apart : ¬a.declaration.place <+: b.declaration.place := by
      intro above
      refine straight (.inl ⟨above, ?_⟩)
      intro equal
      exact List.lt_irrefl _ (equal ▸ before)
    obtain ⟨_, _, a_inside, -⟩ := Spot.mem_below.mp a_holds.entry_inside
    obtain ⟨_, _, b_inside, -⟩ := Spot.mem_below.mp b_holds.entry_inside
    rw [a_inside, b_inside]
    exact below_before before apart _ _
  · by_cases above : a.statement.place <+: b.statement.place
    · have encloses : a.statement.Encloses b.statement := by
        refine ⟨above, ?_⟩
        intro equal
        exact List.lt_irrefl _ (equal ▸ before)
      have different : a.entry.place ≠ b.entry.place := by
        intro equal
        rw [a_placed, b_placed] at equal
        exact encloses.2 (List.append_inj' equal rfl).1
      rcases Std.lt_trichotomy a.entry.place b.entry.place with less | equal | greater
      · exact less
      · exact absurd equal different
      · exact absurd (.inr ⟨encloses, greater⟩) straight
    · rw [a_placed, b_placed]
      exact below_before before above _ _
  · exact before

/-- Findings of nested declarations bring one entry twice. -/
theorem entry_twice {wanted : String → Bool} (a_found : a ∈ findingsFor rules root wanted)
    (b_found : b ∈ findingsFor rules root wanted)
    (encloses : a.declaration.Encloses b.declaration) :
    ∃ c ∈ findingsFor rules root wanted, c ≠ b ∧ c.entry = b.entry := by
  obtain ⟨a_holds, -⟩ := mem_findings_for.mp a_found
  obtain ⟨b_holds, b_wanted⟩ := mem_findings_for.mp b_found
  obtain ⟨u, denoted, event⟩ := denotes_elsewhere b_holds.denoted a_holds.denoted
  have nested : b.declaration ∈ a.declaration.below :=
    Spot.below_of_encloses a_holds.declared b_holds.declared encloses
  have holds : Finding.Holds rules root ⟨a.declaration, b.statement, b.entry, u⟩ :=
    ⟨a_holds.declared, a_holds.named, Spot.below_trans nested b_holds.inside, b_holds.returned,
      b_holds.listed, denoted⟩
  refine ⟨_, mem_findings_for.mpr ⟨holds, by rw [event]; exact b_wanted⟩, ?_, rfl⟩
  intro same
  exact encloses.2 (congrArg (·.declaration.place) same)

/-- If the entries ascend, no finding overtakes another. -/
theorem straight_of_ascends {wanted : String → Bool}
    (ascends : (findingsFor rules root wanted).Pairwise fun a b => a.entry.place < b.entry.place)
    (a_found : a ∈ findingsFor rules root wanted) (b_found : b ∈ findingsFor rules root wanted) :
    ¬a.Overtakes b := by
  have once : ∀ x ∈ findingsFor rules root wanted, ∀ y ∈ findingsFor rules root wanted,
      x.entry.place = y.entry.place → x = y := by
    have distinct : ((findingsFor rules root wanted).map (·.entry.place)).Nodup := by
      refine List.pairwise_map.mpr (ascends.imp ?_)
      intro x y before same
      exact List.lt_irrefl _ (same ▸ before)
    exact List.inj_on_of_nodup_map distinct
  have separate : ∀ x ∈ findingsFor rules root wanted, ∀ y ∈ findingsFor rules root wanted,
      ¬x.declaration.Encloses y.declaration := by
    intro x x_found y y_found encloses
    obtain ⟨c, c_found, different, entries⟩ := entry_twice x_found y_found encloses
    exact different (once c c_found y y_found (congrArg Spot.place entries))
  rintro (encloses | ⟨encloses, early⟩)
  · exact separate a a_found b b_found encloses
  · -- The entry of `b` comes first, so `b` is extracted first; but its statement comes later.
    have ordered : (findingsFor rules root wanted).Pairwise fun x y =>
        x.entry.place < y.entry.place ∧ x.Precedes y :=
      ascends.and ((findings_precede rules root).filter _)
    have different : b ≠ a := by
      rintro rfl
      exact List.lt_irrefl _ early
    rcases pairwise_either ordered b_found a_found different with ⟨-, precedes⟩ | ⟨late, -⟩
    · rcases precedes with before | ⟨-, before | ⟨same, -⟩⟩
      · have a_above :=
          (Spot.below_encloses (mem_findings_for.mp a_found).1.inside).1.trans encloses.1
        have b_above := (Spot.below_encloses (mem_findings_for.mp b_found).1.inside).1
        rcases List.prefix_or_prefix_of_prefix a_above b_above with above | above
        · exact prefix_not_after above before
        · refine separate b b_found a a_found ⟨above, ?_⟩
          intro equal
          exact List.lt_irrefl _ (equal ▸ before)
      · exact prefix_not_after encloses.1 before
      · exact encloses.2 (congrArg Spot.place same.symm)
    · exact List.lt_asymm early late

theorem entries_in_order_iff (rules : ExtractionRules) (root : SyntaxNode)
    (wanted : String → Bool) :
    ((findingsFor rules root wanted).map (·.entry)).Sublist (sourceEntries root) ↔
      ∀ a ∈ findingsFor rules root wanted, ∀ b ∈ findingsFor rules root wanted, ¬a.Overtakes b := by
  have among : ∀ entry ∈ (findingsFor rules root wanted).map (·.entry),
      entry ∈ sourceEntries root := by
    intro entry member
    obtain ⟨finding, found, rfl⟩ := List.mem_map.mp member
    exact (mem_findings_for.mp found).1.entry_found
  rw [sublist_iff_ascends (source_entries_ascend root) among, List.pairwise_map]
  constructor
  · intro ascends a a_found b b_found
    exact straight_of_ascends ascends a_found b_found
  · intro straight
    refine ((findings_precede rules root).filter _).imp_of_mem ?_
    intro a b a_found b_found precedes
    exact entry_before_of_precedes (mem_findings_for.mp a_found).1 (mem_findings_for.mp b_found).1
      precedes
      (straight a a_found b b_found)

end Order

-- With all events wanted this is the order of everything that is extracted, with one event that of
-- its group.
/-- What is extracted comes from entries of the source, one declaration taking an entry once at
most. For any events, the order of extraction is the order of the source, and no entry is taken
twice, exactly if no finding overtakes another one. -/
theorem extraction_follows_source (rules : ExtractionRules) (root : SyntaxNode) :
    ((sourceEntries root).map (·.node) = (preorder root).filter (·.kind = .arrayEntry) ∧
      (sourceEntries root).Pairwise fun a b => a.place < b.place) ∧
    (declarations rules root).flatMap (extract rules) = (findings rules root).map (·.subscription) ∧
    (∀ event, (mapTree rules root).get? event =
      nonEmpty? ((findingsFor rules root (· == event)).map (·.subscription))) ∧
    (∀ finding ∈ findings rules root, finding.entry ∈ sourceEntries root ∧
      Denotes rules finding.declaration.node.enclosingType finding.entry.node
        finding.subscription) ∧
    ((findings rules root).Pairwise fun a b =>
      a.declaration.place = b.declaration.place → a.entry.place ≠ b.entry.place) ∧
    ∀ wanted : String → Bool,
      ((findingsFor rules root wanted).map (·.entry)).Sublist (sourceEntries root) ↔
        ∀ a ∈ findingsFor rules root wanted, ∀ b ∈ findingsFor rules root wanted,
          ¬a.declaration.Encloses b.declaration ∧
            ¬(a.statement.Encloses b.statement ∧ b.entry.place < a.entry.place) := by
  refine ⟨⟨source_entries_nodes root, source_entries_ascend root⟩, extracted_findings rules root,
    map_tree_findings rules root, ?_, declaration_entries_distinct rules root, ?_⟩
  · intro finding found
    have holds := (mem_findings finding).mp found
    exact ⟨holds.entry_found, holds.denoted⟩
  · intro wanted
    rw [entries_in_order_iff]
    simp only [Finding.Overtakes, not_or]

def closureSource : String :=
  "<?php class A \x7b function events() \x7b return ['on_x.a' => 'f', 'k' => function () \x7b "
    ++ "return ['on_x.b' => 'g']; \x7d, 'on_x.c' => 'h']; \x7d \x7d"

def nestedMethods : SyntaxNode :=
  let string := fun text => SyntaxNode.node { kind := .stringLiteral, literalText := some text } []
  let method := fun owner children => SyntaxNode.node
    { kind := .methodDeclaration, declaredName := some "events", enclosingType := some owner }
      children
  .node { kind := .other } [method "A" [method "B" [.node { kind := .returnStatement } [
    .node { kind := .arrayLiteral }
      [.node { kind := .arrayEntry } [string "on_x.a", string "f"]]]]]]

def eventsRules : ExtractionRules := ⟨"events", ⟨["on_"], '.'⟩⟩

-- The closure stands between the two entries of the outer array, so its entry has a place between
-- theirs.
/-- The entry of the closure stands second in the source, but is extracted last. The entry of the
inner method is the only one, but is extracted twice. -/
theorem nested_code_out_of_order :
    ((mapTree eventsRules (Php.parse closureSource)).get? "on_x" =
        some [⟨"on_x.a", "on_x", "a", "A.f"⟩, ⟨"on_x.c", "on_x", "c", "A.h"⟩,
          ⟨"on_x.b", "on_x", "b", "A.g"⟩] ∧
      ¬((findingsFor eventsRules (Php.parse closureSource) (· == "on_x")).map (·.entry)).Sublist
        (sourceEntries (Php.parse closureSource))) ∧
    ((findings eventsRules nestedMethods).map (·.subscription.signature) = ["A.f", "B.f"] ∧
      (sourceEntries nestedMethods).map (·.place) = [[0, 0, 0, 0, 0]] ∧
      ¬((findings eventsRules nestedMethods).map (·.entry)).Sublist
        (sourceEntries nestedMethods)) := by
  refine ⟨⟨?_, ?_⟩, by decide +kernel, by decide +kernel, ?_⟩
  · rw [map_tree_findings]
    decide +kernel
  · intro sublist
    have places := sublist.map (·.place)
    revert places
    decide +kernel
  · intro sublist
    have places := sublist.map (·.place)
    revert places
    decide +kernel

end HandlerIndex
