import HandlerIndex.Payload

/-!
The payloads of the aggregator as maps from events to lists of subscriptions. Grouping keeps, for
each event, exactly its own subscriptions in the order in which they came, and the groups of a
payload put together again give the payload itself.
-/
namespace HandlerIndex

def groupOf? (groups : List Group) (event : String) : Option (List Subscription) :=
  (groups.find? (·.event == event)).map (·.subscriptions)

def nonEmpty? (subscriptions : List Subscription) : Option (List Subscription) :=
  if subscriptions = [] then none else some subscriptions

theorem non_empty_eq_some_iff {subscriptions held : List Subscription} :
    nonEmpty? subscriptions = some held ↔ subscriptions = held ∧ held ≠ [] := by
  rw [nonEmpty?]
  grind

@[simp] theorem group_of_cons (group : Group) (rest : List Group) (event : String) :
    groupOf? (group :: rest) event =
      if group.event = event then some group.subscriptions else groupOf? rest event := by
  by_cases same : group.event = event <;> simp [groupOf?, same]

theorem group_of_later (groups : List Group) (event : String)
    (later : ∀ group ∈ groups, event < group.event) : groupOf? groups event = none := by
  induction groups with
  | nil => rfl
  | cons group rest ih =>
    have different : group.event ≠ event := (String.ne_of_lt (later group List.mem_cons_self)).symm
    simp only [group_of_cons, different, ↓reduceIte]
    exact ih fun other member => later other (List.mem_cons_of_mem group member)

theorem group_of_eq_some_iff (groups : List Group)
    (ordered : groups.Pairwise (fun a b => a.event < b.event)) (event : String)
    (subscriptions : List Subscription) :
    groupOf? groups event = some subscriptions ↔ ⟨event, subscriptions⟩ ∈ groups := by
  induction groups with
  | nil => simp [groupOf?]
  | cons group rest ih =>
    obtain ⟨first, tail⟩ := List.pairwise_cons.mp ordered
    rw [group_of_cons, List.mem_cons]
    by_cases same : group.event = event
    · have absent : ⟨event, subscriptions⟩ ∉ rest :=
        fun member => String.ne_of_lt (first _ member) same
      rw [if_pos same, Option.some.injEq]
      constructor
      · intro held
        rw [← same, ← held]
        exact Or.inl rfl
      · rintro (equal | inside)
        · rw [← equal]
        · exact absurd inside absent
    · have other : (⟨event, subscriptions⟩ : Group) ≠ group := fun equal => same (by rw [← equal])
      rw [if_neg same, ih tail]
      simp [other]

-- The order matters only where the event is put before a greater one: it can then stand nowhere
-- behind it.
theorem insert_group_of (event : String) (added : List Subscription) (groups : List Group)
    (ordered : groups.Pairwise (fun a b => a.event < b.event)) (sought : String) :
    groupOf? (insertGroup event added groups) sought =
      if sought = event then some ((groupOf? groups sought).getD [] ++ added)
      else groupOf? groups sought := by
  induction groups with
  | nil =>
    by_cases same : sought = event
    · simp [insertGroup, groupOf?, same]
    · simp [insertGroup, groupOf?, same, Ne.symm same]
  | cons group rest ih =>
    obtain ⟨first, tail⟩ := List.pairwise_cons.mp ordered
    simp only [insertGroup]
    by_cases before : event < group.event
    · rw [if_pos before]
      have absent : groupOf? (group :: rest) event = none := by
        apply group_of_later
        intro other member
        rcases List.mem_cons.mp member with equal | inside
        · exact equal ▸ before
        · exact String.lt_trans before (first other inside)
      by_cases same : sought = event
      · rw [same, absent]
        simp
      · simp [same, Ne.symm same]
    · rw [if_neg before]
      by_cases here : event = group.event
      · rw [if_pos here]
        by_cases same : sought = event
        · simp [same, here]
        · simp [same, ← here, Ne.symm same]
      · rw [if_neg here, group_of_cons, group_of_cons, ih tail]
        by_cases head : group.event = sought
        · have different : sought ≠ event := fun same => here (same ▸ head.symm)
          simp [head, different]
        · simp [head]

theorem insert_group_last (event : String) (added : List Subscription) (groups : List Group)
    (greatest : ∀ group ∈ groups, group.event < event) :
    insertGroup event added groups = groups ++ [⟨event, added⟩] := by
  induction groups with
  | nil => rfl
  | cons group rest ih =>
    have before := greatest group List.mem_cons_self
    have notBefore : ¬ event < group.event := String.lt_asymm before
    have different : event ≠ group.event := (String.ne_of_lt before).symm
    have tail := ih fun other member => greatest other (List.mem_cons_of_mem group member)
    simp [insertGroup, notBefore, different, tail]

namespace Payload

theorem get_eq_some_iff (payload : Payload) (event : String) (subscriptions : List Subscription) :
    payload.get? event = some subscriptions ↔ ⟨event, subscriptions⟩ ∈ payload.groups :=
  group_of_eq_some_iff payload.groups payload.ordered event subscriptions

@[simp] theorem insert_get (payload : Payload) (event : String) (added : List Subscription)
    (sought : String) :
    (payload.insert event added).get? sought =
      if sought = event then some ((payload.get? sought).getD [] ++ added)
      else payload.get? sought :=
  insert_group_of event added payload.groups payload.ordered sought

-- The induction is over the subscriptions still to come, so the payload so far is arbitrary.
theorem aggregate_onto_get (payload : Payload) (subscriptions : List Subscription)
    (event : String) :
    (subscriptions.foldl add payload).get? event =
      match nonEmpty? (subscriptions.filter (·.targetEvent == event)) with
      | none => payload.get? event
      | some own => some ((payload.get? event).getD [] ++ own) := by
  induction subscriptions generalizing payload with
  | nil => rfl
  | cons s rest ih =>
    rw [List.foldl_cons, ih, add, insert_get]
    by_cases same : s.targetEvent = event
    · by_cases none : rest.filter (·.targetEvent == event) = []
      · simp [nonEmpty?, same, none]
      · simp [nonEmpty?, same, none]
    · simp [same, Ne.symm same]

/-- Grouping keeps the subscriptions of each event, in their order. -/
@[simp] theorem aggregate_get (subscriptions : List Subscription) (event : String) :
    (aggregate subscriptions).get? event =
      nonEmpty? (subscriptions.filter (·.targetEvent == event)) := by
  have absent : empty.get? event = none := rfl
  rw [aggregate, aggregate_onto_get, absent]
  cases nonEmpty? (subscriptions.filter (·.targetEvent == event)) with
  | none => rfl
  | some own => simp

theorem of_groups_onto (payload : Payload) (later : List Group)
    (ordered : (payload.groups ++ later).Pairwise (fun a b => a.event < b.event)) :
    (later.foldl (fun payload group => payload.insert group.event group.subscriptions)
      payload).groups =
      payload.groups ++ later := by
  induction later generalizing payload with
  | nil => simp
  | cons group rest ih =>
    have greatest : ∀ held ∈ payload.groups, held.event < group.event := fun held member =>
      (List.pairwise_append.mp ordered).2.2 held member group List.mem_cons_self
    have inserted : (payload.insert group.event group.subscriptions).groups =
        payload.groups ++ [group] :=
      insert_group_last group.event group.subscriptions payload.groups greatest
    have regrouped : payload.groups ++ group :: rest = (payload.groups ++ [group]) ++ rest := by
      simp
    rw [List.foldl_cons, ih _ (by rw [inserted, ← regrouped]; exact ordered), inserted, regrouped]

@[simp] theorem of_groups_groups (payload : Payload) : ofGroups payload.groups = payload := by
  have same : (ofGroups payload.groups).groups = payload.groups :=
    of_groups_onto empty payload.groups payload.ordered
  cases payload with
  | mk groups ordered =>
    cases rebuilt : ofGroups groups with
    | mk others _ =>
      rw [rebuilt] at same
      cases same
      rfl

end Payload
end HandlerIndex
