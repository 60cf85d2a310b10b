import HandlerIndex.Subscription

/-!
Payloads, which the aggregator makes: what one file subscribes to, grouped by target event. The
groups stand in ascending order of their events, one group an event, and inside a group the
subscriptions keep the order in which they came. The order of the groups is part of the type, so two
payloads with the same groups are equal. Left out is how a payload is kept: a row of the store holds
one group.
-/
namespace HandlerIndex

structure Group where
  event : String
  subscriptions : List Subscription
  deriving DecidableEq, Repr

/-- Adds subscriptions to the group of an event, which is made at its place if it is missing. -/
def insertGroup (event : String) (added : List Subscription) : List Group → List Group
  | [] => [⟨event, added⟩]
  | group :: rest =>
    if event < group.event then ⟨event, added⟩ :: group :: rest
    else if event = group.event then ⟨group.event, group.subscriptions ++ added⟩ :: rest
    else group :: insertGroup event added rest

-- An insertion brings no event but its own, so a bound on the old events is a bound on the new
-- ones.
theorem insert_group_events (event : String) (added : List Subscription) (groups : List Group)
    (group : Group) (member : group ∈ insertGroup event added groups) :
    group.event = event ∨ ∃ held ∈ groups, held.event = group.event := by
  induction groups with
  | nil => exact Or.inl (by simp_all [insertGroup])
  | cons head rest ih =>
    simp only [insertGroup] at member
    split at member
    · rcases List.mem_cons.mp member with equal | inside
      · exact Or.inl (by rw [equal])
      · exact Or.inr ⟨group, inside, rfl⟩
    · split at member
      · rcases List.mem_cons.mp member with equal | inside
        · exact Or.inr ⟨head, List.mem_cons_self, by rw [equal]⟩
        · exact Or.inr ⟨group, List.mem_cons_of_mem head inside, rfl⟩
      · rcases List.mem_cons.mp member with equal | inside
        · exact Or.inr ⟨head, List.mem_cons_self, by rw [equal]⟩
        · rcases ih inside with own | ⟨held, old, same⟩
          · exact Or.inl own
          · exact Or.inr ⟨held, List.mem_cons_of_mem head old, same⟩

theorem insert_group_ordered (event : String) (added : List Subscription) (groups : List Group)
    (ordered : groups.Pairwise (fun a b => a.event < b.event)) :
    (insertGroup event added groups).Pairwise (fun a b => a.event < b.event) := by
  induction groups with
  | nil => simp [insertGroup]
  | cons head rest ih =>
    obtain ⟨first, tail⟩ := List.pairwise_cons.mp ordered
    simp only [insertGroup]
    by_cases before : event < head.event
    · rw [if_pos before]
      refine List.pairwise_cons.mpr ⟨fun group member => ?_, ordered⟩
      rcases List.mem_cons.mp member with equal | inside
      · exact equal ▸ before
      · exact String.lt_trans before (first group inside)
    · rw [if_neg before]
      by_cases same : event = head.event
      · rw [if_pos same]
        exact List.pairwise_cons.mpr ⟨first, tail⟩
      · rw [if_neg same]
        have after : head.event < event :=
          Std.lt_of_le_of_ne (String.not_lt.mp before) (Ne.symm same)
        refine List.pairwise_cons.mpr ⟨fun group member => ?_, ih tail⟩
        rcases insert_group_events event added rest group member with own | ⟨held, old, named⟩
        · exact own ▸ after
        · exact named ▸ first held old

structure Payload where
  groups : List Group
  ordered : groups.Pairwise (fun a b => a.event < b.event)
  deriving DecidableEq

namespace Payload

def empty : Payload := ⟨[], List.Pairwise.nil⟩

def insert (payload : Payload) (event : String) (added : List Subscription) : Payload :=
  ⟨insertGroup event added payload.groups, insert_group_ordered event added _ payload.ordered⟩

def ofGroups (groups : List Group) : Payload :=
  groups.foldl (fun payload group => payload.insert group.event group.subscriptions) empty

def add (payload : Payload) (s : Subscription) : Payload := payload.insert s.targetEvent [s]

def aggregate (subscriptions : List Subscription) : Payload := subscriptions.foldl add empty

def get? (payload : Payload) (event : String) : Option (List Subscription) :=
  (payload.groups.find? (·.event == event)).map (·.subscriptions)

def isEmpty (payload : Payload) : Bool := payload.groups.isEmpty

def eventCount (payload : Payload) : Nat := payload.groups.length

def subscriptionCount (payload : Payload) : Nat :=
  payload.groups.foldr (fun group total => group.subscriptions.length + total) 0

end Payload
end HandlerIndex
