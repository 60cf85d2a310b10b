import HandlerIndex.Proofs.Ascending
import HandlerIndex.Proofs.Grouping
import HandlerIndex.Proofs.TextBytes

/-!
What the aggregator keeps and what it forgets. A payload is determined by what stands under each
event, and an aggregated one has there the subscriptions to that event in the order in which they
came. So two lists are grouped alike exactly if they differ only in how the subscriptions to
different events are interleaved.
-/
namespace HandlerIndex

/-- Where every subscription stands in the group of its own event, the ones to an event are its
group. -/
theorem filter_groups (groups : List Group) (ordered : groups.Pairwise fun a b => a.event < b.event)
    (own : ∀ group ∈ groups, ∀ s ∈ group.subscriptions, s.targetEvent = group.event)
    (event : String) :
    (groups.flatMap (·.subscriptions)).filter (·.targetEvent == event) =
      (groupOf? groups event).getD [] := by
  induction groups with
  | nil => rfl
  | cons group rest ih =>
    obtain ⟨first, tail⟩ := List.pairwise_cons.mp ordered
    have here := own group List.mem_cons_self
    have later := ih tail fun other member => own other (List.mem_cons_of_mem group member)
    rw [List.flatMap_cons, List.filter_append, later, group_of_cons]
    by_cases same : group.event = event
    · have kept : group.subscriptions.filter (·.targetEvent == event) = group.subscriptions := by
        rw [List.filter_eq_self]
        intro s member
        rw [here s member, same, beq_self_eq_true]
      have absent : groupOf? rest event = none :=
        group_of_later rest event fun other member => same ▸ first other member
      rw [kept, absent, if_pos same]
      exact List.append_nil _
    · have dropped : group.subscriptions.filter (·.targetEvent == event) = [] := by
        rw [List.filter_eq_nil_iff]
        intro s member
        rw [here s member, beq_iff_eq]
        exact same
      rw [dropped, if_neg same, List.nil_append]

namespace Payload

theorem ext_get {left right : Payload} (same : ∀ event, left.get? event = right.get? event) :
    left = right := by
  have groups : left.groups = right.groups := by
    refine ascending_ext Group.event left.ordered right.ordered ?_
    intro group
    rw [← left.get_eq_some_iff, ← right.get_eq_some_iff, same]
  cases left
  cases right
  cases groups
  rfl

/-! How many subscriptions there are. -/
section Counts

theorem insert_group_count (event : String) (added : List Subscription) (groups : List Group) :
    (insertGroup event added groups).foldr
        (fun group total => group.subscriptions.length + total) 0 =
      groups.foldr (fun group total => group.subscriptions.length + total) 0 + added.length := by
  induction groups with
  | nil => simp [insertGroup]
  | cons group rest ih =>
    rw [insertGroup]
    split
    · simp only [List.foldr_cons]
      omega
    · split
      · simp only [List.foldr_cons, List.length_append]
        omega
      · simp only [List.foldr_cons, ih]
        omega

@[simp] theorem insert_count (payload : Payload) (event : String) (added : List Subscription) :
    (payload.insert event added).subscriptionCount = payload.subscriptionCount + added.length :=
  insert_group_count event added payload.groups

theorem aggregate_onto_count (payload : Payload) (subscriptions : List Subscription) :
    (subscriptions.foldl add payload).subscriptionCount =
      payload.subscriptionCount + subscriptions.length := by
  induction subscriptions generalizing payload with
  | nil => rfl
  | cons s rest ih =>
    rw [List.foldl_cons, ih, add, insert_count, List.length_singleton, List.length_cons]
    omega

end Counts

/-! Aggregated payloads. -/
section Aggregated
variable (xs ys : List Subscription)

def toEvent (event : String) (subscriptions : List Subscription) : List Subscription :=
  subscriptions.filter (·.targetEvent == event)

theorem mem_aggregate_groups {group : Group} (member : group ∈ (aggregate xs).groups) :
    group.subscriptions = toEvent group.event xs ∧ group.subscriptions ≠ [] := by
  have found := ((aggregate xs).get_eq_some_iff group.event group.subscriptions).mpr member
  rw [aggregate_get, non_empty_eq_some_iff] at found
  exact ⟨found.1.symm, found.2⟩

@[simp] theorem non_empty_eq_iff {left right : List Subscription} :
    nonEmpty? left = nonEmpty? right ↔ left = right := by
  unfold nonEmpty?
  grind

theorem aggregate_eq_iff :
    aggregate xs = aggregate ys ↔ ∀ event, toEvent event xs = toEvent event ys := by
  constructor
  · intro same event
    have got := congrArg (·.get? event) same
    simpa [toEvent] using got
  · intro same
    refine ext_get fun event => ?_
    simpa [toEvent] using same event

theorem aggregate_append_get (event : String) :
    (aggregate (xs ++ ys)).get? event =
      ((aggregate xs).get? event).merge (· ++ ·) ((aggregate ys).get? event) := by
  rw [aggregate_get, aggregate_get, aggregate_get, List.filter_append]
  unfold nonEmpty?
  by_cases first : xs.filter (·.targetEvent == event) = []
  · by_cases second : ys.filter (·.targetEvent == event) = [] <;> simp [first, second]
  · by_cases second : ys.filter (·.targetEvent == event) = [] <;> simp [first, second]

theorem aggregate_groups :
    aggregate ((aggregate xs).groups.flatMap (·.subscriptions)) = aggregate xs := by
  have own : ∀ group ∈ (aggregate xs).groups, ∀ s ∈ group.subscriptions, s.targetEvent =
      group.event := by
    intro group member s among
    rw [(mem_aggregate_groups xs member).1, toEvent, List.mem_filter, beq_iff_eq] at among
    exact among.2
  rw [aggregate_eq_iff]
  intro event
  have stored : groupOf? (aggregate xs).groups event = nonEmpty? (toEvent event xs) :=
    aggregate_get xs event
  rw [toEvent, filter_groups _ (aggregate xs).ordered own, stored, nonEmpty?]
  by_cases nothing : toEvent event xs = []
  · rw [if_pos nothing]
    exact nothing.symm
  · rw [if_neg nothing]
    rfl

end Aggregated

/-- Grouping keeps the subscriptions to each event in their order, without empty groups and
without loss, and orders the events by their bytes. It forgets exactly how the events were
interleaved; grouping two lists one after the other joins their groups; and grouping once more
changes nothing. -/
theorem grouping_forgets_interleaving (xs ys : List Subscription) :
    (∀ event, (aggregate xs).get? event = nonEmpty? (toEvent event xs)) ∧
    ((aggregate xs).groups.Pairwise fun a b => Text.toBytes a.event < Text.toBytes b.event) ∧
    (∀ group ∈ (aggregate xs).groups, group.subscriptions ≠ []) ∧
    (aggregate xs).subscriptionCount = xs.length ∧
    (aggregate xs = aggregate ys ↔ ∀ event, toEvent event xs = toEvent event ys) ∧
    (∀ event, (aggregate (xs ++ ys)).get? event =
      ((aggregate xs).get? event).merge (· ++ ·) ((aggregate ys).get? event)) ∧
    aggregate ((aggregate xs).groups.flatMap (·.subscriptions)) = aggregate xs := by
  refine ⟨aggregate_get xs, ?_, fun group member => (mem_aggregate_groups xs member).2, ?_,
    aggregate_eq_iff xs ys, aggregate_append_get xs ys, aggregate_groups xs⟩
  · exact (aggregate xs).ordered.imp fun before => (Text.to_bytes_lt_iff _ _).mpr before
  · rw [aggregate, aggregate_onto_count]
    exact Nat.zero_add _

def interleaved : List Subscription :=
  [⟨"b.s", "b", "s", "T.f"⟩, ⟨"a.s", "a", "s", "T.g"⟩, ⟨"b.s", "b", "s", "T.f"⟩,
    ⟨"b.t", "b", "t", "T.h"⟩]

theorem interleaved_grouped :
    ⟨"b", toEvent "b" interleaved⟩ ∈ (aggregate interleaved).groups ∧ toEvent "b" interleaved ≠ [] ∧
    (aggregate interleaved).subscriptionCount = 4 ∧
      aggregate interleaved ≠ aggregate interleaved.reverse := by
  obtain ⟨-, -, filled, count, alike, -, -⟩ :=
    grouping_forgets_interleaving interleaved interleaved.reverse
  have member : ⟨"b", toEvent "b" interleaved⟩ ∈ (aggregate interleaved).groups := by decide +kernel
  refine ⟨member, filled _ member, count, ?_⟩
  intro same
  have reversed := alike.mp same "b"
  revert reversed
  decide +kernel

end Payload
end HandlerIndex
