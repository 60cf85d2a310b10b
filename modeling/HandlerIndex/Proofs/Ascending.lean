/-!
Lists of members with different names, as payloads and tables are made of, and their ascending
order. A name finds its member, sorting puts the members into this order, and a list in this order
is determined by its members.
-/
namespace HandlerIndex
variable {α β : Type}

theorem find_distinct (name : α → String) {values : List α}
    (distinct : values.Pairwise fun a b => name a ≠ name b) {value : α} (member : value ∈ values) :
    values.find? (fun other => name other == name value) = some value := by
  induction values with
  | nil => cases member
  | cons head rest ih =>
    obtain ⟨first, tail⟩ := List.pairwise_cons.mp distinct
    rcases List.mem_cons.mp member with equal | inside
    · simp [equal]
    · simp [first value inside, ih tail inside]

def Ascending (name : α → String) (values : List α) : Prop :=
  values.Pairwise fun a b => name a < name b

theorem merge_sort_ordered (name : α → String) (values : List α) :
    (values.mergeSort fun a b => decide (name a ≤ name b)).Pairwise fun a b => name a ≤ name b := by
  have transitive : ∀ a b c, decide (name a ≤ name b) = true → decide (name b ≤ name c) = true →
      decide (name a ≤ name c) = true := by
    intro a b c first second
    simp only [decide_eq_true_eq] at first second ⊢
    exact String.le_trans first second
  have total : ∀ a b, (decide (name a ≤ name b) || decide (name b ≤ name a)) = true := by
    intro a b
    simp only [Bool.or_eq_true, decide_eq_true_eq]
    exact String.le_total (name a) (name b)
  exact (List.pairwise_mergeSort transitive total values).imp of_decide_eq_true

theorem merge_sort_ascending (name : α → String) (values : List α)
    (distinct : values.Pairwise fun a b => name a ≠ name b) :
    Ascending name (values.mergeSort fun a b => decide (name a ≤ name b)) := by
  have apart := distinct.perm (List.mergeSort_perm values fun a b => decide (name a ≤ name b)).symm
    fun different => different.symm
  refine ((merge_sort_ordered name values).and apart).imp ?_
  rintro a b ⟨before, different⟩
  exact Std.lt_of_le_of_ne before different

/-- Sorted names do not show the order that they had before. -/
theorem merge_sort_of_perm {left right : List String} (rearranged : left.Perm right) :
    (left.mergeSort fun a b => decide (a ≤ b)) = right.mergeSort fun a b => decide (a ≤ b) := by
  refine List.Perm.eq_of_pairwise ?_ (merge_sort_ordered id left) (merge_sort_ordered id right)
    ((List.mergeSort_perm _ _).trans (rearranged.trans (List.mergeSort_perm _ _).symm))
  intro a b _ _ before after
  exact String.le_antisymm before after

theorem Ascending.nodup {name : α → String} {values : List α} (ascending : Ascending name values) :
    values.Nodup :=
  ascending.imp fun before same => String.ne_of_lt before (congrArg name same)

theorem ascending_ext (name : α → String) {left right : List α} (leftOrder : Ascending name left)
    (rightOrder : Ascending name right) (same : ∀ value, value ∈ left ↔ value ∈ right) :
    left = right := by
  have rearranged := (List.perm_ext_iff_of_nodup leftOrder.nodup rightOrder.nodup).mpr same
  refine List.Perm.eq_of_pairwise ?_ leftOrder rightOrder rearranged
  intro a b _ _ before after
  exact absurd after (String.lt_asymm before)

-- A member that has a value keeps its name, so leaving members out and changing the rest keeps the
-- order.
theorem Ascending.filter_map {name : α → String} {other : β → String} {values : List α}
    (ascending : Ascending name values) (change : α → Option β)
    (named : ∀ a b, change a = some b → other b = name a) :
    Ascending other (values.filterMap change) := by
  refine List.Pairwise.filterMap change ?_ ascending
  intro a b before a' changedA b' changedB
  rw [named a a' changedA, named b b' changedB]
  exact before

theorem map_m_ok {ε : Type} (action : α → Except ε β) (result : α → β) (values : List α)
    (each : ∀ value ∈ values, action value = .ok (result value)) :
    values.mapM action = .ok (values.map result) := by
  induction values with
  | nil => rfl
  | cons value rest ih =>
    rw [List.mapM_cons, each value List.mem_cons_self,
      ih fun other member => each other (List.mem_cons_of_mem value member)]
    rfl

theorem map_m_keeps {ε : Type} {action : α → Except ε β} (key : β → α)
    (each : ∀ value result, action value = .ok result → key result = value) {values : List α}
    {results : List β} (done : values.mapM action = .ok results) : results.map key = values := by
  induction values generalizing results with
  | nil =>
    cases done
    rfl
  | cons value rest ih =>
    rw [List.mapM_cons] at done
    cases first : action value with
    | error fault =>
      rw [first] at done
      cases done
    | ok result =>
      cases others : rest.mapM action with
      | error fault =>
        rw [first, others] at done
        cases done
      | ok later =>
        rw [first, others] at done
        cases done
        rw [List.map_cons, each value result first, ih others]

end HandlerIndex
