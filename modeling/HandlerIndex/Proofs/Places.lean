import HandlerIndex.Proofs.Preorder
import Mathlib.Data.List.Sort

/-!
The nodes of the extractor's trees at their places. Equal nodes can stand at several places of a
tree, so a node is told by its place: the numbers of the children that lead to it from the root. The
order of places puts a node before what is below it and a child before the next one, and that is the
order in which the nodes are visited.
-/
namespace HandlerIndex

/-! Order of places. -/
section Order
variable {first second : List Nat}

theorem prefix_not_after (above : first <+: second) : ¬second < first := by
  obtain ⟨way, rfl⟩ := above
  induction first with
  | nil => exact List.not_lt_nil _
  | cons number rest ih =>
    rw [List.cons_append, List.cons_lt_cons_iff]
    rintro (less | ⟨-, less⟩)
    · exact Nat.lt_irrefl number less
    · exact ih less

/-- Where neither of two places is above the other, all below the first comes before all below the
second. -/
theorem below_before (before : first < second) (apart : ¬first <+: second) (way other : List Nat) :
    first ++ way < second ++ other := by
  induction first generalizing second with
  | nil => exact absurd List.nil_prefix apart
  | cons number rest ih =>
    cases second with
    | nil => exact absurd before (List.not_lt_nil _)
    | cons next more =>
      rw [List.cons_append, List.cons_append, List.cons_lt_cons_iff]
      rcases List.cons_lt_cons_iff.mp before with less | ⟨rfl, later⟩
      · exact .inl less
      · refine .inr ⟨rfl, ih later ?_⟩
        intro above
        exact apart (List.cons_prefix_cons.mpr ⟨rfl, above⟩)

end Order

namespace SyntaxNode

def nodeAt? : List Nat → SyntaxNode → Option SyntaxNode
  | [], tree => some tree
  | number :: rest, tree => tree.children[number]?.bind (nodeAt? rest)

@[simp] theorem node_at_append (first second : List Nat) (tree : SyntaxNode) :
    nodeAt? (first ++ second) tree = (nodeAt? first tree).bind (nodeAt? second) := by
  induction first generalizing tree with
  | nil => rfl
  | cons number rest ih =>
    simp only [List.cons_append, nodeAt?]
    cases tree.children[number]? with
    | none => rfl
    | some child => exact ih child

structure Spot where
  place : List Nat
  node : SyntaxNode

mutual

def spots (place : List Nat) : SyntaxNode → List Spot
  | node label children => ⟨place, node label children⟩ :: spotsFrom place 0 children

def spotsFrom (place : List Nat) (number : Nat) : List SyntaxNode → List Spot
  | [] => []
  | tree :: rest => spots (place ++ [number]) tree ++ spotsFrom place (number + 1) rest

end

mutual

theorem spots_nodes (place : List Nat) :
    (tree : SyntaxNode) → (spots place tree).map (·.node) = preorder tree
  | node label children => by
    rw [spots, List.map_cons, spots_from_nodes place 0 children, preorder]

theorem spots_from_nodes (place : List Nat) (number : Nat) : (trees : List SyntaxNode) →
    (spotsFrom place number trees).map (·.node) = preorderAll trees
  | [] => rfl
  | tree :: rest => by
    rw [spotsFrom, List.map_append, spots_nodes _ tree, spots_from_nodes place _ rest, preorderAll]

end

mutual

theorem mem_spots (place : List Nat) (spot : Spot) : (tree : SyntaxNode) →
    (spot ∈ spots place tree ↔ ∃ way, spot.place = place ++ way ∧ nodeAt? way tree = some spot.node)
  | node label children => by
    rw [spots, List.mem_cons, mem_spots_from place spot 0 children]
    constructor
    · rintro (rfl | ⟨step, way, placed, leads⟩)
      · exact ⟨[], (List.append_nil place).symm, rfl⟩
      · rw [Nat.zero_add] at placed
        exact ⟨step :: way, placed, leads⟩
    · rintro ⟨way, placed, leads⟩
      cases way with
      | nil =>
        left
        rw [List.append_nil] at placed
        rw [← placed, Option.some.inj leads]
      | cons step way =>
        refine .inr ⟨step, way, ?_, leads⟩
        rw [Nat.zero_add]
        exact placed

theorem mem_spots_from (place : List Nat) (spot : Spot) (number : Nat) : (trees : List SyntaxNode) →
    (spot ∈ spotsFrom place number trees ↔ ∃ step way,
      spot.place = place ++ (number + step) :: way ∧
        trees[step]?.bind (nodeAt? way) = some spot.node)
  | [] => by simp [spotsFrom]
  | tree :: rest => by
    rw [spotsFrom, List.mem_append, mem_spots _ spot tree,
      mem_spots_from place spot (number + 1) rest]
    constructor
    · rintro (⟨way, placed, leads⟩ | ⟨step, way, placed, leads⟩)
      · exact ⟨0, way, by rw [placed, List.append_assoc]; rfl, leads⟩
      · refine ⟨step + 1, way, ?_, leads⟩
        rw [placed, Nat.add_assoc, Nat.add_comm 1 step]
    · rintro ⟨step, way, placed, leads⟩
      cases step with
      | zero =>
        refine .inl ⟨way, ?_, leads⟩
        rw [placed, List.append_assoc]
        rfl
      | succ step =>
        refine .inr ⟨step, way, ?_, leads⟩
        rw [placed, Nat.add_assoc, Nat.add_comm 1 step]

end

mutual

/-- The visited places ascend. -/
theorem spots_ascend (place : List Nat) : (tree : SyntaxNode) →
    (spots place tree).Pairwise fun a b => a.place < b.place
  | node label children => by
    rw [spots, List.pairwise_cons]
    refine ⟨?_, spots_from_ascend place 0 children⟩
    intro spot member
    obtain ⟨step, way, placed, -⟩ := (mem_spots_from place spot 0 children).mp member
    have after : place ++ [] < place ++ (0 + step) :: way :=
      List.append_left_lt (List.nil_lt_cons _ _)
    rw [List.append_nil] at after
    rw [placed]
    exact after

theorem spots_from_ascend (place : List Nat) (number : Nat) : (trees : List SyntaxNode) →
    (spotsFrom place number trees).Pairwise fun a b => a.place < b.place
  | [] => .nil
  | tree :: rest => by
    rw [spotsFrom, List.pairwise_append]
    refine ⟨spots_ascend _ tree, spots_from_ascend place _ rest, ?_⟩
    intro a a_member b b_member
    obtain ⟨way, a_placed, -⟩ := (mem_spots _ a tree).mp a_member
    obtain ⟨step, other, b_placed, -⟩ := (mem_spots_from place b _ rest).mp b_member
    rw [a_placed, b_placed, List.append_assoc]
    refine List.append_left_lt (List.cons_lt_cons_iff.mpr (.inl ?_))
    omega

end

namespace Spot
variable {spot other : Spot}

def below (spot : Spot) : List Spot := spotsFrom spot.place 0 spot.node.children

def children (spot : Spot) : List Spot :=
  spot.node.children.mapIdx fun number child => ⟨spot.place ++ [number], child⟩

def Encloses (spot other : Spot) : Prop := spot.place <+: other.place ∧ spot.place ≠ other.place

@[simp] theorem below_nodes (spot : Spot) : spot.below.map (·.node) = strictlyBelow spot.node :=
  spots_from_nodes spot.place 0 spot.node.children

theorem below_ascends (spot : Spot) : spot.below.Pairwise fun a b => a.place < b.place :=
  spots_from_ascend spot.place 0 spot.node.children

theorem mem_below : other ∈ spot.below ↔
    ∃ number way, other.place = spot.place ++ number :: way ∧
      nodeAt? (number :: way) spot.node = some other.node := by
  rw [below, mem_spots_from]
  simp only [Nat.zero_add]
  rfl

theorem mem_children : other ∈ spot.children ↔
    ∃ number, other.place = spot.place ++ [number] ∧
      spot.node.children[number]? = some other.node := by
  rw [children, List.mem_mapIdx]
  constructor
  · rintro ⟨number, bound, rfl⟩
    exact ⟨number, rfl, List.getElem?_eq_getElem bound⟩
  · rintro ⟨number, placed, found⟩
    obtain ⟨bound, same⟩ := List.getElem?_eq_some_iff.mp found
    refine ⟨number, bound, ?_⟩
    rw [same, ← placed]

@[simp] theorem children_nodes (spot : Spot) : spot.children.map (·.node) = spot.node.children := by
  apply List.ext_getElem
  · simp [children]
  · simp [children]

theorem children_ascend (spot : Spot) : spot.children.Pairwise fun a b => a.place < b.place := by
  rw [children, List.pairwise_iff_getElem]
  intro i j i_bound j_bound less
  rw [List.getElem_mapIdx, List.getElem_mapIdx]
  exact List.append_left_lt (List.cons_lt_cons_iff.mpr (.inl less))

theorem child_below (member : other ∈ spot.children) : other ∈ spot.below := by
  obtain ⟨number, placed, found⟩ := mem_children.mp member
  refine mem_below.mpr ⟨number, [], placed, ?_⟩
  rw [nodeAt?, found]
  rfl

theorem below_trans {third : Spot} (first : other ∈ spot.below) (second : third ∈ other.below) :
    third ∈ spot.below := by
  obtain ⟨number, way, placed, leads⟩ := mem_below.mp first
  obtain ⟨next, further, placed_further, leads_further⟩ := mem_below.mp second
  refine mem_below.mpr ⟨number, way ++ next :: further, ?_, ?_⟩
  · rw [placed_further, placed, List.append_assoc, List.cons_append]
  · rw [← List.cons_append, node_at_append, leads]
    exact leads_further

theorem below_encloses (member : other ∈ spot.below) : spot.Encloses other := by
  obtain ⟨number, way, placed, -⟩ := mem_below.mp member
  refine ⟨⟨_, placed.symm⟩, ?_⟩
  rw [placed]
  simp

/-- Of two nodes below a third, one is below the other if its place tells so. -/
theorem below_of_encloses {third : Spot} (first : other ∈ spot.below) (second : third ∈ spot.below)
    (encloses : other.Encloses third) : third ∈ other.below := by
  obtain ⟨number, way, placed, leads⟩ := mem_below.mp first
  obtain ⟨next, further, placed_further, leads_further⟩ := mem_below.mp second
  obtain ⟨⟨rest, whole⟩, apart⟩ := encloses
  cases rest with
  | nil =>
    rw [List.append_nil] at whole
    exact absurd whole apart
  | cons step more =>
    refine mem_below.mpr ⟨step, more, whole.symm, ?_⟩
    rw [placed, placed_further, List.append_assoc, List.append_cancel_left_eq] at whole
    rw [← whole, node_at_append, leads] at leads_further
    exact leads_further

end Spot
end SyntaxNode

/-- Nodes taken from an ascending list of places are a part of it in its order exactly if their
places ascend. -/
theorem sublist_iff_ascends {part whole : List SyntaxNode.Spot}
    (ascends : whole.Pairwise fun a b => a.place < b.place) (among : ∀ spot ∈ part, spot ∈ whole) :
    part.Sublist whole ↔ part.Pairwise fun a b => a.place < b.place := by
  constructor
  · intro sublist
    exact ascends.sublist sublist
  · intro part_ascends
    have antisymmetric : Std.Antisymm fun a b : SyntaxNode.Spot => a.place < b.place :=
      ⟨fun a b before after => absurd after (List.lt_asymm before)⟩
    have distinct : part.Nodup := by
      refine part_ascends.imp ?_
      rintro a b before rfl
      exact List.lt_irrefl _ before
    exact List.sublist_of_subperm_of_pairwise (List.subperm_of_subset distinct among) part_ascends
      ascends

end HandlerIndex
