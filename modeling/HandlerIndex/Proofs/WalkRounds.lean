import HandlerIndex.Proofs.Places

/-!
The extractor's walk, one round at a time. The open trees are on a stack, the next one on top: a
round takes it off, puts its children on from the last to the first, and notes the tree as visited.
A round closes one node for good, so there are as many rounds as nodes, and it changes nothing about
what the walk gives in the end. That is the pre-order of the tree without its root.
-/
namespace HandlerIndex.SyntaxNode

theorem size_eq (tree : SyntaxNode) : tree.size = 1 + sizeAll tree.children := by
  cases tree with
  | node label children => rfl

@[simp] theorem size_all_reverse (trees : List SyntaxNode) :
    sizeAll trees.reverse = sizeAll trees := by
  induction trees with
  | nil => rfl
  | cons tree rest ih =>
    rw [List.reverse_cons, size_all_append, ih, sizeAll, sizeAll, sizeAll]
    omega

/-- A walk on its way: the open trees with the next one last, and the nodes visited so far. -/
structure Tour where
  stack : List SyntaxNode
  visited : List SyntaxNode

namespace Tour
variable {tour next : Tour}

def start (tree : SyntaxNode) : Tour := ⟨tree.children.reverse, []⟩

/-- The last open tree is visited and its children are opened in its place. There is no round
without an open tree. -/
def round (tour : Tour) : Option Tour :=
  tour.stack.getLast?.map fun tree =>
    ⟨tour.stack.dropLast ++ tree.children.reverse, tour.visited ++ [tree]⟩

def after : Nat → Tour → Option Tour
  | 0, tour => some tour
  | count + 1, tour => tour.round.bind (after count)

def pending (tour : Tour) : Nat := sizeAll tour.stack

def outcome (tour : Tour) : List SyntaxNode := walk tour.stack.reverse tour.visited.reverse

theorem round_eq_some_iff : tour.round = some next ↔
    ∃ stack tree, tour.stack = stack ++ [tree] ∧
    next = ⟨stack ++ tree.children.reverse, tour.visited ++ [tree]⟩ := by
  rw [round, Option.map_eq_some_iff]
  constructor
  · rintro ⟨tree, top, rfl⟩
    obtain ⟨stack, whole⟩ := List.getLast?_eq_some_iff.mp top
    refine ⟨stack, tree, whole, ?_⟩
    rw [whole, List.dropLast_concat]
  · rintro ⟨stack, tree, whole, rfl⟩
    refine ⟨tree, ?_, ?_⟩
    · rw [whole, List.getLast?_concat]
    · rw [whole, List.dropLast_concat]

theorem round_eq_none_iff : tour.round = none ↔ tour.stack = [] := by
  rw [round, Option.map_eq_none_iff, List.getLast?_eq_none_iff]

theorem stopped_outcome (stopped : tour.stack = []) : tour = ⟨[], tour.outcome⟩ := by
  cases tour with
  | mk stack visited =>
    subst stopped
    rw [outcome, List.reverse_nil, walk, List.reverse_reverse]

/-! What one round does. -/

theorem round_visited (moved : tour.round = some next) :
    next.visited.length = tour.visited.length + 1 := by
  obtain ⟨stack, tree, -, rfl⟩ := round_eq_some_iff.mp moved
  rw [List.length_append, List.length_singleton]

theorem round_pending (moved : tour.round = some next) : tour.pending = next.pending + 1 := by
  obtain ⟨stack, tree, whole, rfl⟩ := round_eq_some_iff.mp moved
  rw [pending, pending, whole, size_all_append, size_all_append, size_all_reverse, sizeAll, size_eq,
    sizeAll]
  omega

-- The top of the stack is the first of the trees that the walk has before it.
theorem round_outcome (moved : tour.round = some next) : next.outcome = tour.outcome := by
  obtain ⟨stack, tree, whole, rfl⟩ := round_eq_some_iff.mp moved
  rw [outcome, outcome, whole, List.reverse_append, List.reverse_append, List.reverse_append,
    List.reverse_reverse, List.reverse_singleton, List.singleton_append, List.singleton_append,
    walk]

/-! What all rounds do. -/

theorem after_visited {count : Nat} (reached : tour.after count = some next) :
    next.visited.length = tour.visited.length + count := by
  induction count generalizing tour with
  | zero =>
    cases reached
    rfl
  | succ count ih =>
    obtain ⟨middle, moved, reached⟩ := Option.bind_eq_some_iff.mp reached
    rw [ih reached, round_visited moved]
    omega

/-- A walk ends, after one round for each node of its open trees. -/
theorem after_pending (tour : Tour) : tour.after tour.pending = some ⟨[], tour.outcome⟩ := by
  induction left : tour.pending generalizing tour with
  | zero =>
    cases moved : tour.round with
    | none => exact congrArg some (stopped_outcome (round_eq_none_iff.mp moved))
    | some next =>
      have fewer := round_pending moved
      omega
  | succ count ih =>
    cases moved : tour.round with
    | none =>
      rw [pending, round_eq_none_iff.mp moved] at left
      cases left
    | some next =>
      have fewer := round_pending moved
      rw [after, moved, Option.bind_some, ih next (by omega), round_outcome moved]

@[simp] theorem start_outcome (tree : SyntaxNode) : (start tree).outcome = tree.descendants := by
  rw [outcome, start, List.reverse_reverse, List.reverse_nil, descendants]

theorem start_pending (tree : SyntaxNode) : (start tree).pending + 1 = tree.size := by
  rw [pending, start, size_all_reverse, size_eq, Nat.add_comm]

end Tour

/-! The order of visits. -/
section Order

/-- One node comes before another: the other is below it, or two children of some node have them in
their subtrees, and the earlier child has the one. -/
def Spot.Before (a b : Spot) : Prop :=
  a.Encloses b ∨ ∃ place first second way other,
    first < second ∧ a.place = place ++ first :: way ∧ b.place = place ++ second :: other

structure PreorderVisits (tree : SyntaxNode) (visits : List Spot) : Prop where
  complete : ∀ spot, spot ∈ visits ↔ spot.place ≠ [] ∧ nodeAt? spot.place tree = some spot.node
  once : (visits.map (·.place)).Nodup
  ordered : visits.Pairwise Spot.Before

theorem place_cases {first second : List Nat} (less : first < second) :
    (first <+: second ∧ first ≠ second) ∨ ∃ place number later way other,
      number < later ∧ first = place ++ number :: way ∧ second = place ++ later :: other := by
  induction first generalizing second with
  | nil =>
    refine .inl ⟨List.nil_prefix, ?_⟩
    rintro rfl
    exact List.lt_irrefl _ less
  | cons number rest ih =>
    cases second with
    | nil => exact absurd less (List.not_lt_nil _)
    | cons later more =>
      rcases List.cons_lt_cons_iff.mp less with smaller | ⟨rfl, below⟩
      · exact .inr ⟨[], number, later, rest, more, smaller, rfl, rfl⟩
      · rcases ih below with ⟨above, apart⟩ | ⟨place, small, large, way, other, smaller, rfl, rfl⟩
        · refine .inl ⟨List.cons_prefix_cons.mpr ⟨rfl, above⟩, ?_⟩
          intro same
          exact apart (List.cons.inj same).2
        · exact .inr ⟨number :: place, small, large, way, other, smaller, rfl, rfl⟩

theorem below_preorder (tree : SyntaxNode) : PreorderVisits tree (⟨[], tree⟩ : Spot).below where
  complete spot := by
    rw [Spot.mem_below]
    constructor
    · rintro ⟨number, way, placed, leads⟩
      rw [List.nil_append] at placed
      rw [placed]
      exact ⟨List.cons_ne_nil number way, leads⟩
    · rintro ⟨inner, leads⟩
      obtain ⟨number, way, placed⟩ := List.exists_cons_of_ne_nil inner
      refine ⟨number, way, placed, ?_⟩
      rw [← placed]
      exact leads
  once := by
    rw [List.Nodup, List.pairwise_map]
    refine (Spot.below_ascends _).imp ?_
    intro a b less same
    rw [same] at less
    exact List.lt_irrefl _ less
  ordered := (Spot.below_ascends _).imp place_cases

end Order

/-- The walk ends after one round for each node below the root. What it has visited by then is the
pre-order of the tree without the root: each node once, a node before those below it, and a child
with all below it before the next. -/
theorem descendants_in_preorder (tree : SyntaxNode) :
    (Tour.start tree).after tree.descendants.length = some ⟨[], tree.descendants⟩ ∧
    Tour.round ⟨[], tree.descendants⟩ = none ∧
    preorder tree = tree :: tree.descendants ∧
    tree.descendants.length + 1 = tree.size ∧
    ∃ visits, PreorderVisits tree visits ∧ visits.map (·.node) = tree.descendants := by
  have ending := Tour.after_pending (Tour.start tree)
  rw [Tour.start_outcome] at ending
  have counted : tree.descendants.length = (Tour.start tree).pending := by
    rw [Tour.after_visited ending]
    exact Nat.zero_add _
  refine ⟨?_, rfl, ?_, ?_, (⟨[], tree⟩ : Spot).below, below_preorder tree, ?_⟩
  · rw [counted]
    exact ending
  · simp
  · rw [counted, Tour.start_pending]
  · simp

end HandlerIndex.SyntaxNode
