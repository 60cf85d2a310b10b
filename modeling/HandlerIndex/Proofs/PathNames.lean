import HandlerIndex.Path

/-!
Paths made of names, as the file filter and the index service join them. A path that joins names
below a root has the segments of both, and taken relative to the root it is the joined names again.
Left out is what stands at a path.
-/
namespace HandlerIndex.Path

def IsName (text : List Char) : Prop := text ≠ [] ∧ text ≠ ['.'] ∧ text ≠ ['.', '.'] ∧ '/' ∉ text

instance : DecidablePred IsName := fun _ => inferInstanceAs (Decidable (_ ∧ _))

theorem name_not_neutral {text : List Char} (name : IsName text) : isNeutral text = false := by
  simp [isNeutral, name.1, name.2.1]

theorem join_ended {root path : String} (some_root : root ≠ "")
    (relative : isAbsolute path.toList = false) (ended : root.toList.getLast? = some '/') :
    join root path = root ++ path := by
  simp [join, relative, some_root, ended]

theorem join_open {root path : String} (some_root : root ≠ "")
    (relative : isAbsolute path.toList = false) (open_end : root.toList.getLast? ≠ some '/') :
    join root path = root ++ "/" ++ path := by
  simp [join, relative, some_root, open_end]

theorem is_absolute_append {first : String} (filled : first ≠ "") (rest : String) :
    isAbsolute (first ++ rest).toList = isAbsolute first.toList := by
  obtain ⟨c, more, found⟩ :=
    List.exists_cons_of_ne_nil (fun empty => filled (String.toList_eq_nil_iff.mp empty))
  rw [isAbsolute, isAbsolute, String.toList_append, found, List.cons_append, List.head?_cons,
    List.head?_cons]

theorem last_append {first second : String} (filled : second ≠ "") :
    (first ++ second).toList.getLast? = second.toList.getLast? := by
  have some_char : second.toList ≠ [] := fun empty => filled (String.toList_eq_nil_iff.mp empty)
  rw [String.toList_append, List.getLast?_append, List.getLast?_eq_some_getLast some_char,
    Option.some_or]

/-- Joining one path after another is joining both at once. -/
theorem join_join {root first second : String} (some_root : root ≠ "") (filled : first ≠ "")
    (relative : isAbsolute first.toList = false) (open_end : first.toList.getLast? ≠ some '/')
    (second_relative : isAbsolute second.toList = false) :
    join (join root first) second = join root (first ++ "/" ++ second) := by
  have whole_relative : isAbsolute (first ++ "/" ++ second).toList = false := by
    rw [String.append_assoc, is_absolute_append filled, relative]
  have some_join {start : String} : start ++ first ≠ "" :=
    fun empty => filled (String.append_eq_empty_iff.mp empty).2
  have open_join {start : String} : (start ++ first).toList.getLast? ≠ some '/' := by
    rw [last_append filled]
    exact open_end
  by_cases ended : root.toList.getLast? = some '/'
  · rw [join_ended some_root relative ended, join_ended some_root whole_relative ended,
      join_open some_join second_relative open_join, String.append_assoc, String.append_assoc,
      String.append_assoc]
  · rw [join_open some_root relative ended, join_open some_root whole_relative ended,
      join_open some_join second_relative open_join]
    simp only [String.append_assoc]

theorem join_eq_append {root path : String} (some_root : root ≠ "")
    (relative : isAbsolute path.toList = false) :
    ∃ divider : List Char, (divider = [] ∨ divider = ['/']) ∧
      (join root path).toList = root.toList ++ (divider ++ path.toList) := by
  unfold join
  simp only [relative, some_root, or_self, Bool.false_eq_true, ↓reduceIte]
  split
  · exact ⟨[], .inl rfl, by rw [String.toList_append, List.nil_append]⟩
  · exact ⟨['/'], .inr rfl, by
      rw [String.toList_append, String.toList_append, List.append_assoc]; rfl⟩

theorem not_mem_join {root path : String} (some_root : root ≠ "")
    (relative : isAbsolute path.toList = false) {c : Char} (other : c ≠ '/')
    (above : c ∉ root.toList) (below : c ∉ path.toList) :
    c ∉ (join root path).toList := by
  obtain ⟨divider, divided, joined⟩ := join_eq_append some_root relative
  have between : c ∉ divider := by
    rcases divided with rfl | rfl
    · exact List.not_mem_nil
    · simpa using other
  simp only [joined, List.mem_append, above, between, below, or_self, not_false_eq_true]

/-! A path relative to a root has slashes in the place of backslashes. -/
section Slashes

def slashed (text : String) : String :=
  String.ofList (text.toList.map fun c => if c = '\\' then '/' else c)

theorem slashed_eq {text : String} (absent : '\\' ∉ text.toList) : slashed text = text := by
  have unchanged : text.toList.map (fun c => if c = '\\' then '/' else c) = text.toList := by
    refine (List.map_congr_left ?_).trans (List.map_id _)
    intro c member
    have other : c ≠ '\\' := fun same => absent (same ▸ member)
    rw [if_neg other, id]
  rw [slashed, unchanged, String.ofList_toList]

end Slashes

/-! What the segments of a path are. -/
section Segments

theorem segments_ne_nil (path : List Char) : segments path ≠ [] := by
  cases path with
  | nil => simp [segments]
  | cons c rest =>
    simp only [segments, List.foldr_cons]
    split
    · simp
    · split <;> simp

@[simp] theorem segments_slash (path : List Char) :
    segments ('/' :: path) = [] :: segments path := by
  obtain ⟨part, rest, found⟩ := List.exists_cons_of_ne_nil (segments_ne_nil path)
  rw [found]
  unfold segments at found ⊢
  rw [List.foldr_cons, found]
  simp

theorem segments_cons {c : Char} {path part : List Char} {rest : List (List Char)} (other : c ≠ '/')
    (found : segments path = part :: rest) : segments (c :: path) = (c :: part) :: rest := by
  unfold segments at found ⊢
  rw [List.foldr_cons, found]
  simp [other]

@[simp] theorem segments_append_slash (path below : List Char) :
    segments (path ++ '/' :: below) = segments path ++ segments below := by
  induction path with
  | nil => exact segments_slash below
  | cons c path ih =>
    rw [List.cons_append]
    by_cases slash : c = '/'
    · simp [slash, ih]
    · obtain ⟨part, rest, found⟩ := List.exists_cons_of_ne_nil (segments_ne_nil path)
      rw [found, List.cons_append] at ih
      rw [segments_cons slash ih, segments_cons slash found, List.cons_append]

theorem segments_without_slash {text : List Char} (plain : '/' ∉ text) :
    segments text = [text] := by
  induction text with
  | nil => rfl
  | cons c rest ih =>
    rw [List.mem_cons, not_or] at plain
    exact segments_cons (Ne.symm plain.1) (ih plain.2)

theorem segments_join_segments {parts : List (List Char)} (some_part : parts ≠ [])
    (plain : ∀ part ∈ parts, '/' ∉ part) : segments (joinSegments parts) = parts := by
  induction parts with
  | nil => exact absurd rfl some_part
  | cons part rest ih =>
    have here := segments_without_slash (plain part List.mem_cons_self)
    cases rest with
    | nil =>
      rw [joinSegments, List.intercalate_singleton]
      exact here
    | cons next rest =>
      have below := ih (List.cons_ne_nil next rest) fun other member =>
        plain other (List.mem_cons_of_mem _ member)
      rw [joinSegments] at below ⊢
      rw [List.intercalate_cons_cons, List.append_assoc, List.singleton_append,
        segments_append_slash, here, below, List.singleton_append]

-- A root that ends with a slash has an empty segment there, which the first name takes the place
-- of.
/-- The segments of a path below a root are those of the root and its own. -/
theorem segments_join {root : String} (some_root : root ≠ "") :
    ∃ above, above ≠ [] ∧ (segments root.toList = above ∨ segments root.toList = above ++ [[]]) ∧
      ∀ path : String, isAbsolute path.toList = false →
        segments (join root path).toList = above ++ segments path.toList := by
  by_cases ended : root.toList.getLast? = some '/'
  · obtain ⟨start, split⟩ := List.getLast?_eq_some_iff.mp ended
    refine ⟨segments start, segments_ne_nil start, .inr ?_, ?_⟩
    · rw [split, segments_append_slash]
      rfl
    · intro path relative
      rw [join_ended some_root relative ended, String.toList_append, split, List.append_assoc,
        List.singleton_append, segments_append_slash]
  · refine ⟨segments root.toList, segments_ne_nil _, .inl rfl, ?_⟩
    intro path relative
    rw [join_open some_root relative ended, String.toList_append, String.toList_append,
      List.append_assoc]
    exact segments_append_slash root.toList path.toList

end Segments

/-! What the components of a path are, and which are left below a root. -/
section Components

def startComponents (path : List Char) : List Component :=
  if isAbsolute path then [.root] else if (segments path).head? = some ['.'] then [.current] else []

theorem components_eq (path : List Char) :
    components path = startComponents path ++ bodyComponents (segments path) := by
  unfold components startComponents
  by_cases absolute : isAbsolute path = true
  · rw [if_pos absolute, if_pos absolute]
    rfl
  · rw [if_neg absolute, if_neg absolute]
    by_cases dot : (segments path).head? = some ['.']
    · obtain ⟨rest, found⟩ := List.head?_eq_some_iff.mp dot
      rw [if_pos dot, found]
      rfl
    · rw [if_neg dot, List.nil_append]
      cases found : segments path with
      | nil => rfl
      | cons first rest =>
        rw [found] at dot
        simp_all

@[simp] theorem body_components_append (above below : List (List Char)) :
    bodyComponents (above ++ below) = bodyComponents above ++ bodyComponents below := by
  simp [bodyComponents]

theorem body_components_names {names : List (List Char)} (proper : ∀ name ∈ names, IsName name) :
    bodyComponents names = names.map .name := by
  have kept : names.filter (!isNeutral ·) = names :=
    List.filter_eq_self.mpr fun name member => by simp [name_not_neutral (proper name member)]
  rw [bodyComponents, kept]
  refine List.map_congr_left ?_
  intro name member
  obtain ⟨-, no_dot, no_dots, -⟩ := proper name member
  rw [ofSegment, if_neg no_dot, if_neg no_dots]

theorem body_component_named {parts : List (List Char)} {c : Component}
    (member : c ∈ bodyComponents parts) :
    c ≠ .root ∧ c ≠ .current := by
  obtain ⟨segment, kept, rfl⟩ := List.mem_map.mp member
  have no_dot : segment ≠ ['.'] := by
    rintro rfl
    simp [isNeutral] at kept
  unfold ofSegment
  rw [if_neg no_dot]
  split <;> simp

theorem named_components_length (path : List Char) :
    ((components path).filter fun c => c != .root && c != .current).length =
      ((segments path).filter (!isNeutral ·)).length := by
  have start : (startComponents path).filter (fun c => c != .root && c != .current) = [] := by
    unfold startComponents
    split
    · rfl
    · split <;> rfl
  have body : (bodyComponents (segments path)).filter (fun c => c != .root && c != .current) =
      bodyComponents (segments path) :=
    List.filter_eq_self.mpr fun c member => by simp [body_component_named member]
  rw [components_eq, List.filter_append, start, body, List.nil_append, bodyComponents,
    List.length_map]

theorem is_absolute_join {root path : String} (some_root : root ≠ "")
    (relative : isAbsolute path.toList = false) :
    isAbsolute (join root path).toList = isAbsolute root.toList := by
  have some_char : root.toList ≠ [] := by simpa using some_root
  obtain ⟨c, rest, found⟩ := List.exists_cons_of_ne_nil some_char
  obtain ⟨divider, -, joined⟩ := join_eq_append some_root relative
  rw [isAbsolute, isAbsolute, joined, found, List.cons_append, List.head?_cons, List.head?_cons]

theorem start_components_join {root path : String} (some_root : root ≠ "")
    (relative : isAbsolute path.toList = false) :
    startComponents (join root path).toList = startComponents root.toList := by
  obtain ⟨above, some_above, root_parts, join_parts⟩ := segments_join some_root
  obtain ⟨first, rest, rfl⟩ := List.exists_cons_of_ne_nil some_above
  have root_first : (segments root.toList).head? = some first := by
    rcases root_parts with same | ended
    · rw [same, List.head?_cons]
    · rw [ended, List.cons_append, List.head?_cons]
  rw [startComponents, startComponents, is_absolute_join some_root relative,
    join_parts path relative, root_first, List.cons_append, List.head?_cons]

/-- A relative path below a root adds its own components, and a dot that it begins with is none
there. -/
theorem components_join_relative {root path : String} (some_root : root ≠ "")
    (relative : isAbsolute path.toList = false) :
    components (join root path).toList = components root.toList ++
      bodyComponents (segments path.toList) := by
  obtain ⟨above, -, root_parts, join_parts⟩ := segments_join some_root
  have same_body : bodyComponents (segments root.toList) = bodyComponents above := by
    rcases root_parts with same | ended
    · rw [same]
    · rw [ended, body_components_append]
      exact List.append_nil _
  rw [components_eq, components_eq, start_components_join some_root relative, same_body,
    join_parts path relative, body_components_append, List.append_assoc]

theorem components_ne_nil {path : List Char} (some_path : path ≠ []) : components path ≠ [] := by
  obtain ⟨c, rest, rfl⟩ := List.exists_cons_of_ne_nil some_path
  obtain ⟨part, more, found⟩ := List.exists_cons_of_ne_nil (segments_ne_nil rest)
  rw [components_eq, startComponents]
  by_cases slash : c = '/'
  · simp [slash, isAbsolute]
  · have first := segments_cons slash found
    have relative : isAbsolute (c :: rest) = false := by simp [isAbsolute, slash]
    rw [relative, first]
    by_cases dot : c :: part = ['.']
    · simp [dot]
    · simp [dot, bodyComponents, isNeutral]

theorem drop_components_append (above : List (List Char)) {name : List Char}
    (names : List (List Char)) (proper : IsName name) :
    dropComponents (above.filter (!isNeutral ·)).length (above ++ name :: names) =
      name :: names := by
  -- A neutral segment is passed without being counted, whatever the count is.
  induction above with
  | nil => simp [dropComponents, name_not_neutral proper]
  | cons segment rest ih =>
    cases neutral : isNeutral segment with
    | true =>
      rw [List.filter_cons_of_neg (by simp [neutral]), List.cons_append]
      cases count : (rest.filter (!isNeutral ·)).length with
      | zero =>
        rw [count] at ih
        simpa [dropComponents, neutral] using ih
      | succ left =>
        rw [count] at ih
        simpa [dropComponents, neutral] using ih
    | false =>
      rw [List.filter_cons_of_pos (by simp [neutral]), List.cons_append, List.length_cons]
      simpa [dropComponents, neutral] using ih

theorem drop_neutral_end_names {names : List (List Char)} (proper : ∀ name ∈ names, IsName name) :
    dropNeutralEnd names = names := by
  unfold dropNeutralEnd
  cases order : names.reverse with
  | nil => simpa using order.symm
  | cons last rest =>
    have member : last ∈ names := by
      rw [← List.mem_reverse, order]
      exact List.mem_cons_self
    have named := name_not_neutral (proper last member)
    rw [List.dropWhile_cons_of_neg (by simp [named]), ← order, List.reverse_reverse]

end Components

/-! Names that are joined below a root. -/
section Names
variable {names : List String}

@[simp] theorem joined_chars (names : List String) :
    ("/".intercalate names).toList = joinSegments (names.map String.toList) :=
  String.toList_intercalate

theorem mem_join_segments {c : Char} {parts : List (List Char)} (member : c ∈ joinSegments parts) :
    c = '/' ∨ ∃ part ∈ parts, c ∈ part := by
  induction parts with
  | nil => cases member
  | cons part rest ih =>
    cases rest with
    | nil =>
      rw [joinSegments, List.intercalate_singleton] at member
      exact .inr ⟨part, List.mem_cons_self, member⟩
    | cons next rest =>
      rw [joinSegments, List.intercalate_cons_cons, List.append_assoc, List.mem_append,
        List.singleton_append, List.mem_cons] at member
      rcases member with here | slash | below
      · exact .inr ⟨part, List.mem_cons_self, here⟩
      · exact .inl slash
      · rcases ih below with slash | ⟨found, among, inside⟩
        · exact .inl slash
        · exact .inr ⟨found, List.mem_cons_of_mem _ among, inside⟩

theorem not_mem_joined {c : Char} (other : c ≠ '/') (absent : ∀ name ∈ names, c ∉ name.toList) :
    c ∉ ("/".intercalate names).toList := by
  rw [joined_chars]
  intro member
  rcases mem_join_segments member with slash | ⟨part, among, inside⟩
  · exact other slash
  · obtain ⟨name, found, rfl⟩ := List.mem_map.mp among
    exact absent name found inside

variable (some_name : names ≠ []) (proper : ∀ name ∈ names, IsName name.toList)
include some_name proper

theorem segments_joined : segments ("/".intercalate names).toList = names.map String.toList := by
  rw [joined_chars]
  refine segments_join_segments (by simpa using some_name) ?_
  intro part member
  obtain ⟨name, found, rfl⟩ := List.mem_map.mp member
  exact (proper name found).2.2.2

theorem joined_not_absolute : isAbsolute ("/".intercalate names).toList = false := by
  have parts := segments_joined some_name proper
  obtain ⟨name, rest, rfl⟩ := List.exists_cons_of_ne_nil some_name
  rw [isAbsolute, beq_eq_false_iff_ne]
  intro slash
  obtain ⟨below, found⟩ := List.head?_eq_some_iff.mp slash
  rw [found, segments_slash, List.map_cons, List.cons.injEq] at parts
  exact (proper name List.mem_cons_self).1 parts.1.symm

theorem components_join {root : String} (some_root : root ≠ "") :
    components (join root ("/".intercalate names)).toList =
      components root.toList ++ (names.map String.toList).map .name := by
  have named : bodyComponents (names.map String.toList) = (names.map String.toList).map .name :=
    body_components_names (by simpa using proper)
  rw [components_join_relative some_root (joined_not_absolute some_name proper),
    segments_joined some_name proper, named]

theorem strip_base_join {root : String} (some_root : root ≠ "") :
    stripBase? root.toList (join root ("/".intercalate names)).toList =
      some ("/".intercalate names).toList := by
  obtain ⟨above, -, root_parts, join_parts⟩ := segments_join some_root
  have parts := join_parts _ (joined_not_absolute some_name proper)
  rw [segments_joined some_name proper] at parts
  have inside : (components root.toList).isPrefixOf
      (components (join root ("/".intercalate names)).toList) = true := by
    rw [components_join some_name proper some_root, List.isPrefixOf_iff_prefix]
    exact List.prefix_append _ _
  have some_component : components root.toList ≠ [] := components_ne_nil (by simpa using some_root)
  -- The empty segment at the end of a root is neutral, so it does not count either.
  have count : ((components root.toList).filter fun c => c != .root && c != .current).length =
      (above.filter (!isNeutral ·)).length := by
    rw [named_components_length]
    rcases root_parts with same | ended
    · rw [same]
    · rw [ended, List.filter_append]
      simp [isNeutral]
  have below : dropNeutralEnd (dropComponents (above.filter (!isNeutral ·)).length
      (above ++ names.map String.toList)) = names.map String.toList := by
    obtain ⟨name, rest, rfl⟩ := List.exists_cons_of_ne_nil some_name
    rw [List.map_cons, drop_components_append above _ (proper name List.mem_cons_self)]
    exact drop_neutral_end_names (by simpa using proper)
  unfold stripBase?
  dsimp only
  rw [if_pos inside, if_neg some_component, count, parts, below, joined_chars]

/-- Joined names, taken relative to the root that they are below, have a slash for each
backslash. -/
theorem relative_slashed {root : String} (some_root : root ≠ "") :
    relative? root (join root ("/".intercalate names)) =
      some (slashed ("/".intercalate names)) := by
  rw [relative?, strip_base_join some_name proper some_root, Option.map_some, slashed]

/-- Joined names without a backslash, taken relative to the root that they are below, are as they
were. -/
theorem relative_join {root : String} (some_root : root ≠ "")
    (plain : ∀ name ∈ names, '\\' ∉ name.toList) :
    relative? root (join root ("/".intercalate names)) = some ("/".intercalate names) := by
  rw [relative_slashed some_name proper some_root, slashed_eq (not_mem_joined (by decide) plain)]

theorem joined_injective {others : List String} (some_other : others ≠ [])
    (others_proper : ∀ name ∈ others, IsName name.toList)
    (same : "/".intercalate names = "/".intercalate others) :
    names = others := by
  have parts := segments_joined some_name proper
  rw [same, segments_joined some_other others_proper] at parts
  exact ((List.map_inj_right fun a b equal => String.toList_injective equal).mp parts).symm

end Names

/-- A path from the root of the disk: names with one slash before each. -/
def Canonical (path : String) : Prop :=
  ∃ names : List String, (∀ name ∈ names, IsName name.toList) ∧ path = "/" ++ "/".intercalate names

/-- Names with one slash between any two. -/
def Tidy (path : String) : Prop :=
  ∃ names : List String, names ≠ [] ∧ (∀ name ∈ names, IsName name.toList) ∧
    path = "/".intercalate names

/-! The text of a canonical path. -/
section Spelling
variable {parts above below : List (List Char)}

theorem join_segments_append (some_above : above ≠ []) (some_below : below ≠ []) :
    joinSegments (above ++ below) = joinSegments above ++ '/' :: joinSegments below := by
  obtain ⟨first, others, rfl⟩ := List.exists_cons_of_ne_nil some_below
  induction above with
  | nil => exact absurd rfl some_above
  | cons part rest ih =>
    cases rest with
    | nil =>
      rw [List.singleton_append, joinSegments, List.intercalate_cons_cons, joinSegments,
        joinSegments, List.intercalate_singleton, List.append_assoc, List.singleton_append]
    | cons next more =>
      have later := ih (List.cons_ne_nil next more)
      unfold joinSegments at later ⊢
      rw [List.cons_append, List.cons_append, List.intercalate_cons_cons,
        List.intercalate_cons_cons, ← List.cons_append, later]
      simp

theorem join_segments_not_absolute (proper : ∀ part ∈ parts, IsName part) :
    isAbsolute (joinSegments parts) = false := by
  cases parts with
  | nil => rfl
  | cons part rest =>
    obtain ⟨filled, -, -, plain⟩ := proper part List.mem_cons_self
    obtain ⟨c, more, rfl⟩ := List.exists_cons_of_ne_nil filled
    have start : ∃ later, joinSegments ((c :: more) :: rest) = c :: later := by
      cases rest with
      | nil => exact ⟨more, by rw [joinSegments, List.intercalate_singleton]⟩
      | cons next others => exact ⟨_, by rw [joinSegments, List.intercalate_cons_cons]; rfl⟩
    obtain ⟨later, text⟩ := start
    rw [text, isAbsolute, List.head?_cons, beq_eq_false_iff_ne]
    intro slash
    exact plain (Option.some.inj slash ▸ List.mem_cons_self)

theorem segments_canonical (some_part : parts ≠ []) (proper : ∀ part ∈ parts, IsName part) :
    segments ('/' :: joinSegments parts) = [] :: parts := by
  rw [segments_slash, segments_join_segments some_part fun part member =>
    (proper part member).2.2.2]

theorem components_canonical (proper : ∀ part ∈ parts, IsName part) :
    components ('/' :: joinSegments parts) = .root :: parts.map .name := by
  by_cases some_part : parts = []
  · subst some_part
    rfl
  · have body : bodyComponents ([] :: parts) = parts.map .name := body_components_names proper
    have absolute : isAbsolute ('/' :: joinSegments parts) = true := rfl
    rw [components, if_pos absolute, segments_canonical some_part proper, body]

theorem directory_canonical (some_part : parts ≠ []) (proper : ∀ part ∈ parts, IsName part) :
    directory ('/' :: joinSegments parts) = '/' :: joinSegments parts.dropLast := by
  have outer : ∀ part ∈ parts.dropLast, IsName part := fun part member =>
    proper part (List.dropLast_subset parts member)
  unfold directory
  rw [segments_canonical some_part proper, List.dropLast_cons_of_ne_nil some_part]
  rcases List.eq_nil_or_concat parts.dropLast with none_outer | ⟨names, last, found⟩
  · rw [none_outer]
    rfl
  · rw [List.concat_eq_append] at found
    rw [found] at outer ⊢
    have named := name_not_neutral (outer last (by simp))
    have kept : dropNeutralEnd ([] :: (names ++ [last])) = [] :: (names ++ [last]) := by
      simp [dropNeutralEnd, named]
    rw [kept]
    cases names with
    | nil => rfl
    | cons name more => rfl

theorem canonical_chars (names : List String) :
    ("/" ++ "/".intercalate names).toList = '/' :: joinSegments (names.map String.toList) := by
  rw [String.toList_append, joined_chars]
  rfl

theorem join_canonical {outer names : List String}
    (outer_proper : ∀ name ∈ outer, IsName name.toList) (some_name : names ≠ [])
    (proper : ∀ name ∈ names, IsName name.toList) :
    (join ("/" ++ "/".intercalate outer) ("/".intercalate names)).toList =
      '/' :: joinSegments ((outer ++ names).map String.toList) := by
  have relative := joined_not_absolute some_name proper
  have some_root : "/" ++ "/".intercalate outer ≠ "" := by simp
  rcases List.eq_nil_or_concat outer with rfl | ⟨front, last, whole⟩
  · rw [join_ended some_root relative rfl, String.toList_append, joined_chars]
    rfl
  · rw [List.concat_eq_append] at whole
    subst whole
    obtain ⟨filled, -, -, plain⟩ := outer_proper last (by simp)
    have some_outer : (front ++ [last]).map String.toList ≠ [] := by simp
    have open_end : ("/" ++ "/".intercalate (front ++ [last])).toList.getLast? ≠ some '/' := by
      rw [canonical_chars]
      intro slash
      have ends : ∃ start, '/' :: joinSegments ((front ++ [last]).map String.toList) =
          start ++ last.toList := by
        cases front with
        | nil => exact ⟨['/'], by simp [joinSegments]⟩
        | cons name more =>
          rw [List.map_append, join_segments_append (by simp) (by simp)]
          exact ⟨'/' :: joinSegments ((name :: more).map String.toList) ++ ['/'], by
            simp [joinSegments]⟩
      obtain ⟨start, text⟩ := ends
      rw [text, List.getLast?_append, List.getLast?_eq_some_getLast filled, Option.some_or] at slash
      exact plain (Option.some.inj slash ▸ List.getLast_mem filled)
    have below : names.map String.toList ≠ [] := by simpa using some_name
    rw [join_open some_root relative open_end, String.toList_append, String.toList_append,
      canonical_chars, joined_chars]
    have whole : (front ++ [last] ++ names).map String.toList =
        (front ++ [last]).map String.toList ++ names.map String.toList := List.map_append
    rw [whole, join_segments_append some_outer below]
    simp

end Spelling
end HandlerIndex.Path
