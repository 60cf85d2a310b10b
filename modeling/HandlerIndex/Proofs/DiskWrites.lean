import HandlerIndex.Proofs.WorkspaceTree

/-!
Writing a file, as saving the settings does. What is written is read at the same path, also if the
path goes back and forth on its way, because a write leaves every directory where it was. A
directory that is missing can be made first. Left out are full disks and other failures of the
device.
-/
namespace HandlerIndex

/-! One entry of a tree is replaced. -/
namespace Entry

@[simp] theorem child_cons (child : String × Entry) (rest : List (String × Entry)) (name : String) :
    child? (child :: rest) name = if name = child.1 then some child.2 else child? rest name := by
  by_cases same : name = child.1
  · simp [child?, same]
  · simp [child?, same, Ne.symm same]

theorem child_replaced (entries : List (String × Entry)) (name : String) (entry : Entry)
    (other : String) :
    child? (entries.map fun old => if old.1 == name then (name, entry) else old) other =
      if other = name then (child? entries name).map fun _ => entry else child? entries other := by
  induction entries with
  | nil => simp [child?]
  | cons old rest ih =>
    rw [List.map_cons, child_cons, child_cons, child_cons, ih]
    by_cases here : old.1 = name
    · by_cases same : other = name
      · simp [here, same]
      · simp [here, same]
    · by_cases same : other = name
      · simp [here, same, Ne.symm here]
      · simp [here, same]

@[simp] theorem child_set_child (entries : List (String × Entry)) (name : String) (entry : Entry)
    (other : String) :
    child? (setChild entries name (some entry)) other =
      if other = name then some entry else child? entries other := by
  have found : (child? entries name).isSome = entries.any (·.1 == name) := by
    rw [child?, Option.isSome_map, List.isSome_find?]
  by_cases present : entries.any (·.1 == name) = true
  · obtain ⟨old, there⟩ := Option.isSome_iff_exists.mp (found.trans present)
    rw [setChild, if_pos present, child_replaced, there, Option.map_some]
  · have none_before : entries.find? (·.1 == name) = none := by
      rw [List.find?_eq_none]
      intro child member same
      exact present (List.any_eq_true.mpr ⟨child, member, same⟩)
    rw [setChild, if_neg present]
    by_cases same : other = name
    · simp [child?, same, none_before]
    · simp [child?, same, Ne.symm same]

@[simp] theorem at_append (entry : Entry) (first second : List String) :
    entry.at? (first ++ second) = (entry.at? first).bind (at? second) := by
  induction first generalizing entry with
  | nil => rfl
  | cons name rest ih =>
    cases entry with
    | file content => rfl
    | directory entries =>
      simp only [List.cons_append, at?, Option.bind_assoc]
      congr 1
      funext inner
      exact ih inner

theorem set_at_below {entries : List (String × Entry)} {name : String} {inner : Entry}
    (child : child? entries name = some inner) (new : Option Entry) {rest : List String}
    (further : rest ≠ []) :
    setAt new (name :: rest) (.directory entries) =
      .directory (setChild entries name (some (setAt new rest inner))) := by
  cases rest with
  | nil => exact absurd rfl further
  | cons next more => simp only [setAt, child]

theorem set_at_self {top : Entry} {names : List String} {entries : List (String × Entry)}
    (above : top.at? names = some (.directory entries)) (new : Entry) (name : String) :
    (top.setAt (some new) (names ++ [name])).at? (names ++ [name]) = some new := by
  induction names generalizing top with
  | nil =>
    cases above
    simp [setAt, at?]
  | cons first rest ih =>
    cases top with
    | file content => cases above
    | directory children =>
      obtain ⟨inner, child, below⟩ := Option.bind_eq_some_iff.mp above
      rw [List.cons_append, set_at_below child _ (by simp), at?, child_set_child, if_pos rfl]
      exact ih below

/-- All that was there is there, and directories are directories still. -/
structure Keeps (old new : Entry) : Prop where
  present : ∀ names, (old.at? names).isSome = true → (new.at? names).isSome = true
  directories : ∀ names entries, old.at? names = some (.directory entries) →
    ∃ inside, new.at? names = some (.directory inside)

theorem file_keeps (content : Text.Bytes) (new : Entry) : (file content).Keeps new := by
  constructor
  · intro names present
    cases names with
    | nil => rfl
    | cons name rest => cases present
  · intro names entries found
    cases names with
    | nil => cases found
    | cons name rest => cases found

theorem keeps_child {entries : List (String × Entry)} {name : String} {new : Entry}
    (kept : ∀ old, child? entries name = some old → old.Keeps new) :
    (directory entries).Keeps (directory (setChild entries name (some new))) := by
  constructor
  · intro names present
    cases names with
    | nil => rfl
    | cons first rest =>
      rw [at?] at present ⊢
      rw [child_set_child]
      by_cases same : first = name
      · rw [if_pos same]
        rw [same] at present
        obtain ⟨found, there⟩ := Option.isSome_iff_exists.mp present
        obtain ⟨old, child, -⟩ := Option.bind_eq_some_iff.mp there
        rw [child] at present
        exact (kept old child).present rest present
      · rw [if_neg same]
        exact present
  · intro names inside found
    cases names with
    | nil => exact ⟨_, rfl⟩
    | cons first rest =>
      rw [at?] at found ⊢
      rw [child_set_child]
      by_cases same : first = name
      · rw [if_pos same]
        rw [same] at found
        obtain ⟨old, child, below⟩ := Option.bind_eq_some_iff.mp found
        exact (kept old child).directories rest inside below
      · rw [if_neg same]
        exact ⟨inside, found⟩

theorem set_at_keeps {top : Entry} {names : List String} {entries : List (String × Entry)}
    (above : top.at? names = some (.directory entries)) (new : Entry) (name : String)
    (free : ∀ inside, child? entries name ≠ some (.directory inside)) :
    top.Keeps (top.setAt (some new) (names ++ [name])) := by
  induction names generalizing top with
  | nil =>
    cases above
    rw [List.nil_append, setAt]
    refine keeps_child ?_
    intro old child
    cases old with
    | file content => exact file_keeps content new
    | directory inside => exact absurd child (free inside)
  | cons first rest ih =>
    cases top with
    | file content => cases above
    | directory children =>
      obtain ⟨inner, child, below⟩ := Option.bind_eq_some_iff.mp above
      rw [List.cons_append, set_at_below child _ (by simp)]
      refine keeps_child ?_
      intro old same
      rw [child] at same
      cases same
      exact ih below

end Entry

/-! Ways on a disk, and what remains of them on another one. -/
namespace Disk

inductive Leads (disk : Disk) : Way → Prop
  | start : Leads disk []
  | step {way : Way} {name : String} {entry : Entry} {entries : List (String × Entry)}
    (before : Leads disk way)
    (place : disk.here way = .directory entries) (child : Entry.child? entries name = some entry)
    (named : IsStep name) : Leads disk ((name, entry) :: way)

/-- One step stays, goes back, or goes on to a child. -/
theorem step_into_cases {disk : Disk} {way further : Way} {segment : List Char}
    (step : disk.stepInto way segment = .ok further) :
    ∃ entries, disk.here way = .directory entries ∧
      ((Path.isNeutral segment = true ∧ further = way) ∨
        (Path.isNeutral segment = false ∧ segment = ['.', '.'] ∧ further = way.tail) ∨
        ∃ name entry, segment = name.toList ∧ IsStep name ∧ Entry.child? entries name = some entry ∧
          further = (name, entry) :: way) := by
  unfold stepInto at step
  cases place : disk.here way with
  | file content =>
    rw [place] at step
    cases step
  | directory entries =>
    rw [place] at step
    refine ⟨entries, rfl, ?_⟩
    dsimp only at step
    by_cases neutral : Path.isNeutral segment = true
    · rw [if_pos neutral] at step
      cases step
      exact .inl ⟨neutral, rfl⟩
    · rw [if_neg neutral] at step
      rw [Bool.not_eq_true] at neutral
      by_cases parent : segment = ['.', '.']
      · rw [if_pos parent] at step
        cases step
        exact .inr (.inl ⟨neutral, parent, rfl⟩)
      · rw [if_neg parent] at step
        by_cases long : nameLimit < (Text.toBytes (String.ofList segment)).length
        · rw [if_pos long] at step
          cases step
        · rw [if_neg long] at step
          cases child : Entry.child? entries (String.ofList segment) with
          | none =>
            rw [child] at step
            cases step
          | some entry =>
            rw [child] at step
            cases step
            have same : (String.ofList segment).toList = segment := String.toList_ofList
            refine .inr
              (.inr ⟨String.ofList segment, entry, same.symm, ⟨?_, ?_, Nat.not_lt.mp long⟩,
                child, rfl⟩)
            · rw [same]
              exact neutral
            · rw [same]
              exact parent

theorem step_not_found {disk : Disk} {way : Way} {segment : List Char}
    (step : disk.stepInto way segment = .error .notFound) :
    IsStep (String.ofList segment) ∧ ∃ entries, disk.here way = .directory entries ∧
      Entry.child? entries (String.ofList segment) = none := by
  unfold stepInto at step
  cases place : disk.here way with
  | file content =>
    rw [place] at step
    cases step
  | directory entries =>
    rw [place] at step
    dsimp only at step
    by_cases neutral : Path.isNeutral segment = true
    · rw [if_pos neutral] at step
      cases step
    · rw [if_neg neutral] at step
      by_cases parent : segment = ['.', '.']
      · rw [if_pos parent] at step
        cases step
      · rw [if_neg parent] at step
        by_cases long : nameLimit < (Text.toBytes (String.ofList segment)).length
        · rw [if_pos long] at step
          cases step
        · rw [if_neg long] at step
          have same : (String.ofList segment).toList = segment := String.toList_ofList
          refine ⟨⟨?_, ?_, Nat.not_lt.mp long⟩, entries, rfl, ?_⟩
          · rw [same, Bool.eq_false_iff]
            exact neutral
          · rw [same]
            exact parent
          · cases child : Entry.child? entries (String.ofList segment) with
            | none => rfl
            | some entry =>
              rw [child] at step
              cases step

section Ways
variable {disk : Disk}

@[simp] theorem here_cons (disk : Disk) (name : String) (entry : Entry) (way : Way) :
    disk.here ((name, entry) :: way) = entry := rfl

@[simp] theorem names_cons (name : String) (entry : Entry) (way : Way) :
    Way.names ((name, entry) :: way) = Way.names way ++ [name] := by
  simp [Way.names]

theorem Leads.tail {way : Way} (leads : disk.Leads way) : disk.Leads way.tail := by
  cases leads with
  | start => exact .start
  | step before place child named => exact before

theorem Leads.further {way further : Way} {segment : List Char} (leads : disk.Leads way)
    (step : disk.stepInto way segment = .ok further) : disk.Leads further := by
  obtain ⟨entries, place, ⟨-, rfl⟩ | ⟨-, -, rfl⟩ | ⟨name, entry, -, named, child, rfl⟩⟩ :=
    step_into_cases step
  · exact leads
  · exact leads.tail
  · exact .step leads place child named

theorem Leads.at_names {way : Way} (leads : disk.Leads way) :
    disk.top.at? (Way.names way) = some (disk.here way) := by
  induction leads with
  | start => rfl
  | step before place child named ih =>
    simp [ih, place, Entry.at?, child]

theorem Leads.follow {way : Way} (leads : disk.Leads way) :
    ((Way.names way).map String.toList).foldlM disk.stepInto [] = .ok way := by
  induction leads with
  | start => rfl
  | step before place child named ih =>
    rw [names_cons, List.map_append, List.foldlM_append, ih]
    simp only [bind, Except.bind, List.map_cons, List.map_nil, List.foldlM_cons, List.foldlM_nil,
      step_into_child place named, child]
    rfl

theorem fold_cons_ok {segment : List Char} {rest : List (List Char)} {way last : Way} :
    (segment :: rest).foldlM disk.stepInto way = .ok last ↔
      ∃ further, disk.stepInto way segment = .ok further ∧
        rest.foldlM disk.stepInto further = .ok last := by
  rw [List.foldlM_cons]
  cases disk.stepInto way segment with
  | error fault => simp [bind, Except.bind]
  | ok further => simp [bind, Except.bind]

theorem Leads.last {way last : Way} {segments : List (List Char)} (leads : disk.Leads way)
    (followed : segments.foldlM disk.stepInto way = .ok last) : disk.Leads last := by
  induction segments generalizing way with
  | nil =>
    cases followed
    exact leads
  | cons segment rest ih =>
    obtain ⟨further, step, later⟩ := fold_cons_ok.mp followed
    exact ih (leads.further step) later

end Ways

/-! A path that was followed can still be followed after a write. -/
section Kept
variable {old new : Disk} (keeps : old.top.Keeps new.top)
include keeps

theorem here_kept {way again : Way} (leads : old.Leads way) (leads_again : new.Leads again)
    (same : Way.names again = Way.names way) {entries : List (String × Entry)}
    (place : old.here way = .directory entries) : ∃ inside, new.here again = .directory inside := by
  have found := leads.at_names
  rw [place] at found
  obtain ⟨inside, there⟩ := keeps.directories _ _ found
  have again_found := leads_again.at_names
  rw [same, there] at again_found
  exact ⟨inside, (Option.some.inj again_found).symm⟩

theorem step_kept {way further again : Way} {segment : List Char} (leads : old.Leads way)
    (leads_again : new.Leads again) (same : Way.names again = Way.names way)
    (step : old.stepInto way segment = .ok further) :
    ∃ onward, new.stepInto again segment = .ok onward ∧ Way.names onward = Way.names further := by
  have next := leads.further step
  obtain ⟨entries, place, ⟨neutral, rfl⟩ | ⟨proper, parent, rfl⟩ |
      ⟨name, entry, rfl, named, child, rfl⟩⟩ := step_into_cases step
  · obtain ⟨inside, there⟩ := here_kept keeps leads leads_again same place
    refine ⟨again, ?_, same⟩
    rw [stepInto, there]
    exact if_pos neutral
  · obtain ⟨inside, there⟩ := here_kept keeps leads leads_again same place
    refine ⟨again.tail, ?_, ?_⟩
    · rw [stepInto, there]
      dsimp only
      rw [proper, if_neg Bool.false_ne_true, if_pos parent]
    · have dropped := congrArg List.dropLast same
      simpa [Way.names, List.dropLast_reverse] using dropped
  · obtain ⟨inside, there⟩ := here_kept keeps leads leads_again same place
    have present := keeps.present (Way.names ((name, entry) :: way)) (by rw [next.at_names]; rfl)
    rw [names_cons, ← same, Entry.at_append, leads_again.at_names, there] at present
    cases found : Entry.child? inside name with
    | none =>
      simp [Entry.at?, found] at present
    | some kept =>
      refine ⟨(name, kept) :: again, ?_, ?_⟩
      · rw [step_into_child there named, found]
      · simp [same]

theorem follow_kept {segments : List (List Char)} {way last again : Way} (leads : old.Leads way)
    (leads_again : new.Leads again) (same : Way.names again = Way.names way)
    (followed : segments.foldlM old.stepInto way = .ok last) :
    ∃ end_again, segments.foldlM new.stepInto again = .ok end_again ∧
      Way.names end_again = Way.names last := by
  induction segments generalizing way again with
  | nil =>
    cases followed
    exact ⟨again, rfl, same⟩
  | cons segment rest ih =>
    obtain ⟨further, step, later⟩ := fold_cons_ok.mp followed
    obtain ⟨onward, step_again, names⟩ := step_kept keeps leads leads_again same step
    obtain ⟨end_again, later_again, end_names⟩ :=
      ih (leads.further step) (leads_again.further step_again) names later
    exact ⟨end_again, fold_cons_ok.mpr ⟨onward, step_again, later_again⟩, end_names⟩

end Kept

/-! Putting something new into a directory. -/
section Placed
variable {disk : Disk}

structure Free (disk : Disk) (way : Way) (name : String) : Prop where
  named : IsStep name
  place : ∃ entries, disk.here way = .directory entries ∧
    ∀ inside, Entry.child? entries name ≠ some (.directory inside)

theorem placed_follow {segments : List (List Char)} {way : Way}
    (followed : segments.foldlM disk.stepInto [] = .ok way) {name : String}
    (free : disk.Free way name) (entry : Entry) :
    let made : Disk := ⟨disk.top.setAt (some entry) (Way.names way ++ [name])⟩
    ∃ further, (segments ++ [name.toList]).foldlM made.stepInto [] = .ok further ∧
      made.Leads further ∧
      Way.names further = Way.names way ++ [name] ∧ made.here further = entry := by
  intro made
  obtain ⟨entries, place, open_place⟩ := free.place
  have leads : disk.Leads way := Leads.last .start followed
  have above : disk.top.at? (Way.names way) = some (.directory entries) :=
    leads.at_names.trans (by rw [place])
  have keeps : disk.top.Keeps made.top := Entry.set_at_keeps above entry name open_place
  obtain ⟨again, followed_again, same⟩ := follow_kept keeps .start .start rfl followed
  have leads_again : made.Leads again := Leads.last .start followed_again
  obtain ⟨inside, there⟩ := here_kept keeps leads leads_again same place
  have child : Entry.child? inside name = some entry := by
    have self : made.top.at? (Way.names way ++ [name]) = some entry :=
      Entry.set_at_self above entry name
    rw [← same, Entry.at_append, leads_again.at_names, there] at self
    simpa [Entry.at?] using self
  refine ⟨(name, entry) :: again, ?_, .step leads_again there child free.named, ?_, rfl⟩
  · rw [List.foldlM_append, followed_again]
    simp only [bind, Except.bind, List.foldlM_cons, List.foldlM_nil,
      step_into_child there free.named, child]
    rfl
  · simp [same]

theorem write_free {path : String} (no_nul : '\x00' ∉ path.toList) {above : List (List Char)}
    {name : String} (parts : Path.segments path.toList = above ++ [name.toList]) {way : Way}
    (followed : above.foldlM disk.stepInto [] = .ok way) (free : disk.Free way name)
    (content : Text.Bytes) :
    disk.write path content =
      .ok ⟨disk.top.setAt (some (.file content)) (Way.names way ++ [name])⟩ := by
  obtain ⟨entries, place, open_place⟩ := free.place
  have last : (above ++ [name.toList]).getLastD [] = name.toList := by simp
  have plain : ¬(Path.isNeutral name.toList = true ∨ name.toList = ['.', '.']) := by
    rw [free.named.proper]
    simp [free.named.not_parent]
  have step := step_into_child place free.named
  unfold write
  simp only [parts, last, List.dropLast_concat, List.contains_iff_mem, no_nul, followed, plain,
    ↓reduceIte, bind, Except.bind, String.ofList_toList]
  cases child : Entry.child? entries name with
  | none =>
    rw [child] at step
    simp only [step]
  | some entry =>
    rw [child] at step
    have file : (disk.here ((name, entry) :: way)).isDirectory = false := by
      cases entry with
      | file content => rfl
      | directory inside => exact absurd child (open_place inside)
    simp only [step, file, Bool.false_eq_true, ↓reduceIte]

/-- A file is only written at a place that is free. -/
theorem write_cases {path : String} {content : Text.Bytes} {saved : Disk}
    (written : disk.write path content = .ok saved) :
    '\x00' ∉ path.toList ∧ ∃ above name way, Path.segments path.toList = above ++ [name.toList] ∧
      above.foldlM disk.stepInto [] = .ok way ∧ disk.Free way name := by
  have parts := List.dropLast_concat_getLast (Path.segments_ne_nil path.toList)
  have last : (Path.segments path.toList).getLastD [] =
      (Path.segments path.toList).getLast (Path.segments_ne_nil path.toList) := by
    rw [List.getLastD_eq_getLast?, List.getLast?_eq_some_getLast (Path.segments_ne_nil path.toList)]
    rfl
  unfold write at written
  simp only [bind, Except.bind, last] at written
  generalize (Path.segments path.toList).getLast (Path.segments_ne_nil path.toList) =
    segment at parts written
  have same : (String.ofList segment).toList = segment := String.toList_ofList
  by_cases nul : path.toList.contains '\x00' = true
  · rw [if_pos nul] at written
    cases written
  rw [if_neg nul] at written
  rw [List.contains_iff_mem] at nul
  cases followed : (Path.segments path.toList).dropLast.foldlM disk.stepInto [] with
  | error fault =>
    rw [followed] at written
    cases written
  | ok way =>
    rw [followed] at written
    dsimp only at written
    by_cases special : Path.isNeutral segment = true ∨ segment = ['.', '.']
    · rw [if_pos special] at written
      cases written
    rw [if_neg special] at written
    obtain ⟨proper, not_parent⟩ := not_or.mp special
    refine ⟨nul, _, String.ofList segment, way, by rw [same]; exact parts.symm, followed, ?_⟩
    cases step : disk.stepInto way segment with
    | ok inner =>
      rw [step] at written
      dsimp only at written
      by_cases directory : (disk.here inner).isDirectory = true
      · rw [if_pos directory] at written
        cases written
      obtain ⟨entries, place,
          ⟨neutral, -⟩ | ⟨-, parent, -⟩ | ⟨name, entry, rfl, named, child, rfl⟩⟩ :=
        step_into_cases step
      · exact absurd neutral proper
      · exact absurd parent not_parent
      · rw [String.ofList_toList]
        refine ⟨named, entries, place, ?_⟩
        intro inside held
        rw [child] at held
        cases held
        exact directory rfl
    | error fault =>
      rw [step] at written
      cases fault with
      | notFound =>
        obtain ⟨named, entries, place, missing⟩ := step_not_found step
        refine ⟨named, entries, place, ?_⟩
        intro inside held
        rw [missing] at held
        cases held
      | _ => cases written

/-- What was written is read at the same path. -/
theorem write_read {path : String} {content : Text.Bytes} {saved : Disk}
    (written : disk.write path content = .ok saved) : saved.find path = .ok (.file content) := by
  obtain ⟨no_nul, above, name, way, parts, followed, free⟩ := write_cases written
  rw [write_free no_nul parts followed free] at written
  obtain ⟨further, reached, -, -, here⟩ := placed_follow followed free (.file content)
  rw [← parts] at reached
  cases written
  refine find_eq_ok.mpr ⟨further, follow_eq_ok.mpr ⟨no_nul, ?_, reached⟩, here⟩
  -- An empty path has one segment, which names nothing.
  rintro rfl
  have single : [[]] = above ++ [name.toList] := parts
  have empty : [] = name.toList := by simpa using congrArg List.getLast? single
  have neutral := free.named.proper
  rw [← empty] at neutral
  cases neutral

theorem find_child {path : String} (no_nul : '\x00' ∉ path.toList) (some_path : path ≠ "")
    {above : List (List Char)} {name : String}
    (parts : Path.segments path.toList = above ++ [name.toList]) {way : Way}
    (followed : above.foldlM disk.stepInto [] = .ok way) (named : IsStep name)
    {entries : List (String × Entry)} (place : disk.here way = .directory entries) (entry : Entry) :
    disk.find path = .ok entry ↔ Entry.child? entries name = some entry := by
  have step := step_into_child place named
  have reached : (above ++ [name.toList]).foldlM disk.stepInto [] =
      disk.stepInto way name.toList := by
    rw [List.foldlM_append, followed]
    simp only [bind, Except.bind, List.foldlM_cons, List.foldlM_nil]
    cases disk.stepInto way name.toList <;> rfl
  rw [find_eq_ok]
  simp only [follow_eq_ok, parts, reached, no_nul, some_path, step, not_false_eq_true, ne_eq,
    true_and]
  cases child : Entry.child? entries name with
  | none => simp
  | some found =>
    constructor
    · rintro ⟨further, same, here⟩
      cases same
      exact congrArg some here
    · intro same
      exact ⟨(name, found) :: way, rfl, Option.some.inj same⟩

theorem step_making_existing {segments : List (List Char)} {way last : Way}
    (followed : segments.foldlM disk.stepInto way = .ok last) :
    segments.foldlM stepMaking (disk, way) = .ok (disk, last) := by
  induction segments generalizing way with
  | nil =>
    cases followed
    rfl
  | cons segment rest ih =>
    obtain ⟨further, step, later⟩ := fold_cons_ok.mp followed
    rw [List.foldlM_cons, stepMaking]
    simp only [step]
    exact ih later

-- What was followed so far can be followed on the disk as it is now, whatever was made on the way.
theorem making_follows {before after : List (List Char)} {disk made : Disk} {way last : Way}
    (followed : before.foldlM disk.stepInto [] = .ok way)
    (making : after.foldlM stepMaking (disk, way) = .ok (made, last)) :
    (before ++ after).foldlM made.stepInto [] = .ok last := by
  induction after generalizing before disk way with
  | nil =>
    cases making
    rw [List.append_nil]
    exact followed
  | cons segment rest ih =>
    rw [List.append_cons]
    rw [List.foldlM_cons, stepMaking] at making
    cases step : disk.stepInto way segment with
    | ok further =>
      simp only [step] at making
      refine ih ?_ making
      rw [List.foldlM_append, followed]
      exact fold_cons_ok.mpr ⟨further, step, rfl⟩
    | error fault =>
      cases fault with
      | notFound =>
        obtain ⟨named, entries, place, missing⟩ := step_not_found step
        have free : disk.Free way (String.ofList segment) := by
          refine ⟨named, entries, place, ?_⟩
          intro inside held
          rw [missing] at held
          cases held
        obtain ⟨further, reached, leads, names, -⟩ := placed_follow followed free (.directory [])
        have again := leads.follow
        rw [names] at again
        rw [String.toList_ofList] at reached
        simp only [step, again, bind, Except.bind] at making
        exact ih reached making
      | _ =>
        simp only [step] at making
        cases making

theorem make_directories_follows {path : String} {made : Disk}
    (making : disk.makeDirectories path = .ok made) :
    '\x00' ∉ path.toList ∧ ∃ way entries,
      (Path.segments path.toList).foldlM made.stepInto [] = .ok way ∧
      made.here way = .directory entries := by
  unfold makeDirectories at making
  by_cases nul : path.toList.contains '\x00' = true
  · rw [if_pos nul] at making
    cases making
  · rw [if_neg nul] at making
    rw [List.contains_iff_mem] at nul
    cases folded : (Path.segments path.toList).foldlM stepMaking (disk, []) with
    | error fault =>
      rw [folded] at making
      cases making
    | ok state =>
      obtain ⟨disk', way⟩ := state
      simp only [folded, bind, Except.bind] at making
      by_cases directory : (disk'.here way).isDirectory = true
      · rw [if_pos directory] at making
        cases making
        have start : [].foldlM disk.stepInto [] = .ok [] := rfl
        have followed := making_follows start folded
        cases here : made.here way with
        | file content =>
          rw [here] at directory
          cases directory
        | directory entries => exact ⟨nul, way, entries, followed, here⟩
      · rw [if_neg directory] at making
        cases making

theorem make_directory {path : String} (no_nul : '\x00' ∉ path.toList) {above : List (List Char)}
    {name : String} (parts : Path.segments path.toList = above ++ [name.toList]) {way : Way}
    (followed : above.foldlM disk.stepInto [] = .ok way) (named : IsStep name)
    {entries : List (String × Entry)} (place : disk.here way = .directory entries)
    {inside : List (String × Entry)}
    (there : (Entry.child? entries name).getD (.directory []) = .directory inside) :
    ∃ made further, disk.makeDirectories path = .ok made ∧
      (Path.segments path.toList).foldlM made.stepInto [] = .ok further ∧
      made.here further = .directory inside := by
  have made_above := step_making_existing followed
  have step := step_into_child place named
  have makes : ∀ made further, stepMaking (disk, way) name.toList = .ok (made, further) →
      made.here further = .directory inside → disk.makeDirectories path = .ok made := by
    intro made further stepped here
    have folded : (above ++ [name.toList]).foldlM stepMaking (disk, []) = .ok (made, further) := by
      rw [List.foldlM_append, made_above]
      simp only [bind, Except.bind, List.foldlM_cons, List.foldlM_nil, stepped]
      rfl
    have directory : (made.here further).isDirectory = true := by
      rw [here]
      rfl
    simp only [makeDirectories, List.contains_iff_mem, no_nul, ↓reduceIte, parts, folded, bind,
      Except.bind, directory]
  cases child : Entry.child? entries name with
  | some entry =>
    rw [child] at step there
    have here : disk.here ((name, entry) :: way) = .directory inside := there
    refine ⟨disk, (name, entry) :: way, makes _ _ ?_ here, ?_, here⟩
    · simp only [stepMaking, step]
    · rw [parts, List.foldlM_append, followed]
      simp only [bind, Except.bind, List.foldlM_cons, List.foldlM_nil, step]
      rfl
  | none =>
    rw [child] at step there
    have free : disk.Free way name := by
      refine ⟨named, entries, place, ?_⟩
      intro directory held
      rw [child] at held
      cases held
    obtain ⟨further, reached, leads, names, here⟩ := placed_follow followed free (.directory [])
    have again := leads.follow
    rw [names] at again
    refine ⟨_, further, makes _ further ?_ (here.trans there), ?_, here.trans there⟩
    · simp only [stepMaking, step, String.ofList_toList, again, bind, Except.bind]
    · rw [parts]
      exact reached

end Placed

end Disk
end HandlerIndex
