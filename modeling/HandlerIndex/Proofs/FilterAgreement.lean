import HandlerIndex.Proofs.WorkspaceTree

/-!
Discovery and the file filter agree. Discovery does not enter the directories that it skips and then
asks the filter; the filter alone sees nothing but the path. They agree because the directories on
the way to a file are among the names of its path, so the filter refuses whatever lies in a
directory that is not entered. Left out are trees with a backslash in a name.
-/
namespace HandlerIndex

/-! The files that a walk finds. -/
section Walk
variable {skip : String → Bool}

theorem at_directory_iff {entries : List (String × Entry)} (distinct : (entries.map (·.1)).Nodup)
    {name : String} {rest : List String} {target : Entry} :
    (Entry.directory entries).at? (name :: rest) = some target ↔
      ∃ child ∈ entries, child.1 = name ∧ child.2.at? rest = some target := by
  rw [Entry.at?, Option.bind_eq_some_iff]
  constructor
  · rintro ⟨inner, found, leads⟩
    obtain ⟨child, looked_up, rfl⟩ := Option.map_eq_some_iff.mp found
    exact ⟨child, List.mem_of_find?_eq_some looked_up, by simpa using List.find?_some looked_up,
      leads⟩
  · rintro ⟨child, member, rfl, leads⟩
    exact ⟨child.2, child_of_mem distinct member, leads⟩

theorem way_named {kind : String → Prop} {entry : Entry} (tree : entry.Tree kind)
    {names : List String} {target : Entry} (leads : entry.at? names = some target) :
    ∀ name ∈ names, kind name := by
  induction tree generalizing names with
  | file content =>
    cases names with
    | nil => nofun
    | cons name rest => cases leads
  | directory entries distinct named inner ih =>
    cases names with
    | nil => nofun
    | cons name rest =>
      obtain ⟨child, member, rfl, further⟩ := (at_directory_iff distinct).mp leads
      intro other among
      rcases List.mem_cons.mp among with rfl | later
      · exact named child member
      · exact ih child member further other later

theorem way_plain {entry : Entry} (plain : entry.Plain) {names : List String} {target : Entry}
    (leads : entry.at? names = some target) : ∀ name ∈ names, PlainName name :=
  way_named plain leads

-- Something below a child means that it is a directory; only then can it be skipped.
theorem open_way_cons {child : Entry} {name : String} {rest : List String} {content : Text.Bytes}
    (leads : child.at? rest = some (.file content)) :
    (∀ above ∈ (name :: rest).dropLast, skip above = false) ↔
      (child.isDirectory && skip name) = false ∧ ∀ above ∈ rest.dropLast, skip above = false := by
  cases rest with
  | nil =>
    cases leads
    simp [Entry.isDirectory]
  | cons next more =>
    cases child with
    | file held => cases leads
    | directory entries => simp [Entry.isDirectory]

/-- A walk finds the files that are reached through no directory to skip. -/
theorem mem_files_iff {kind : String → Prop} {entry : Entry} (tree : entry.Tree kind)
    (names : List String) (file : FoundFile) :
    file ∈ entry.files skip names ↔ ∃ below, file.names = names ++ below ∧
      entry.at? below = some (.file file.content) ∧ ∀ above ∈ below.dropLast,
        skip above = false := by
  induction tree generalizing names with
  | file content =>
    rw [Entry.files, List.mem_singleton]
    constructor
    · rintro rfl
      exact ⟨[], (List.append_nil names).symm, rfl, fun _ member => absurd member List.not_mem_nil⟩
    · rintro ⟨below, path, leads, -⟩
      cases below with
      | nil =>
        cases leads
        rw [List.append_nil] at path
        rw [← path]
      | cons name rest => cases leads
  | directory entries distinct named inner ih =>
    rw [Entry.files, files_in_eq_flat_map, List.mem_flatMap]
    constructor
    · rintro ⟨child, member, inside⟩
      by_cases skipped : (child.2.isDirectory && skip child.1) = true
      · rw [if_pos skipped] at inside
        cases inside
      · rw [if_neg skipped] at inside
        obtain ⟨below, path, leads, open_way⟩ := (ih child member _).mp inside
        rw [List.append_assoc, List.singleton_append] at path
        refine ⟨child.1 :: below, path, ?_, ?_⟩
        · exact (at_directory_iff distinct).mpr ⟨child, member, rfl, leads⟩
        · exact (open_way_cons leads).mpr ⟨Bool.eq_false_iff.mpr skipped, open_way⟩
    · rintro ⟨below, path, leads, open_way⟩
      cases below with
      | nil => cases leads
      | cons name rest =>
        obtain ⟨child, member, rfl, further⟩ := (at_directory_iff distinct).mp leads
        obtain ⟨entered, open_rest⟩ := (open_way_cons further).mp open_way
        refine ⟨child, member, ?_⟩
        rw [entered, if_neg Bool.false_ne_true]
        refine (ih child member _).mpr ⟨rest, ?_, further, open_rest⟩
        rw [path, List.append_assoc, List.singleton_append]

end Walk

namespace Workspace

theorem names_of_joined {names : List String} (some_name : names ≠ [])
    (proper : ∀ name ∈ names, Path.IsName name.toList) :
    FileFilter.namesOf ("/".intercalate names) = names.map String.toList := by
  have parts := Path.segments_joined some_name proper
  have start : Path.startComponents ("/".intercalate names).toList = [] := by
    obtain ⟨name, rest, rfl⟩ := List.exists_cons_of_ne_nil some_name
    have no_dot : name.toList ≠ ['.'] := (proper name List.mem_cons_self).2.1
    rw [Path.startComponents, Path.joined_not_absolute some_name proper, parts]
    simp [no_dot]
  have body : Path.bodyComponents (names.map String.toList) = (names.map String.toList).map .name :=
    Path.body_components_names (by simpa using proper)
  rw [FileFilter.namesOf, Path.components_eq, start, parts, body, List.nil_append,
    List.filterMap_map]
  exact List.filterMap_some

/-- What is accepted has no hidden name, and no ignored directory above it. -/
theorem accepted_way {filter : FileFilter} {names : List String} (some_name : names ≠ [])
    (proper : ∀ name ∈ names, Path.IsName name.toList)
    (accepted : filter.accepts ("/".intercalate names) = true) :
    (∀ name ∈ names, startsWithDot name.toList = false) ∧
      ∀ name ∈ names.dropLast, filter.ignoredDirectories.contains name = false := by
  unfold FileFilter.accepts FileFilter.admits at accepted
  rw [names_of_joined some_name proper] at accepted
  simp only [Bool.and_eq_true, Bool.not_eq_true'] at accepted
  obtain ⟨⟨⟨-, visible⟩, entered⟩, -⟩ := accepted
  constructor
  · intro name member
    exact Bool.eq_false_iff.mpr fun hidden =>
      (List.any_eq_false.mp visible) _ (List.mem_map_of_mem member) hidden
  · intro name member
    rw [← List.map_dropLast] at entered
    have outside := (List.any_eq_false.mp entered) _ (List.mem_map_of_mem member)
    rw [String.ofList_toList] at outside
    exact Bool.eq_false_iff.mpr outside

theorem mem_walk_tree_iff {kind : String → Prop} {disk : Disk} {root : String} {entry : Entry}
    (there : disk.find root = .ok entry) (tree : entry.Tree kind) (settings : Settings)
    (file : FoundFile) :
    file ∈ walk disk root settings ↔ file.names ≠ [] ∧
      entry.at? file.names = some (.file file.content) ∧
      ∀ name ∈ file.names.dropLast, skips settings name = false := by
  unfold walk
  rw [there]
  cases entry with
  | file content =>
    constructor
    · intro found
      cases found
    · rintro ⟨some_name, leads, -⟩
      obtain ⟨name, rest, names⟩ := List.exists_cons_of_ne_nil some_name
      rw [names] at leads
      cases leads
  | directory entries =>
    have found : file ∈ (Entry.directory entries).files (skips settings) [] ↔ _ :=
      mem_files_iff tree [] file
    rw [Entry.files] at found
    simp only [found, List.nil_append]
    constructor
    · rintro ⟨below, rfl, leads, open_way⟩
      refine ⟨?_, leads, open_way⟩
      intro empty
      rw [empty] at leads
      cases leads
    · rintro ⟨-, leads, open_way⟩
      exact ⟨_, rfl, leads, open_way⟩

/-- The filter of a workspace, told by its ignore files if they are in order. -/
theorem load_sorted {disk : Disk} {root : String} {settings : Settings}
    {ignoreFiles : List FoundFile} (respects : settings.respectIgnoreFiles = true)
    (found : (walk disk root settings).filter FoundFile.isIgnoreFile = ignoreFiles)
    (sorted : ignoreFiles.Pairwise fun a b => a.names.length ≤ b.names.length) :
    FileFilter.load disk root settings =
      ⟨root, settings.ignoredDirectories, excludeRules disk root ++
        ignoreFiles.map (ruleSetOf root)⟩ := by
  have in_order : ignoreFiles.mergeSort (fun a b => decide (a.names.length ≤ b.names.length)) =
      ignoreFiles :=
    List.mergeSort_of_pairwise (sorted.imp fun before => decide_eq_true before)
  unfold FileFilter.load FileFilter.ofFiles ruleSetsOf
  dsimp only
  rw [respects, if_pos rfl, found, in_order]

section Agreement
variable {disk : Disk} {root : String} {entry : Entry} (there : disk.find root = .ok entry)
  (plain : entry.Plain) (settings : Settings)
include there plain

theorem mem_walk_iff (file : FoundFile) :
    file ∈ walk disk root settings ↔ file.names ≠ [] ∧
      entry.at? file.names = some (.file file.content) ∧
      ∀ name ∈ file.names.dropLast, skips settings name = false :=
  mem_walk_tree_iff there plain settings file

theorem mem_discover_iff (path : String) :
    path ∈ discover disk root settings ↔ ∃ file ∈ walk disk root settings,
      FoundFile.isIgnoreFile file = false ∧
        (FileFilter.load disk root settings).accepts file.key = true ∧
      file.key = path := by
  have tree : ∀ found, disk.find root = .ok found → found.Plain := by
    intro found same
    rw [there] at same
    cases same
    exact plain
  rw [discover_eq tree settings, List.mem_mergeSort, List.mem_map]
  simp only [discoveredFiles, List.mem_filter, Bool.and_eq_true, Bool.not_eq_true', and_assoc]

/-- The files that discovery finds are the regular files that the filter accepts by their paths. -/
theorem discovery_agrees_with_filter :
    (∀ names content, entry.at? names = some (.file content) →
      ("/".intercalate names ∈ discover disk root settings ↔
        (FileFilter.load disk root settings).accepts ("/".intercalate names) = true)) ∧
    ∀ path ∈ discover disk root settings, ∃ names content,
      entry.at? names = some (.file content) ∧ "/".intercalate names = path := by
  constructor
  · intro names content leads
    rw [mem_discover_iff there plain settings]
    constructor
    · rintro ⟨file, -, -, accepted, same⟩
      rw [← same]
      exact accepted
    · intro accepted
      have some_name : names ≠ [] := by
        rintro rfl
        exact Bool.false_ne_true accepted
      have proper : ∀ name ∈ names, Path.IsName name.toList := fun name member =>
        (way_plain plain leads name member).proper
      obtain ⟨visible, entered⟩ := accepted_way some_name proper accepted
      refine ⟨⟨names, content⟩, ?_, ?_, accepted, rfl⟩
      · refine (mem_walk_iff there plain settings _).mpr ⟨some_name, leads, ?_⟩
        intro name above
        have shown := visible name (List.dropLast_subset names above)
        have open_directory : settings.isIgnoredDirectory name = false := entered name above
        rw [skips, shown, open_directory]
        rfl
      · -- The name of an ignore file is hidden.
        rw [FoundFile.isIgnoreFile, beq_eq_false_iff_ne]
        intro last
        have shown := visible _ (List.mem_of_getLast? last)
        exact absurd shown (by decide)
  · intro path found
    obtain ⟨file, walked, -, -, same⟩ := (mem_discover_iff there plain settings path).mp found
    exact ⟨file.names, file.content, ((mem_walk_iff there plain settings file).mp walked).2.1, same⟩

end Agreement

def mixedTree : Entry :=
  .directory [
    (".hidden", .directory [("a.php", .file [])]),
    ("vendor", .directory [("b.php", .file [])]),
    (".gitignore", .file (Text.toBytes "c.php")),
    ("lib", .directory [("c.php", .file []), ("d.php", .file [])])]

def mixedDisk : Disk := ⟨.directory [("w", mixedTree)]⟩

theorem mixed_tree_plain : mixedTree.Plain := plain_of_looks _ (by decide +kernel)

theorem mixed_tree_agreement :
    mixedDisk.find "/w" = .ok mixedTree ∧ mixedTree.Plain ∧
    "/".intercalate ["lib", "d.php"] ∈ discover mixedDisk "/w" .standard ∧
    "/".intercalate ["lib", "c.php"] ∉ discover mixedDisk "/w" .standard ∧
    "/".intercalate ["vendor", "b.php"] ∉ discover mixedDisk "/w" .standard ∧
    "/".intercalate [".hidden", "a.php"] ∉ discover mixedDisk "/w" .standard := by
  have there : mixedDisk.find "/w" = .ok mixedTree := rfl
  have agrees := (discovery_agrees_with_filter there mixed_tree_plain .standard).1
  have loaded : FileFilter.load mixedDisk "/w" .standard =
      ⟨"/w", Settings.standard.ignoredDirectories,
        [⟨"/w", Ignore.readRules (Text.toBytes "c.php")⟩]⟩ := by
    have ignore_files : (walk mixedDisk "/w" .standard).filter FoundFile.isIgnoreFile =
        [⟨[".gitignore"], Text.toBytes "c.php"⟩] := rfl
    have no_exclusions : excludeRules mixedDisk "/w" = [] := rfl
    unfold FileFilter.load FileFilter.ofFiles ruleSetsOf
    dsimp only
    rw [ignore_files, no_exclusions, List.mergeSort_singleton]
    rfl
  refine ⟨there, mixed_tree_plain, (agrees _ [] rfl).mpr ?_, ?_, ?_, ?_⟩
  · rw [loaded]
    decide +kernel
  · rw [agrees _ [] rfl, loaded]
    decide +kernel
  · rw [agrees _ [] rfl, loaded]
    decide +kernel
  · rw [agrees _ [] rfl, loaded]
    decide +kernel

end Workspace
end HandlerIndex
