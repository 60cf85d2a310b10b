import HandlerIndex.Proofs.FilterAgreement

/-!
Discovery does not depend on the order in which a walk reports the files. The ignore files are
sorted by their depth alone, so those of one depth stay in the order of the walk; but two of them
are never about the same path, since a path has one directory of each depth above it. The deepest
ignore file that says anything of a path decides. The root is spelled as the file system spells it;
of a root that begins with a dot or has two slashes in a row nothing is said here, since ignore
files below it are passed over or stop the program.
-/
namespace HandlerIndex.Workspace
open Ignore (Verdict)

/-! The last opinion in a list that is sorted by depth. -/
section Deepest
variable {α β : Type} {opinion : α → Option β} {depth : α → Nat}

/-- The last opinion is that of the deepest member with one, and depends on nothing but the members,
if members of one depth do not contradict each other. -/
theorem find_deepest_iff {sorted : List α} (order : sorted.Pairwise fun a b => depth a ≤ depth b)
    (agree : ∀ a ∈ sorted, ∀ b ∈ sorted, (opinion a).isSome = true → (opinion b).isSome = true →
      depth a = depth b → opinion a = opinion b) (verdict : β) :
    sorted.reverse.findSome? opinion = some verdict ↔
      ∃ a ∈ sorted, opinion a = some verdict ∧ ∀ b ∈ sorted, (opinion b).isSome = true →
        depth b ≤ depth a := by
  have last {answer : β} (found : sorted.reverse.findSome? opinion = some answer) :
      ∃ a ∈ sorted, opinion a = some answer ∧ ∀ b ∈ sorted, (opinion b).isSome = true →
        depth b ≤ depth a := by
    obtain ⟨silent, a, before, parts, told, none_said⟩ := List.findSome?_eq_some_iff.mp found
    have downward : (silent ++ a :: before).Pairwise fun x y => depth y ≤ depth x := by
      rw [← parts]
      exact List.pairwise_reverse.mpr order
    have among {b : α} : b ∈ sorted ↔ b ∈ silent ++ a :: before := by rw [← parts, List.mem_reverse]
    refine ⟨a, among.mpr (List.mem_append_right _ List.mem_cons_self), told, ?_⟩
    intro b member says_something
    rcases List.mem_append.mp (among.mp member) with unheard | rest
    · rw [none_said b unheard] at says_something
      cases says_something
    · rcases List.mem_cons.mp rest with rfl | earlier
      · exact Nat.le_refl _
      · exact (List.pairwise_cons.mp (List.pairwise_append.mp downward).2.1).1 b earlier
  refine ⟨last, ?_⟩
  rintro ⟨a, member, told, deepest⟩
  have heard {b : α} {answer : β} (says_so : opinion b = some answer) :
      (opinion b).isSome = true := by
    rw [says_so]
    rfl
  cases found : sorted.reverse.findSome? opinion with
  | none =>
    have silent := List.findSome?_eq_none_iff.mp found a (List.mem_reverse.mpr member)
    rw [told] at silent
    cases silent
  | some answer =>
    obtain ⟨b, b_member, b_told, b_deepest⟩ := last found
    have level : depth b = depth a :=
      Nat.le_antisymm (deepest b b_member (heard b_told)) (b_deepest a member (heard told))
    rw [← b_told, ← told]
    exact agree b b_member a member (heard b_told) (heard told) level

end Deepest

/-! Ignore files and the directories that they are about. -/
section Directories
variable {root : String}

/-- What stands behind the text of a directory in the text of a path below it. -/
theorem join_segments_behind (above below : List (List Char)) :
    ∃ tail, '/' :: Path.joinSegments (above ++ below) = '/' :: Path.joinSegments above ++ tail ∧
      (tail = Path.joinSegments below ∨ tail = '/' :: Path.joinSegments below) := by
  by_cases no_above : above = []
  · exact ⟨Path.joinSegments below, by rw [no_above]; rfl, .inl rfl⟩
  · by_cases no_below : below = []
    · exact ⟨[], by simp [no_below], .inl (by rw [no_below]; rfl)⟩
    · exact ⟨_, by rw [Path.join_segments_append no_above no_below, List.cons_append], .inr rfl⟩

/-- A path below a canonical directory, without the directory before it, does not begin with a
slash. -/
theorem without_base_canonical {above below : List (List Char)}
    (proper : ∀ part ∈ above ++ below, Path.IsName part) :
    Path.isAbsolute
      (Ignore.withoutBase ('/' :: Path.joinSegments above)
        ('/' :: Path.joinSegments (above ++ below))) =
      false := by
  have rest_proper : ∀ part ∈ below, Path.IsName part := fun part member =>
    proper part (List.mem_append_right above member)
  have relative := Path.join_segments_not_absolute rest_proper
  have dotless : Ignore.withoutDot ('/' :: Path.joinSegments (above ++ below)) =
      '/' :: Path.joinSegments (above ++ below) := rfl
  obtain ⟨tail, text, shape⟩ := join_segments_behind above below
  have begins :
      List.isPrefixOf ('/' :: Path.joinSegments above) ('/' :: Path.joinSegments (above ++ below)) =
        true :=
    List.isPrefixOf_iff_prefix.mpr ⟨tail, text.symm⟩
  have behind :
      ('/' :: Path.joinSegments (above ++ below)).drop ('/' :: Path.joinSegments above).length =
        tail := by
    rw [text, List.drop_left]
  unfold Ignore.withoutBase
  dsimp only
  rw [dotless, if_neg (by simp [begins]), behind]
  rcases shape with plain | slashed
  · rw [plain]
    cases text_below : Path.joinSegments below with
    | nil => rfl
    | cons c more =>
      rw [text_below, Path.isAbsolute, List.head?_cons, beq_eq_false_iff_ne, Ne, Option.some.injEq]
        at relative
      simp [Path.isAbsolute, relative]
  · rw [slashed]
    exact relative

def AtOrAbove (root : String) (directory : List String) (path : String) : Prop :=
  Path.components root.toList ++ (directory.map String.toList).map .name <+:
    Path.components (Path.join root path).toList

theorem rule_set_base {outer : List String} (outer_proper : ∀ name ∈ outer, Path.IsName name.toList)
    {file : FoundFile} (some_name : file.names ≠ [])
    (proper : ∀ name ∈ file.names, Path.IsName name.toList) :
    (ruleSetOf ("/" ++ "/".intercalate outer) file).base.toList =
      '/' :: Path.joinSegments ((outer ++ file.names.dropLast).map String.toList) := by
  have all_proper : ∀ part ∈ (outer ++ file.names).map String.toList, Path.IsName part := by
    simpa [or_imp, forall_and] using And.intro outer_proper proper
  have some_part : (outer ++ file.names).map String.toList ≠ [] := by simp [some_name]
  have joined := Path.join_canonical outer_proper some_name proper
  rw [ruleSetOf, FoundFile.pathIn, joined, Path.directory_canonical some_part all_proper,
    ← List.map_dropLast, List.dropLast_append_of_ne_nil some_name]
  exact String.toList_ofList

theorem components_base (canonical : Path.Canonical root) {file : FoundFile}
    (some_name : file.names ≠ []) (proper : ∀ name ∈ file.names, Path.IsName name.toList) :
    Path.components (ruleSetOf root file).base.toList =
      Path.components root.toList ++ (file.names.dropLast.map String.toList).map .name := by
  obtain ⟨outer, outer_proper, rfl⟩ := canonical
  have outer_parts : ∀ part ∈ outer.map String.toList, Path.IsName part := by
    simpa using outer_proper
  have all_parts : ∀ part ∈ (outer ++ file.names.dropLast).map String.toList, Path.IsName part := by
    intro part member
    obtain ⟨name, among, rfl⟩ := List.mem_map.mp member
    rcases List.mem_append.mp among with above | inside
    · exact outer_proper name above
    · exact proper name (List.dropLast_subset _ inside)
  rw [rule_set_base outer_proper some_name proper, Path.canonical_chars,
    Path.components_canonical outer_parts, Path.components_canonical all_parts]
  simp

/-- An ignore file covers only what is at or below its directory. -/
theorem at_or_above_of_covers (canonical : Path.Canonical root) {file : FoundFile}
    (some_name : file.names ≠ []) (proper : ∀ name ∈ file.names, Path.IsName name.toList)
    {path : String} (covers : (ruleSetOf root file).covers (Path.join root path) = true) :
    AtOrAbove root file.names.dropLast path := by
  rw [Ignore.RuleSet.covers, components_base canonical some_name proper, List.isPrefixOf_iff_prefix]
    at covers
  exact covers

theorem ignore_file_names {file : FoundFile} :
    FoundFile.isIgnoreFile file = true ↔ file.names = file.names.dropLast ++ [".gitignore"] := by
  rw [FoundFile.isIgnoreFile, beq_iff_eq]
  constructor
  · intro last
    obtain ⟨above, parts⟩ := List.getLast?_eq_some_iff.mp last
    rw [parts, List.dropLast_concat]
  · intro parts
    rw [parts, List.getLast?_concat]

/-- Of one depth, there is one directory at or above a path. -/
theorem directory_unique {path : String} {first second : List String}
    (above : AtOrAbove root first path) (second_above : AtOrAbove root second path)
    (level : first.length = second.length) : first = second := by
  have same :=
    (List.prefix_of_prefix_length_le above second_above (by simp [level])).eq_of_length
      (by simp [level])
  rw [List.append_cancel_left_eq] at same
  have texts := (List.map_inj_right fun a b equal => Path.Component.name.inj equal).mp same
  exact (List.map_inj_right fun a b equal => String.toList_injective equal).mp texts

end Directories

def discoverFrom (disk : Disk) (root : String) (settings : Settings) (files : List FoundFile) :
    List String :=
  ((candidates root files).filter (FileFilter.ofFiles disk root settings files).accepts).mergeSort
    fun a b => decide (a ≤ b)

theorem discover_eq_from (disk : Disk) (root : String) (settings : Settings) :
    discover disk root settings = discoverFrom disk root settings (walk disk root settings) := rfl

/-! What the ignore files among some files say. -/
section Verdicts
variable {β : Type} {opinion : Ignore.RuleSet → String → Option β}

def Local (opinion : Ignore.RuleSet → String → Option β) : Prop :=
  ∀ set path answer, opinion set path = some answer → set.covers path = true

theorem decide_local : Local Ignore.RuleSet.decide? := by
  intro set path verdict told
  by_cases covers : set.covers path = true
  · exact covers
  · rw [Ignore.RuleSet.decide?, if_neg covers] at told
    cases told

theorem outcome_local : Local Ignore.RuleSet.outcome? := by
  intro set path outcome found
  unfold Ignore.RuleSet.outcome? at found
  by_cases panics : set.panicsOn path = true
  · unfold Ignore.RuleSet.panicsOn at panics
    simp only [Bool.and_eq_true] at panics
    exact panics.1.1
  · rw [if_neg panics] at found
    obtain ⟨verdict, told, -⟩ := Option.map_eq_some_iff.mp found
    exact decide_local set path verdict told

/-- What the ignore files of a workspace say of a path; the deepest that says anything is heard. -/
def heard? (opinion : Ignore.RuleSet → String → Option β) (root : String) (files : List FoundFile)
    (path : String) : Option β :=
  (ruleSetsOf root files).reverse.findSome? (opinion · path)

theorem heard_eq (root : String) (files : List FoundFile) (path : String) :
    heard? opinion root files path = (((files.filter FoundFile.isIgnoreFile).mergeSort
      fun a b => decide (a.names.length ≤ b.names.length)).reverse).findSome?
        fun file => opinion (ruleSetOf root file) path := by
  rw [heard?, ruleSetsOf, ← List.map_reverse, List.findSome?_map]
  rfl

theorem find_rule_sets (disk : Disk) (root : String) (settings : Settings) (files : List FoundFile)
    (path : String) :
    (FileFilter.ofFiles disk root settings files).ruleSets.reverse.findSome? (opinion · path) =
      if settings.respectIgnoreFiles then (heard? opinion root files path).or
        ((excludeRules disk root).reverse.findSome? (opinion · path)) else none := by
  rw [FileFilter.ofFiles]
  by_cases respects : settings.respectIgnoreFiles = true
  · simp only [respects, if_true, List.reverse_append, List.findSome?_append, heard?]
  · simp only [respects, Bool.false_eq_true, if_false, List.reverse_nil, List.findSome?_nil]

variable {disk : Disk} {root : String} {entry : Entry} (canonical : Path.Canonical root)
  (there : disk.find root = .ok entry) (legal : entry.Legal) (settings : Settings)
include there legal

theorem walk_named {file : FoundFile} (found : file ∈ walk disk root settings) :
    file.names ≠ [] ∧ ∀ name ∈ file.names, Path.IsName name.toList := by
  obtain ⟨named, leads, -⟩ := (mem_walk_tree_iff there legal settings file).mp found
  exact ⟨named, fun name member => (way_named legal leads name member).proper⟩

theorem walk_file_unique {a b : FoundFile} (a_found : a ∈ walk disk root settings)
    (b_found : b ∈ walk disk root settings) (same : a.names = b.names) : a = b := by
  obtain ⟨-, a_leads, -⟩ := (mem_walk_tree_iff there legal settings a).mp a_found
  obtain ⟨-, b_leads, -⟩ := (mem_walk_tree_iff there legal settings b).mp b_found
  rw [same, b_leads] at a_leads
  cases a
  cases b
  cases same
  cases a_leads
  rfl

include canonical

-- Equally deep ignore files that cover one path are in the same directory, and so are the same.
theorem ignore_files_agree {a b : FoundFile} (a_found : a ∈ walk disk root settings)
    (b_found : b ∈ walk disk root settings) (a_ignores : FoundFile.isIgnoreFile a = true)
    (b_ignores : FoundFile.isIgnoreFile b = true) {path : String}
    (a_covers : (ruleSetOf root a).covers (Path.join root path) = true)
    (b_covers : (ruleSetOf root b).covers (Path.join root path) = true)
    (level : a.names.length = b.names.length) : a = b := by
  obtain ⟨a_named, a_proper⟩ := walk_named there legal settings a_found
  obtain ⟨b_named, b_proper⟩ := walk_named there legal settings b_found
  have directories := directory_unique (at_or_above_of_covers canonical a_named a_proper a_covers)
    (at_or_above_of_covers canonical b_named b_proper b_covers) (by simp [level])
  refine walk_file_unique there legal settings a_found b_found ?_
  rw [ignore_file_names.mp a_ignores, ignore_file_names.mp b_ignores, directories]

variable (local_opinion : Local opinion)
include local_opinion

/-- What is heard comes from the deepest ignore file with an opinion. -/
theorem heard_eq_some_iff {files : List FoundFile}
    (members : ∀ file ∈ files, file ∈ walk disk root settings) (path : String) (answer : β) :
    heard? opinion root files (Path.join root path) = some answer ↔
      ∃ file ∈ files, FoundFile.isIgnoreFile file = true ∧
        opinion (ruleSetOf root file) (Path.join root path) = some answer ∧
        ∀ other ∈ files, FoundFile.isIgnoreFile other = true →
          (opinion (ruleSetOf root other) (Path.join root path)).isSome = true →
          other.names.length ≤ file.names.length := by
  have order : ((files.filter FoundFile.isIgnoreFile).mergeSort
      fun a b => decide (a.names.length ≤ b.names.length)).Pairwise
        fun a b => a.names.length ≤ b.names.length := by
    refine (List.pairwise_mergeSort ?_ ?_ _).imp of_decide_eq_true
    · intro a b c first second
      exact decide_eq_true (Nat.le_trans (of_decide_eq_true first) (of_decide_eq_true second))
    · intro a b
      rw [Bool.or_eq_true, decide_eq_true_eq, decide_eq_true_eq]
      exact Nat.le_total _ _
  have sorted_iff {file : FoundFile} : file ∈ (files.filter FoundFile.isIgnoreFile).mergeSort
      (fun a b => decide (a.names.length ≤ b.names.length)) ↔
        file ∈ files ∧ FoundFile.isIgnoreFile file = true := by
    rw [List.mem_mergeSort, List.mem_filter]
  have covers {file : FoundFile}
      (told : (opinion (ruleSetOf root file) (Path.join root path)).isSome = true) :
      (ruleSetOf root file).covers (Path.join root path) = true := by
    obtain ⟨answer, found⟩ := Option.isSome_iff_exists.mp told
    exact local_opinion _ _ answer found
  rw [heard_eq, find_deepest_iff order]
  · simp only [sorted_iff, and_imp, and_assoc]
  · intro a a_member b b_member a_told b_told level
    obtain ⟨a_among, a_ignores⟩ := sorted_iff.mp a_member
    obtain ⟨b_among, b_ignores⟩ := sorted_iff.mp b_member
    rw [ignore_files_agree canonical there legal settings (members a a_among) (members b b_among)
      a_ignores b_ignores (covers a_told) (covers b_told) level]

/-- The order of the files does not show in what is heard. -/
theorem heard_of_perm {files : List FoundFile} (rearranged : files.Perm (walk disk root settings))
    (path : String) : heard? opinion root files (Path.join root path) =
      heard? opinion root (walk disk root settings) (Path.join root path) := by
  refine Option.ext fun answer => ?_
  rw [heard_eq_some_iff canonical there legal settings local_opinion
      (fun file member => rearranged.mem_iff.mp member),
    heard_eq_some_iff canonical there legal settings local_opinion (fun file member => member)]
  simp only [rearranged.mem_iff]

theorem find_of_perm {files : List FoundFile} (rearranged : files.Perm (walk disk root settings))
    (path : String) :
    (FileFilter.ofFiles disk root settings files).ruleSets.reverse.findSome?
      (opinion · (Path.join root path)) =
      (FileFilter.load disk root settings).ruleSets.reverse.findSome?
        (opinion · (Path.join root path)) := by
  rw [FileFilter.load, find_rule_sets, find_rule_sets,
    heard_of_perm canonical there legal settings local_opinion rearranged]

omit local_opinion
variable {files : List FoundFile} (rearranged : files.Perm (walk disk root settings))
include rearranged

theorem accepts_of_perm (path : String) :
    (FileFilter.ofFiles disk root settings files).accepts path =
    (FileFilter.load disk root settings).accepts path := by
  have excluded : (FileFilter.ofFiles disk root settings files).isExcluded (Path.join root path) =
      (FileFilter.load disk root settings).isExcluded (Path.join root path) := by
    rw [FileFilter.isExcluded, find_of_perm canonical there legal settings decide_local rearranged]
    rfl
  have same_root : (FileFilter.ofFiles disk root settings files).root = root := rfl
  have load_root : (FileFilter.load disk root settings).root = root := rfl
  rw [FileFilter.accepts, FileFilter.accepts, same_root, load_root, excluded]
  rfl

theorem panics_of_perm (path : String) :
    (FileFilter.ofFiles disk root settings files).panicsOn path =
    (FileFilter.load disk root settings).panicsOn path := by
  have same_root : (FileFilter.ofFiles disk root settings files).root = root := rfl
  have load_root : (FileFilter.load disk root settings).root = root := rfl
  rw [FileFilter.panicsOn, FileFilter.panicsOn, same_root, load_root,
    find_of_perm canonical there legal settings outcome_local rearranged]
  rfl

theorem discover_from_perm :
    discoverFrom disk root settings files = discover disk root settings := by
  have accepts : (FileFilter.ofFiles disk root settings files).accepts =
      (FileFilter.load disk root settings).accepts :=
    funext (accepts_of_perm canonical there legal settings rearranged)
  rw [discover_eq_from, discoverFrom, accepts]
  exact merge_sort_of_perm (((rearranged.filter _).filterMap _).filter _)

end Verdicts

/-! Two disks with the same files below the root. -/
section Disks
variable {disk : Disk} {root : String} {entry : Entry}

theorem exclude_path_eq (some_root : root ≠ "") :
    excludePath root = Path.join root ("/".intercalate [".git", "info", "exclude"]) := by
  rw [excludePath, Path.join_join some_root (by decide) (by decide) (by decide) (by decide),
    Path.join_join some_root (by decide) (by decide) (by decide) (by decide)]
  rfl

theorem read_bytes_iff {path : String} {content : Text.Bytes} :
    disk.readBytes path = .ok content ↔ disk.find path = .ok (.file content) := by
  unfold Disk.readBytes
  cases disk.find path with
  | error fault => simp [bind, Except.bind]
  | ok found => cases found <;> simp [bind, Except.bind]

theorem read_exclude_iff (there : disk.find root = .ok entry) {content : Text.Bytes} :
    disk.readBytes (excludePath root) = .ok content ↔
      entry.at? [".git", "info", "exclude"] = some (.file content) := by
  rw [read_bytes_iff, exclude_path_eq (some_path_of_find there),
    find_names_iff (List.cons_ne_nil _ _) (by decide) there]

variable {other : Disk} {arranged : Entry} (there : disk.find root = .ok entry)
  (legal : entry.Legal) (other_there : other.find root = .ok arranged)
  (other_legal : arranged.Legal)
  (same : ∀ names content,
    arranged.at? names = some (.file content) ↔ entry.at? names = some (.file content))

include there other_there same in
theorem exclude_rules_of_same : excludeRules other root = excludeRules disk root := by
  have contents (content : Text.Bytes) : other.readBytes (excludePath root) = .ok content ↔
      disk.readBytes (excludePath root) = .ok content := by
    rw [read_exclude_iff there, read_exclude_iff other_there]
    exact same _ content
  unfold excludeRules
  cases read : disk.readBytes (excludePath root) with
  | ok content => rw [(contents content).mpr read]
  | error fault =>
    cases other_read : other.readBytes (excludePath root) with
    | ok content =>
      rw [(contents content).mp other_read] at read
      cases read
    | error other_fault => rfl

include there other_there same in
theorem load_of_same (settings : Settings) :
    FileFilter.load other root settings =
      FileFilter.ofFiles disk root settings (walk other root settings) := by
  rw [FileFilter.load, FileFilter.ofFiles, FileFilter.ofFiles,
    exclude_rules_of_same there other_there same]

theorem walk_nodup {kind : String → Prop} (there : disk.find root = .ok entry)
    (tree : entry.Tree kind) (settings : Settings) : (walk disk root settings).Nodup := by
  have trees : ∀ found, disk.find root = .ok found → found.Tree kind := by
    intro found again
    rw [there] at again
    cases again
    exact tree
  exact (walk_tree_distinct trees settings).imp fun different equal => different (congrArg _ equal)

include there legal other_there other_legal same

theorem walk_of_same (settings : Settings) :
    (walk other root settings).Perm (walk disk root settings) := by
  refine (List.perm_ext_iff_of_nodup (walk_nodup other_there other_legal settings)
    (walk_nodup there legal settings)).mpr fun file => ?_
  rw [mem_walk_tree_iff other_there other_legal, mem_walk_tree_iff there legal, same]

theorem discover_of_same (canonical : Path.Canonical root) (settings : Settings) :
    discover other root settings = discover disk root settings := by
  have filters : FileFilter.ofFiles other root settings (walk other root settings) = _ :=
    load_of_same there other_there same settings
  rw [← discover_from_perm canonical there legal settings
    (walk_of_same there legal other_there other_legal same settings), discover_eq_from,
    discoverFrom, discoverFrom, filters]

end Disks

/-! Which paths are accepted. -/
section Accepted
variable {disk : Disk} {root : String} {entry : Entry} {settings : Settings} {path : String}

structure Eligible (settings : Settings) (path : String) : Prop where
  supported : isSupported path = true
  named : FileFilter.namesOf path ≠ []
  visible : ∀ name ∈ FileFilter.namesOf path, startsWithDot name = false
  entered : ∀ name ∈ (FileFilter.namesOf path).dropLast,
    settings.ignoredDirectories.contains (String.ofList name) = false

theorem accepts_iff (files : List FoundFile) :
    (FileFilter.ofFiles disk root settings files).accepts path = true ↔
      Eligible settings path ∧
        (FileFilter.ofFiles disk root settings files).isExcluded (Path.join root path) = false := by
  have same_root : (FileFilter.ofFiles disk root settings files).root = root := rfl
  have same_directories : (FileFilter.ofFiles disk root settings files).ignoredDirectories =
    settings.ignoredDirectories := rfl
  unfold FileFilter.accepts FileFilter.admits
  simp only [same_root, same_directories, Bool.and_eq_true, Bool.not_eq_true', List.any_eq_false,
    List.isEmpty_eq_false_iff, Bool.not_eq_true]
  constructor
  · rintro ⟨⟨⟨⟨supported, named⟩, visible⟩, entered⟩, kept⟩
    exact ⟨⟨supported, named, visible, entered⟩, kept⟩
  · rintro ⟨⟨supported, named, visible, entered⟩, kept⟩
    exact ⟨⟨⟨⟨supported, named⟩, visible⟩, entered⟩, kept⟩

/-- Names that begin the components of a relative path begin its names. -/
theorem names_begin {names : List (List Char)}
    (begins : names.map .name <+: Path.bodyComponents (Path.segments path.toList)) :
    names <+: FileFilter.namesOf path := by
  obtain ⟨rest, parts⟩ := begins
  have unnamed : ∀ component ∈ Path.startComponents path.toList, component = .root ∨
      component = .current := by
    unfold Path.startComponents
    by_cases absolute : Path.isAbsolute path.toList = true
    · simp [absolute]
    · by_cases dot : (Path.segments path.toList).head? = some ['.']
      · simp [absolute, dot]
      · simp [absolute, dot]
  rw [FileFilter.namesOf, Path.components_eq, ← parts, List.filterMap_append, List.filterMap_append,
    List.filterMap_eq_nil_iff.mpr fun component member => by
      rcases unnamed component member with rfl | rfl <;> rfl, List.nil_append, List.filterMap_map]
  have kept : names.filterMap some = names := List.filterMap_some
  refine ⟨_, congrArg (· ++ _) kept.symm⟩

/-- Whether the ignore file of a directory that is entered gives a verdict on a path at or below the
directory. -/
def Tells (entry : Entry) (settings : Settings) (root path : String) (directory : List String)
    (verdict : Verdict) :
    Prop :=
  ∃ content, entry.at? (directory ++ [".gitignore"]) = some (.file content) ∧
    (∀ name ∈ directory, skips settings name = false) ∧ AtOrAbove root directory path ∧
    (ruleSetOf root ⟨directory ++ [".gitignore"], content⟩).decide? (Path.join root path) =
      some verdict

/-- Whether a directory's ignore file is the deepest that gives a verdict on a path. -/
structure Decides (entry : Entry) (settings : Settings) (root path : String)
    (directory : List String) (verdict : Verdict) : Prop where
  told : Tells entry settings root path directory verdict
  deepest : ∀ further answer, Tells entry settings root path further answer →
    further.length ≤ directory.length

theorem Decides.unique {first second : List String} {verdict answer : Verdict}
    (decides : Decides entry settings root path first verdict)
    (second_decides : Decides entry settings root path second answer) :
    first = second ∧ verdict = answer := by
  obtain ⟨content, leads, -, above, told⟩ := decides.told
  obtain ⟨other, other_leads, -, other_above, other_told⟩ := second_decides.told
  have level :=
    Nat.le_antisymm (second_decides.deepest _ _ decides.told)
      (decides.deepest _ _ second_decides.told)
  have same := directory_unique above other_above level
  rw [← same, leads] at other_leads
  cases other_leads
  rw [← same, told] at other_told
  exact ⟨same, Option.some.inj other_told⟩

variable (canonical : Path.Canonical root) (there : disk.find root = .ok entry)
  (legal : entry.Legal)
include canonical there legal

theorem tells_iff {directory : List String} {verdict : Verdict} :
    Tells entry settings root path directory verdict ↔ ∃ file ∈ walk disk root settings,
      FoundFile.isIgnoreFile file = true ∧ file.names.dropLast = directory ∧
      (ruleSetOf root file).decide? (Path.join root path) = some verdict := by
  constructor
  · rintro ⟨content, leads, entered, above, told⟩
    refine ⟨⟨directory ++ [".gitignore"], content⟩, ?_, ?_, List.dropLast_concat, told⟩
    · refine (mem_walk_tree_iff there legal settings _).mpr ⟨by simp, leads, ?_⟩
      rw [List.dropLast_concat]
      exact entered
    · rw [ignore_file_names, List.dropLast_concat]
  · rintro ⟨file, found, ignores, rfl, told⟩
    obtain ⟨-, leads, entered⟩ := (mem_walk_tree_iff there legal settings file).mp found
    obtain ⟨some_name, proper⟩ := walk_named there legal settings found
    have names := ignore_file_names.mp ignores
    refine ⟨file.content, ?_, entered,
      at_or_above_of_covers canonical some_name proper (decide_local _ _ verdict told), ?_⟩
    · rw [← names]
      exact leads
    · rw [← names]
      exact told

theorem decides_iff {verdict : Verdict} :
    (∃ directory, Decides entry settings root path directory verdict) ↔
      heard? Ignore.RuleSet.decide? root (walk disk root settings) (Path.join root path) =
        some verdict := by
  rw [heard_eq_some_iff canonical there legal settings decide_local fun file member => member]
  constructor
  · rintro ⟨directory, told, deepest⟩
    obtain ⟨file, found, ignores, rfl, answered⟩ := (tells_iff canonical there legal).mp told
    refine ⟨file, found, ignores, answered, ?_⟩
    intro other other_found other_ignores other_told
    obtain ⟨answer, other_told⟩ := Option.isSome_iff_exists.mp other_told
    have shallower := deepest _ answer
      ((tells_iff canonical there legal).mpr ⟨other, other_found, other_ignores, rfl, other_told⟩)
    rw [ignore_file_names.mp other_ignores, ignore_file_names.mp ignores, List.length_append,
      List.length_append]
    exact Nat.add_le_add_right shallower 1
  · rintro ⟨file, found, ignores, told, deepest⟩
    refine ⟨file.names.dropLast,
      (tells_iff canonical there legal).mpr ⟨file, found, ignores, rfl, told⟩, ?_⟩
    intro further answer further_told
    obtain ⟨other, other_found, other_ignores, rfl, other_told⟩ :=
      (tells_iff canonical there legal).mp further_told
    have shallower := deepest other other_found other_ignores (by rw [other_told]; rfl)
    rw [List.length_dropLast, List.length_dropLast]
    exact Nat.sub_le_sub_right shallower 1

theorem unheard_iff :
    (∀ directory verdict, ¬ Tells entry settings root path directory verdict) ↔
      heard? Ignore.RuleSet.decide? root (walk disk root settings) (Path.join root path) =
        none := by
  constructor
  · intro silent
    cases found :
        heard? Ignore.RuleSet.decide? root (walk disk root settings) (Path.join root path) with
    | none => rfl
    | some verdict =>
      obtain ⟨directory, decides⟩ := (decides_iff canonical there legal).mpr found
      exact absurd decides.told (silent directory verdict)
  · intro silent directory verdict told
    obtain ⟨file, found, ignores, -, answered⟩ := (tells_iff canonical there legal).mp told
    rw [heard_eq] at silent
    have unanswered := List.findSome?_eq_none_iff.mp silent file
      (List.mem_reverse.mpr (List.mem_mergeSort.mpr (List.mem_filter.mpr ⟨found, ignores⟩)))
    rw [answered] at unanswered
    cases unanswered

omit there legal in
theorem rule_set_of_root (rules : List Ignore.Rule) :
    Ignore.RuleSet.ofDirectory root.toList rules = ⟨root, rules⟩ := by
  obtain ⟨outer, -, rfl⟩ := canonical
  have own : Ignore.withoutDot ("/" ++ "/".intercalate outer).toList =
      ("/" ++ "/".intercalate outer).toList := by
    rw [Path.canonical_chars]
    rfl
  rw [Ignore.RuleSet.ofDirectory, own, String.ofList_toList]

/-- With ignore files respected, a path is accepted if the deepest one with a verdict keeps it, or
if none has one and the exclusions do not ignore it. -/
theorem accepts_by_deepest (respects : settings.respectIgnoreFiles = true) :
    (FileFilter.load disk root settings).accepts path = true ↔ Eligible settings path ∧
      ((∃ directory, Decides entry settings root path directory .keep) ∨
        (∀ directory verdict, ¬ Tells entry settings root path directory verdict) ∧
        ∀ content, disk.readBytes (excludePath root) = .ok content →
          Ignore.RuleSet.decide? ⟨root, Ignore.readRules content⟩ (Path.join root path) ≠
            some .ignore) := by
  have exclusions : (excludeRules disk root).reverse.findSome? (·.decide? (Path.join root path)) ≠
      some .ignore ↔
      ∀ content, disk.readBytes (excludePath root) = .ok content →
        Ignore.RuleSet.decide? ⟨root, Ignore.readRules content⟩ (Path.join root path) ≠
          some .ignore := by
    unfold excludeRules
    cases disk.readBytes (excludePath root) with
    | ok content => simp [rule_set_of_root canonical]
    | error fault => simp
  rw [FileFilter.load, accepts_iff, FileFilter.isExcluded, find_rule_sets, if_pos respects,
    beq_eq_false_iff_ne, decides_iff canonical there legal, unheard_iff canonical there legal,
    ← exclusions]
  refine and_congr_right fun _ => ?_
  cases heard? Ignore.RuleSet.decide? root (walk disk root settings) (Path.join root path) with
  | none => simp
  | some verdict => cases verdict <;> simp

omit canonical legal in
/-- No directory above a path that may be accepted is skipped by the walk. -/
theorem Eligible.above_entered (eligible : Eligible settings path)
    (relative : Path.isAbsolute path.toList = false) {directory : List String} {name : String}
    (above : AtOrAbove root (directory ++ [name]) path) :
    ∀ outer ∈ directory, skips settings outer = false := by
  rw [AtOrAbove, Path.components_join_relative (some_path_of_find there) relative,
    List.prefix_append_right_inj] at above
  obtain ⟨more, names⟩ := names_begin above
  rw [List.map_append, List.map_singleton, List.append_assoc, List.singleton_append] at names
  intro outer member
  have inside : outer.toList ∈ directory.map String.toList := List.mem_map_of_mem member
  have shown := eligible.visible outer.toList (by rw [← names]; exact List.mem_append_left _ inside)
  have open_directory : settings.isIgnoredDirectory outer = false := by
    have entered := eligible.entered outer.toList (by
      rw [← names, List.dropLast_append_of_ne_nil (List.cons_ne_nil _ _)]
      exact List.mem_append_left _ inside)
    rwa [String.ofList_toList] at entered
  rw [skips, shown, open_directory]
  rfl

end Accepted

/-! Paths on which no rules panic. -/
section Panics

theorem panics_canonical {above below : List String}
    (outside : ∀ name ∈ above, Path.IsName name.toList)
    (proper : ∀ name ∈ below, Path.IsName name.toList) {set : Ignore.RuleSet} {whole : String}
    (base : set.base.toList = '/' :: Path.joinSegments (above.map String.toList))
    (text : whole.toList = '/' :: Path.joinSegments (below.map String.toList)) :
    set.panicsOn whole = false := by
  have above_parts : ∀ part ∈ above.map String.toList, Path.IsName part := by simpa using outside
  have below_parts : ∀ part ∈ below.map String.toList, Path.IsName part := by simpa using proper
  by_cases covers : set.covers whole = true
  · have begins := covers
    rw [Ignore.RuleSet.covers, base, text, Path.components_canonical above_parts,
      Path.components_canonical below_parts, List.isPrefixOf_iff_prefix, List.cons_prefix_cons]
        at begins
    have taken := List.prefix_iff_eq_take.mp begins.2
    rw [← List.map_take] at taken
    obtain ⟨count, outer⟩ : ∃ count, above.map String.toList =
        (below.map String.toList).take count :=
      ⟨_, (List.map_inj_right fun a b same => Path.Component.name.inj same).mp taken⟩
    rw [← List.take_append_drop count (below.map String.toList), ← outer] at text below_parts
    rw [Ignore.RuleSet.panicsOn, base, text, without_base_canonical below_parts, Bool.and_false]
  · rw [Ignore.RuleSet.panicsOn, Bool.eq_false_iff.mpr covers, Bool.false_and, Bool.false_and]

theorem no_panic_of_quiet {filter : FileFilter} {path : String}
    (quiet : ∀ set ∈ filter.ruleSets, set.panicsOn (Path.join filter.root path) = false) :
    filter.panicsOn path = false := by
  rw [FileFilter.panicsOn, Bool.and_eq_false_iff]
  refine .inr (beq_eq_false_iff_ne.mpr fun panicked => ?_)
  obtain ⟨set, member, outcome⟩ := List.exists_of_findSome?_eq_some panicked
  rw [Ignore.RuleSet.outcome?, quiet set (List.mem_reverse.mp member), if_neg Bool.false_ne_true]
    at outcome
  obtain ⟨verdict, -, told⟩ := Option.map_eq_some_iff.mp outcome
  cases told

theorem mem_exclude_rules {disk : Disk} {root : String} {set : Ignore.RuleSet}
    (member : set ∈ excludeRules disk root) :
    ∃ content, set = .ofDirectory root.toList (Ignore.readRules content) := by
  unfold excludeRules at member
  cases read : disk.readBytes (excludePath root) with
  | ok content =>
    rw [read, List.mem_singleton] at member
    exact ⟨content, member⟩
  | error fault =>
    rw [read] at member
    cases member

variable {disk : Disk} {root : String} {entry : Entry} {settings : Settings} {path : String}
  (canonical : Path.Canonical root) (there : disk.find root = .ok entry) (legal : entry.Legal)
include canonical there legal

/-- Every rule set of a loaded filter stands at a directory that is spelled by its names. -/
theorem loaded_bases {set : Ignore.RuleSet}
    (member : set ∈ (FileFilter.load disk root settings).ruleSets) :
    ∃ above : List String, (∀ name ∈ above, Path.IsName name.toList) ∧
      set.base.toList = '/' :: Path.joinSegments (above.map String.toList) := by
  obtain ⟨outer, outside, rfl⟩ := canonical
  rw [FileFilter.load, FileFilter.ofFiles] at member
  by_cases respects : settings.respectIgnoreFiles = true
  · rw [if_pos respects, List.mem_append] at member
    rcases member with excludes | ignores
    · obtain ⟨content, rfl⟩ := mem_exclude_rules excludes
      rw [rule_set_of_root ⟨outer, outside, rfl⟩]
      exact ⟨outer, outside, Path.canonical_chars outer⟩
    · obtain ⟨file, found, rfl⟩ := List.mem_map.mp ignores
      rw [List.mem_mergeSort, List.mem_filter] at found
      obtain ⟨file_named, file_proper⟩ := walk_named there legal settings found.1
      have inside : ∀ name ∈ file.names.dropLast, Path.IsName name.toList :=
        fun name among => file_proper name (List.dropLast_subset _ among)
      exact ⟨outer ++ file.names.dropLast, List.forall_mem_append.mpr ⟨outside, inside⟩,
        rule_set_base outside file_named file_proper⟩
  · rw [if_neg respects] at member
    cases member

theorem tidy_no_panic (tidy : Path.Tidy path) :
    (FileFilter.load disk root settings).panicsOn path = false := by
  refine no_panic_of_quiet fun set member => ?_
  obtain ⟨above, above_proper, base⟩ := loaded_bases canonical there legal member
  obtain ⟨names, some_name, proper, rfl⟩ := tidy
  obtain ⟨outer, outside, rfl⟩ := canonical
  exact panics_canonical above_proper (List.forall_mem_append.mpr ⟨outside, proper⟩) base
    (Path.join_canonical outside some_name proper)

theorem candidates_no_panic (plain : entry.Plain) {path : String}
    (candidate : path ∈ candidates root (walk disk root settings)) :
    (FileFilter.load disk root settings).panicsOn path = false := by
  obtain ⟨file, found, related⟩ := List.mem_filterMap.mp candidate
  have member := (List.mem_filter.mp found).1
  obtain ⟨some_name, leads, -⟩ := (mem_walk_tree_iff there plain settings file).mp member
  have names := way_named plain leads
  have proper : ∀ name ∈ file.names, Path.IsName name.toList :=
    fun name among => (names name among).proper
  rw [FoundFile.pathIn, Path.relative_join some_name proper (some_path_of_find there)
    fun name among =>
    (names name among).no_backslash] at related
  have same : "/".intercalate file.names = path := by
    by_cases supported : isSupported ("/".intercalate file.names) = true
    · simpa [supported] using related
    · simp [supported] at related
  exact tidy_no_panic canonical there legal ⟨file.names, some_name, proper, same.symm⟩

end Panics

/-- Below a canonical root, neither what is discovered nor what is accepted depends on the order of
the walk, and the deepest ignore file with a verdict on a path decides alone. Asking about a path
may be a panic, in every order or in none; it is none for a path of names with single slashes, and
none during discovery if no name has a backslash. -/
theorem discovery_order_free {disk : Disk} {root : String} {entry : Entry}
    (canonical : Path.Canonical root) (there : disk.find root = .ok entry) (legal : entry.Legal)
    (settings : Settings) :
    (∀ files, files.Perm (walk disk root settings) →
      discoverFrom disk root settings files = discover disk root settings ∧
      ∀ path, (FileFilter.ofFiles disk root settings files).accepts path =
          (FileFilter.load disk root settings).accepts path ∧
        (FileFilter.ofFiles disk root settings files).panicsOn path =
          (FileFilter.load disk root settings).panicsOn path) ∧
    (∀ (other : Disk) (arranged : Entry), other.find root = .ok arranged → arranged.Legal →
      (∀ names content, arranged.at? names = some (.file content) ↔
        entry.at? names = some (.file content)) →
      discover other root settings = discover disk root settings ∧
      ∀ path, (FileFilter.load other root settings).accepts path =
          (FileFilter.load disk root settings).accepts path ∧
        (FileFilter.load other root settings).panicsOn path =
          (FileFilter.load disk root settings).panicsOn path) ∧
    (∀ path, Path.Tidy path → (FileFilter.load disk root settings).panicsOn path = false) ∧
    (entry.Plain → ∀ path ∈ candidates root (walk disk root settings),
      (FileFilter.load disk root settings).panicsOn path = false) ∧
    (settings.respectIgnoreFiles = true → ∀ path,
      (FileFilter.load disk root settings).panicsOn path = false →
      ((FileFilter.load disk root settings).accepts path = true ↔ Eligible settings path ∧
        ((∃ directory, Decides entry settings root path directory .keep) ∨
          (∀ directory verdict, ¬ Tells entry settings root path directory verdict) ∧
          ∀ content, disk.readBytes (excludePath root) = .ok content →
            Ignore.RuleSet.decide? ⟨root, Ignore.readRules content⟩ (Path.join root path) ≠
              some .ignore)) ∧
      (∀ first verdict second answer, Decides entry settings root path first verdict →
        Decides entry settings root path second answer → first = second ∧ verdict = answer) ∧
      (Path.isAbsolute path.toList = false → Eligible settings path → ∀ directory name,
        AtOrAbove root (directory ++ [name]) path → ∀ outer ∈ directory,
          skips settings outer = false)) := by
  refine ⟨?_, ?_, ?_, ?_, ?_⟩
  · intro files rearranged
    exact ⟨discover_from_perm canonical there legal settings rearranged, fun path =>
      ⟨accepts_of_perm canonical there legal settings rearranged path,
        panics_of_perm canonical there legal settings rearranged path⟩⟩
  · intro other arranged other_there other_legal same
    have rearranged := walk_of_same there legal other_there other_legal same settings
    refine ⟨discover_of_same there legal other_there other_legal same canonical settings,
      fun path => ?_⟩
    rw [load_of_same there other_there same settings]
    exact ⟨accepts_of_perm canonical there legal settings rearranged path,
      panics_of_perm canonical there legal settings rearranged path⟩
  · intro path tidy
    exact tidy_no_panic canonical there legal tidy
  · intro plain path candidate
    exact candidates_no_panic canonical there legal plain candidate
  · intro respects path _
    exact ⟨accepts_by_deepest canonical there legal respects, fun _ _ _ _ first second =>
      first.unique second, fun relative eligible _ _ above =>
        eligible.above_entered there relative above⟩

/-- A directory leads to the same entries in whatever order it has them. -/
theorem at_of_perm {entries arranged : List (String × Entry)} (distinct : (entries.map (·.1)).Nodup)
    (rearranged : arranged.Perm entries) (names : List String) (content : Text.Bytes) :
    (Entry.directory arranged).at? names = some (.file content) ↔
      (Entry.directory entries).at? names = some (.file content) := by
  cases names with
  | nil => constructor <;> (intro leads; cases leads)
  | cons name rest =>
    rw [at_directory_iff distinct, at_directory_iff (((rearranged.map _).nodup_iff).mpr distinct)]
    simp only [rearranged.mem_iff]

def twinEntries : List (String × Entry) :=
  [(".gitignore", .file (Text.toBytes "x.php")),
    ("a", .directory [("x.php", .file [])]),
    ("b", .directory [(".gitignore", .file (Text.toBytes "!x.php")), ("x.php", .file [])]),
    ("c", .directory [(".gitignore", .file (Text.toBytes "y.php")), ("y.php", .file [])])]

def twinDisk : Disk := ⟨.directory [("w", .directory twinEntries)]⟩

def turnedDisk : Disk := ⟨.directory [("w", .directory twinEntries.reverse)]⟩

theorem twin_entries_order_free :
    Path.Canonical "/w" ∧ twinDisk.find "/w" = .ok (.directory twinEntries) ∧
    (Entry.directory twinEntries).Legal ∧
    discover turnedDisk "/w" .standard = discover twinDisk "/w" .standard ∧
    (FileFilter.load turnedDisk "/w" .standard).accepts "b/x.php" = true := by
  have canonical : Path.Canonical "/w" := ⟨["w"], by decide, by decide +kernel⟩
  have there : twinDisk.find "/w" = .ok (.directory twinEntries) := rfl
  have legal : (Entry.directory twinEntries).Legal := (plain_of_looks _ (by decide +kernel)).legal
  have turned_legal : (Entry.directory twinEntries.reverse).Legal :=
    (plain_of_looks _ (by decide +kernel)).legal
  obtain ⟨-, same, quiet, -, verdicts⟩ := discovery_order_free canonical there legal .standard
  obtain ⟨discovered, accepted⟩ := same turnedDisk _ rfl turned_legal
    (at_of_perm (by decide +kernel) (List.reverse_perm twinEntries))
  obtain ⟨accepts, -, -⟩ :=
    verdicts rfl "b/x.php" (quiet _ ⟨["b", "x.php"], by decide, by decide, by decide +kernel⟩)
  have eligible : Eligible .standard "b/x.php" :=
    ⟨by decide +kernel, by decide +kernel, by decide +kernel, by decide +kernel⟩
  have above : AtOrAbove "/w" ["b"] "b/x.php" := List.isPrefixOf_iff_prefix.mp (by decide +kernel)
  have whole : AtOrAbove "/w" ["b", "x.php"] "b/x.php" :=
    List.isPrefixOf_iff_prefix.mp (by decide +kernel)
  have decides : Decides (.directory twinEntries) .standard "/w" "b/x.php" ["b"] .keep := by
    refine ⟨⟨_, rfl, by decide +kernel, above, by decide +kernel⟩, ?_⟩
    rintro further answer ⟨content, leads, -, covers, -⟩
    refine Nat.not_lt.mp fun deeper => ?_
    -- Below the directory there is only the file itself, and nothing is in it.
    have bound := covers.length_le
    have parts : (Path.components (Path.join "/w" "b/x.php").toList).length = 4 := by decide +kernel
    have top : (Path.components "/w".toList).length = 2 := by decide +kernel
    rw [parts, List.length_append, List.length_map, List.length_map, top] at bound
    have level : further.length = ["b", "x.php"].length := by
      simp only [List.length_cons, List.length_nil] at deeper ⊢
      omega
    rw [directory_unique covers whole level] at leads
    cases leads
  refine ⟨canonical, there, legal, discovered, ?_⟩
  rw [(accepted _).1]
  exact accepts.mpr ⟨eligible, .inl ⟨_, decides⟩⟩

end HandlerIndex.Workspace
