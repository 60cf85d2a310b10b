import HandlerIndex.Proofs.Ascending
import HandlerIndex.Proofs.PathNames
import HandlerIndex.Workspace.Discovery

/-!
The files that discovery finds in a workspace, and their paths. In a tree as a file system has it,
with no backslash in a name, each file that is found has a path of its own below the root, and what
is read there is what the file holds. Left out are links, and what a file system does to names.
-/
namespace HandlerIndex

structure LegalName (name : String) : Prop where
  proper : Path.IsName name.toList
  no_nul : '\x00' ∉ name.toList
  short : (Text.toBytes name).length ≤ Disk.nameLimit

instance : DecidablePred LegalName := fun name =>
  decidable_of_iff
    (Path.IsName name.toList ∧ '\x00' ∉ name.toList ∧ (Text.toBytes name).length ≤ Disk.nameLimit)
    ⟨fun ⟨proper, no_nul, short⟩ => ⟨proper, no_nul, short⟩,
      fun legal => ⟨legal.proper, legal.no_nul, legal.short⟩⟩

structure PlainName (name : String) : Prop extends LegalName name where
  no_backslash : '\\' ∉ name.toList

instance : DecidablePred PlainName := fun name =>
  decidable_of_iff (LegalName name ∧ '\\' ∉ name.toList)
    ⟨fun ⟨legal, no_backslash⟩ => ⟨legal, no_backslash⟩, fun plain =>
      ⟨plain.toLegalName, plain.no_backslash⟩⟩

/-- A tree in which no directory has a name twice, and all names are of a kind. -/
inductive Entry.Tree (kind : String → Prop) : Entry → Prop
  | file (content : Text.Bytes) : Entry.Tree kind (.file content)
  | directory (entries : List (String × Entry)) (distinct : (entries.map (·.1)).Nodup)
    (named : ∀ child ∈ entries, kind child.1) (inner : ∀ child ∈ entries, Entry.Tree kind child.2) :
    Entry.Tree kind (.directory entries)

def Entry.Legal (entry : Entry) : Prop := entry.Tree LegalName

def Entry.Plain (entry : Entry) : Prop := entry.Tree PlainName

theorem Entry.Tree.imp {kind wider : String → Prop} (weaker : ∀ name, kind name → wider name)
    {entry : Entry} (tree : entry.Tree kind) : entry.Tree wider := by
  induction tree with
  | file content => exact .file content
  | directory entries distinct named inner ih =>
    exact .directory entries distinct (fun child member => weaker child.1 (named child member)) ih

theorem Entry.Plain.legal {entry : Entry} (plain : entry.Plain) : entry.Legal :=
  Entry.Tree.imp (fun _ named => named.toLegalName) plain

mutual

def Entry.looksPlain : Entry → Bool
  | .file _ => true
  | .directory entries => decide (entries.map (·.1)).Nodup && allPlain entries

def allPlain : List (String × Entry) → Bool
  | [] => true
  | (name, entry) :: rest => decide (PlainName name) && entry.looksPlain && allPlain rest

end

mutual

theorem plain_of_looks : (entry : Entry) → entry.looksPlain = true → entry.Plain
  | .file content, _ => .file content
  | .directory entries, looks => by
    rw [Entry.looksPlain, Bool.and_eq_true, decide_eq_true_eq] at looks
    obtain ⟨distinct, all⟩ := looks
    have children := plain_of_all entries all
    exact .directory entries distinct (fun child member => (children child member).1)
      fun child member => (children child member).2

theorem plain_of_all : (entries : List (String × Entry)) → allPlain entries = true →
    ∀ child ∈ entries, PlainName child.1 ∧ child.2.Plain
  | [], _ => nofun
  | (name, entry) :: rest, all => by
    rw [allPlain, Bool.and_eq_true, Bool.and_eq_true, decide_eq_true_eq] at all
    obtain ⟨⟨named, looks⟩, later⟩ := all
    intro child member
    rcases List.mem_cons.mp member with rfl | inside
    · exact ⟨named, plain_of_looks entry looks⟩
    · exact plain_of_all rest later child inside

end

def Entry.at? : List String → Entry → Option Entry
  | [], entry => some entry
  | _ :: _, .file _ => none
  | name :: rest, .directory entries => (Entry.child? entries name).bind (Entry.at? rest)

/-! The files at or below an entry. -/
section Files
variable {skip : String → Bool}

theorem files_in_eq_flat_map (names : List String) (entries : List (String × Entry)) :
    filesIn skip names entries = entries.flatMap fun child =>
      if child.2.isDirectory && skip child.1 then []
      else child.2.files skip (names ++ [child.1]) := by
  induction entries with
  | nil => rfl
  | cons child rest ih =>
    obtain ⟨name, entry⟩ := child
    rw [filesIn, List.flatMap_cons, ih]

theorem mem_files_in {names : List String} {entries : List (String × Entry)} {file : FoundFile}
    (found : file ∈ filesIn skip names entries) :
    ∃ child ∈ entries, file ∈ child.2.files skip (names ++ [child.1]) := by
  rw [files_in_eq_flat_map] at found
  obtain ⟨child, member, inside⟩ := List.mem_flatMap.mp found
  split at inside
  · cases inside
  · exact ⟨child, member, inside⟩

theorem child_of_mem {entries : List (String × Entry)} (distinct : (entries.map (·.1)).Nodup)
    {child : String × Entry} (member : child ∈ entries) :
    Entry.child? entries child.1 = some child.2 := by
  have apart : entries.Pairwise fun a b => a.1 ≠ b.1 := List.pairwise_map.mp distinct
  rw [Entry.child?, find_distinct Prod.fst apart member, Option.map_some]

/-- A file that is found is where its names lead to. -/
theorem file_at_names {kind : String → Prop} {entry : Entry} (tree : entry.Tree kind)
    (names : List String) {file : FoundFile} (found : file ∈ entry.files skip names) :
    ∃ below, file.names = names ++ below ∧ (∀ name ∈ below, kind name) ∧
      entry.at? below = some (.file file.content) := by
  induction tree generalizing names with
  | file content =>
    rw [Entry.files, List.mem_singleton] at found
    subst found
    exact ⟨[], (List.append_nil names).symm, nofun, rfl⟩
  | directory entries distinct named inner ih =>
    rw [Entry.files] at found
    obtain ⟨child, member, inside⟩ := mem_files_in found
    obtain ⟨below, path, named_below, leads⟩ := ih child member (names ++ [child.1]) inside
    refine ⟨child.1 :: below, ?_, ?_, ?_⟩
    · rw [path, List.append_assoc, List.singleton_append]
    · intro name among
      rcases List.mem_cons.mp among with rfl | later
      · exact named child member
      · exact named_below name later
    · rw [Entry.at?, child_of_mem distinct member]
      exact leads

/-- No two files that are found have the same names. -/
theorem files_distinct {kind : String → Prop} {entry : Entry} (tree : entry.Tree kind)
    (names : List String) :
    (entry.files skip names).Pairwise fun a b => a.names ≠ b.names := by
  induction tree generalizing names with
  | file content => exact List.pairwise_singleton _ _
  | directory entries distinct named inner ih =>
    rw [Entry.files, files_in_eq_flat_map, List.pairwise_flatMap]
    constructor
    · intro child member
      split
      · exact List.Pairwise.nil
      · exact ih child member _
    · -- Files of different children differ in the name of the child.
      have apart : entries.Pairwise fun a b => a.1 ≠ b.1 := List.pairwise_map.mp distinct
      refine List.Pairwise.imp_of_mem ?_ apart
      intro first second first_member second_member different a a_found b b_found same
      split at a_found
      · cases a_found
      split at b_found
      · cases b_found
      obtain ⟨below, a_path, -⟩ := file_at_names (inner first first_member) _ a_found
      obtain ⟨beneath, b_path, -⟩ := file_at_names (inner second second_member) _ b_found
      rw [a_path, b_path, List.append_assoc, List.append_assoc, List.append_cancel_left_eq,
        List.singleton_append, List.singleton_append, List.cons.injEq] at same
      exact different same.1

end Files

/-! Following the path of a file. -/
section Follow
variable {disk : Disk}

structure Disk.IsStep (name : String) : Prop where
  proper : Path.isNeutral name.toList = false
  not_parent : name.toList ≠ ['.', '.']
  short : (Text.toBytes name).length ≤ Disk.nameLimit

theorem LegalName.is_step {name : String} (legal : LegalName name) : Disk.IsStep name :=
  ⟨Path.name_not_neutral legal.proper, legal.proper.2.2.1, legal.short⟩

theorem Disk.step_into_child {way : Way} {entries : List (String × Entry)}
    (place : disk.here way = .directory entries) {name : String} (named : IsStep name) :
    disk.stepInto way name.toList =
      match Entry.child? entries name with
      | some entry => .ok ((name, entry) :: way)
      | none => .error .notFound := by
  have short : ¬nameLimit < (Text.toBytes (String.ofList name.toList)).length := by
    rw [String.ofList_toList]
    exact Nat.not_lt.mpr named.short
  rw [stepInto, place]
  dsimp only
  rw [named.proper, if_neg Bool.false_ne_true, if_neg named.not_parent, if_neg short]
  cases child : Entry.child? entries name with
  | none => simp only [String.ofList_toList, child]
  | some entry => simp only [String.ofList_toList, child]

theorem follow_names {names : List String} (legal : ∀ name ∈ names, LegalName name) {way : Disk.Way}
    {entry : Entry} (leads : (disk.here way).at? names = some entry) :
    ∃ further, (names.map String.toList).foldlM disk.stepInto way = .ok further ∧
      disk.here further = entry := by
  induction names generalizing way with
  | nil => exact ⟨way, rfl, Option.some.inj leads⟩
  | cons name rest ih =>
    cases place : disk.here way with
    | file content =>
      rw [place] at leads
      cases leads
    | directory entries =>
      rw [place, Entry.at?] at leads
      obtain ⟨inner, child, leads⟩ := Option.bind_eq_some_iff.mp leads
      have step : disk.stepInto way name.toList = .ok ((name, inner) :: way) := by
        rw [Disk.step_into_child place (legal name List.mem_cons_self).is_step, child]
      rw [List.map_cons, List.foldlM_cons, step]
      exact ih (fun other member => legal other (List.mem_cons_of_mem _ member)) leads

/-- What is reached by names is where the names lead to. -/
theorem at_of_follow {names : List String} (legal : ∀ name ∈ names, LegalName name)
    {way further : Disk.Way}
    (followed : (names.map String.toList).foldlM disk.stepInto way = .ok further) :
    (disk.here way).at? names = some (disk.here further) := by
  induction names generalizing way with
  | nil =>
    cases followed
    rfl
  | cons name rest ih =>
    rw [List.map_cons, List.foldlM_cons] at followed
    cases place : disk.here way with
    | file content =>
      have step : disk.stepInto way name.toList = .error .notADirectory := by
        rw [Disk.stepInto, place]
      rw [step] at followed
      cases followed
    | directory entries =>
      rw [Disk.step_into_child place (legal name List.mem_cons_self).is_step] at followed
      cases child : Entry.child? entries name with
      | none =>
        rw [child] at followed
        cases followed
      | some inner =>
        rw [child] at followed
        rw [Entry.at?, child]
        exact ih (fun other member => legal other (List.mem_cons_of_mem _ member)) followed

theorem find_eq_ok {path : String} {entry : Entry} :
    disk.find path = .ok entry ↔ ∃ way, disk.follow path = .ok way ∧ disk.here way = entry := by
  unfold Disk.find
  cases disk.follow path with
  | ok way => simp [bind, Except.bind]
  | error fault => simp [bind, Except.bind]

theorem has_of_read_text {path content : String} (read : disk.readText path = .ok content) :
    disk.has path = true := by
  unfold Disk.readText Disk.readBytes at read
  unfold Disk.has
  cases found : disk.find path with
  | ok entry => rfl
  | error fault =>
    rw [found] at read
    cases read

theorem follow_eq_ok {path : String} {way : Disk.Way} :
    disk.follow path = .ok way ↔ '\x00' ∉ path.toList ∧ path ≠ "" ∧
      (Path.segments path.toList).foldlM disk.stepInto [] = .ok way := by
  unfold Disk.follow
  by_cases nul : '\x00' ∈ path.toList
  · simp [nul]
  · by_cases empty : path = ""
    · simp [empty]
    · simp [nul, empty]

theorem some_path_of_find {path : String} {entry : Entry} (there : disk.find path = .ok entry) :
    path ≠ "" := by
  obtain ⟨way, followed, -⟩ := find_eq_ok.mp there
  exact (follow_eq_ok.mp followed).2.1

-- The empty segment that a slash at the end leaves is passed only in a directory, and leads nowhere
-- else.
theorem step_into_empty {way further : Disk.Way} (step : disk.stepInto way [] = .ok further) :
    further = way := by
  unfold Disk.stepInto at step
  split at step
  · cases step
  · have neutral : Path.isNeutral [] = true := rfl
    rw [neutral, if_pos rfl] at step
    cases step
    rfl

theorem follow_above {parts above : List (List Char)} {way : Disk.Way}
    (whole : parts = above ∨ parts = above ++ [[]])
    (followed : parts.foldlM disk.stepInto [] = .ok way) :
    above.foldlM disk.stepInto [] = .ok way := by
  rcases whole with same | ended
  · rw [← same]
    exact followed
  · rw [ended, List.foldlM_append] at followed
    cases reached : above.foldlM disk.stepInto [] with
    | error fault =>
      rw [reached] at followed
      cases followed
    | ok before =>
      have step : disk.stepInto before [] = .ok way := by
        rw [reached] at followed
        simp only [List.foldlM_cons, List.foldlM_nil, bind_pure] at followed
        exact followed
      rw [step_into_empty step]

/-- Following a path below a root is going on from where the root is. -/
theorem follow_join_iff {root path : String} {way further : Disk.Way}
    (there : disk.follow root = .ok way) (relative : Path.isAbsolute path.toList = false) :
    disk.follow (Path.join root path) = .ok further ↔ '\x00' ∉ path.toList ∧
      (Path.segments path.toList).foldlM disk.stepInto way = .ok further := by
  obtain ⟨no_nul, some_root, followed⟩ := follow_eq_ok.mp there
  obtain ⟨above, -, root_parts, join_parts⟩ := Path.segments_join some_root
  obtain ⟨divider, -, joined⟩ := Path.join_eq_append some_root relative
  have some_path : Path.join root path ≠ "" := by
    intro empty
    rw [empty] at joined
    simp [some_root] at joined
  rw [follow_eq_ok, join_parts path relative, List.foldlM_append, follow_above root_parts followed]
  constructor
  · rintro ⟨clean, -, reached⟩
    refine ⟨?_, reached⟩
    rw [joined, List.mem_append, List.mem_append, not_or, not_or] at clean
    exact clean.2.2
  · rintro ⟨clean, reached⟩
    exact ⟨Path.not_mem_join some_root relative (by decide) no_nul clean, some_path, reached⟩

section Names
variable {root : String} {names : List String} (some_name : names ≠ [])
  (legal : ∀ name ∈ names, LegalName name)
include some_name legal

theorem follow_names_iff {way further : Disk.Way} (there : disk.follow root = .ok way) :
    disk.follow (Path.join root ("/".intercalate names)) = .ok further ↔
      (names.map String.toList).foldlM disk.stepInto way = .ok further := by
  have proper : ∀ name ∈ names, Path.IsName name.toList :=
    fun name member => (legal name member).proper
  rw [follow_join_iff there (Path.joined_not_absolute some_name proper),
    Path.segments_joined some_name proper]
  exact and_iff_right (Path.not_mem_joined (by decide) fun name member =>
    (legal name member).no_nul)

theorem follow_join {way : Disk.Way} (there : disk.follow root = .ok way) {entry : Entry}
    (leads : (disk.here way).at? names = some entry) :
    ∃ further, disk.follow (Path.join root ("/".intercalate names)) = .ok further ∧
      disk.here further = entry := by
  obtain ⟨further, reached, here⟩ := follow_names legal leads
  exact ⟨further, (follow_names_iff some_name legal there).mpr reached, here⟩

/-- The path of names below a root leads to the entry that the names lead to. -/
theorem find_names_iff {entry target : Entry} (there : disk.find root = .ok entry) :
    disk.find (Path.join root ("/".intercalate names)) = .ok target ↔
      entry.at? names = some target := by
  obtain ⟨way, followed, rfl⟩ := find_eq_ok.mp there
  rw [find_eq_ok]
  constructor
  · rintro ⟨further, reached, rfl⟩
    exact at_of_follow legal ((follow_names_iff some_name legal followed).mp reached)
  · intro leads
    exact follow_join some_name legal followed leads

end Names

end Follow

def FoundFile.key (file : FoundFile) : String := "/".intercalate file.names

def FoundFile.text? (file : FoundFile) : Option String :=
  match Text.ofBytes file.content with
  | .ok text => some text
  | .error _ => none

structure FoundFile.Placed (disk : Disk) (root : String) (file : FoundFile) : Prop where
  some_root : root ≠ ""
  some_name : file.names ≠ []
  plain : ∀ name ∈ file.names, PlainName name
  there : disk.find (Path.join root file.key) = .ok (.file file.content)

namespace FoundFile.Placed
variable {disk : Disk} {root : String} {file : FoundFile}

theorem proper (placed : file.Placed disk root) : ∀ name ∈ file.names, Path.IsName name.toList :=
  fun name member => (placed.plain name member).proper

theorem relative_path (placed : file.Placed disk root) :
    Path.relative? root (Path.join root file.key) = some file.key :=
  Path.relative_join placed.some_name placed.proper placed.some_root
    fun name member => (placed.plain name member).no_backslash

theorem names_of_key {other : FoundFile} (placed : file.Placed disk root)
    (other_placed : other.Placed disk root) (same : file.key = other.key) :
    file.names = other.names :=
  Path.joined_injective placed.some_name placed.proper other_placed.some_name other_placed.proper
    same

theorem read_text (placed : file.Placed disk root) :
    disk.readText (Path.join root file.key) =
      match file.text? with
      | some text => .ok text
      | none => .error .invalidData := by
  unfold Disk.readText Disk.readBytes FoundFile.text?
  rw [placed.there]
  simp only [bind, Except.bind]
  cases Text.ofBytes file.content <;> rfl

end FoundFile.Placed

namespace Workspace

def discoveredFiles (disk : Disk) (root : String) (settings : Settings) : List FoundFile :=
  (walk disk root settings).filter fun file =>
    !FoundFile.isIgnoreFile file && (FileFilter.load disk root settings).accepts file.key

theorem walk_tree_distinct {kind : String → Prop} {disk : Disk} {root : String}
    (tree : ∀ entry, disk.find root = .ok entry → entry.Tree kind) (settings : Settings) :
    (walk disk root settings).Pairwise fun a b => a.names ≠ b.names := by
  unfold walk
  cases there : disk.find root with
  | error fault => exact List.Pairwise.nil
  | ok entry =>
    cases entry with
    | file content => exact List.Pairwise.nil
    | directory entries =>
      have distinct : ((Entry.directory entries).files (skips settings) []).Pairwise fun a b =>
          a.names ≠ b.names := files_distinct (tree _ there) []
      rw [Entry.files] at distinct
      exact distinct

section Discovered
variable {disk : Disk} {root : String} (tree : ∀ entry, disk.find root = .ok entry → entry.Plain)
  (settings : Settings)
include tree

theorem walk_placed {file : FoundFile} (found : file ∈ walk disk root settings) :
    file.Placed disk root := by
  unfold walk at found
  cases there : disk.find root with
  | error fault =>
    rw [there] at found
    cases found
  | ok entry =>
    rw [there] at found
    cases entry with
    | file content => cases found
    | directory entries =>
      have plain := tree _ there
      have inside : file ∈ (Entry.directory entries).files (skips settings) [] := by
        rw [Entry.files]
        exact found
      obtain ⟨below, path, plain_below, leads⟩ := file_at_names plain [] inside
      rw [List.nil_append] at path
      subst path
      -- What has no names is the directory itself, and that is not a file.
      have some_name : file.names ≠ [] := by
        intro empty
        rw [empty] at leads
        cases leads
      have legal_below : ∀ name ∈ file.names, LegalName name :=
        fun name member => (plain_below name member).toLegalName
      exact ⟨some_path_of_find there, some_name, plain_below,
        (find_names_iff some_name legal_below there).mpr leads⟩

theorem walk_distinct : (walk disk root settings).Pairwise fun a b => a.names ≠ b.names :=
  walk_tree_distinct tree settings

theorem discovered_placed {file : FoundFile} (found : file ∈ discoveredFiles disk root settings) :
    file.Placed disk root :=
  walk_placed tree settings (List.mem_filter.mp found).1

theorem discovered_keys_nodup : ((discoveredFiles disk root settings).map FoundFile.key).Nodup := by
  have distinct : (discoveredFiles disk root settings).Pairwise fun a b => a.names ≠ b.names :=
    (walk_distinct tree settings).filter _
  refine List.pairwise_map.mpr (List.Pairwise.imp_of_mem ?_ distinct)
  intro a b a_found b_found different same
  have a_placed := discovered_placed tree settings a_found
  have b_placed := discovered_placed tree settings b_found
  exact different (a_placed.names_of_key b_placed same)

end Discovered

theorem accepted_supported {filter : FileFilter} {path : String}
    (accepted : filter.accepts path = true) :
    isSupported path = true := by
  unfold FileFilter.accepts FileFilter.admits at accepted
  simp only [Bool.and_eq_true] at accepted
  exact accepted.1.1.1.1

theorem candidates_accepted {root : String} (key : FoundFile → String) (filter : FileFilter)
    (files : List FoundFile)
    (related : ∀ file ∈ files, Path.relative? root (Path.join root file.key) = some (key file)) :
    (candidates root files).filter filter.accepts =
      (files.filter fun file => !FoundFile.isIgnoreFile file && filter.accepts (key file)).map
        key := by
  induction files with
  | nil => rfl
  | cons file rest ih =>
    have path : Path.relative? root (FoundFile.pathIn root file) = some (key file) :=
      related file List.mem_cons_self
    have later := ih fun other member => related other (List.mem_cons_of_mem _ member)
    unfold candidates at later ⊢
    by_cases ignored : FoundFile.isIgnoreFile file = true
    · simpa [ignored] using later
    · by_cases accepted : filter.accepts (key file) = true
      · have supported := accepted_supported accepted
        simpa [ignored, path, supported, accepted] using later
      · by_cases supported : isSupported (key file) = true <;>
          simpa [ignored, path, supported, accepted] using later

/-- The names that are discovered are those of the discovered files, in order. -/
theorem discover_eq {disk : Disk} {root : String}
    (tree : ∀ entry, disk.find root = .ok entry → entry.Plain) (settings : Settings) :
    discover disk root settings =
      ((discoveredFiles disk root settings).map FoundFile.key).mergeSort fun a b =>
        decide (a ≤ b) := by
  unfold discover
  dsimp only
  rw [candidates_accepted FoundFile.key _ _ fun file found =>
    (walk_placed tree settings found).relative_path]
  rfl

end Workspace

end HandlerIndex
