import HandlerIndex.Proofs.FilterAgreement
import HandlerIndex.Proofs.WorkspaceMirror

/-!
The entries below the root of the index service, each reached by its names. In a plain tree a path
of plain names leads to the entry and nowhere else, so what is read, found or discovered under a
path is told by the entry alone. Left out are links and names with a backslash.
-/
namespace HandlerIndex

structure Route (names : List String) : Prop where
  some_name : names ≠ []
  plain : ∀ name ∈ names, PlainName name

namespace Route
variable {names : List String}

theorem proper (route : Route names) : ∀ name ∈ names, Path.IsName name.toList :=
  fun name member => (route.plain name member).proper

theorem legal (route : Route names) : ∀ name ∈ names, LegalName name :=
  fun name member => (route.plain name member).toLegalName

theorem joined_injective (route : Route names) {others : List String} (other : Route others)
    (same : "/".intercalate names = "/".intercalate others) : names = others :=
  Path.joined_injective route.some_name route.proper other.some_name other.proper same

theorem relative_path (route : Route names) {root : String} (some_root : root ≠ "") :
    Path.relative? root (Path.join root ("/".intercalate names)) = some ("/".intercalate names) :=
  Path.relative_join route.some_name route.proper some_root fun name member =>
    (route.plain name member).no_backslash

end Route

def Disk.below? (disk : Disk) (root : String) (names : List String) : Option Entry :=
  match disk.find root with
  | .ok entry => entry.at? names
  | .error _ => none

def Disk.Rooted (disk : Disk) (root : String) : Prop :=
  ∃ entry, disk.find root = .ok entry ∧ entry.Plain

section Paths
variable {disk : Disk} {root : String} {names : List String}

theorem below_eq {entry : Entry} (there : disk.find root = .ok entry) (names : List String) :
    disk.below? root names = entry.at? names := by
  rw [Disk.below?, there]

theorem Disk.Rooted.some_root (rooted : disk.Rooted root) : root ≠ "" := by
  obtain ⟨entry, there, -⟩ := rooted
  exact some_path_of_find there

theorem Disk.Rooted.tree (rooted : disk.Rooted root) :
    ∀ entry, disk.find root = .ok entry → entry.Plain := by
  obtain ⟨entry, there, plain⟩ := rooted
  intro other same
  rw [there] at same
  cases same
  exact plain

theorem find_join_iff (rooted : disk.Rooted root) (route : Route names) (target : Entry) :
    disk.find (Path.join root ("/".intercalate names)) = .ok target ↔
      disk.below? root names = some target := by
  obtain ⟨entry, there, -⟩ := rooted
  rw [below_eq there]
  exact find_names_iff route.some_name route.legal there

end Paths

namespace Workspace
section Files
variable (index : Index) {disk : Disk} {names : List String}

def Index.sourceOf? (content : Text.Bytes) : Option Source :=
  match Text.ofBytes content with
  | .ok text => some (index.source text)
  | .error _ => none

theorem has_route (rooted : disk.Rooted index.root) (route : Route names) :
    disk.has (index.resolve ("/".intercalate names)) = (disk.below? index.root names).isSome := by
  have leads := find_join_iff rooted route
  rw [Disk.has, Index.resolve]
  cases found : disk.find (Path.join index.root ("/".intercalate names)) with
  | ok entry =>
    rw [(leads entry).mp found]
    rfl
  | error fault =>
    cases below : disk.below? index.root names with
    | none => rfl
    | some entry =>
      rw [(leads entry).mpr below] at found
      cases found

theorem read_route (rooted : disk.Rooted index.root) (route : Route names) :
    index.read? disk ("/".intercalate names) =
      match disk.below? index.root names with
      | some (.file content) => index.sourceOf? content
      | _ => none := by
  have leads := find_join_iff rooted route
  unfold Index.read? Index.resolve Disk.readText Disk.readBytes Index.sourceOf?
  cases found : disk.find (Path.join index.root ("/".intercalate names)) with
  | ok entry =>
    rw [(leads entry).mp found]
    cases entry with
    | file content =>
      simp only [bind, Except.bind]
      cases Text.ofBytes content <;> rfl
    | directory entries => rfl
  | error fault =>
    cases below : disk.below? index.root names with
    | none => rfl
    | some entry =>
      rw [(leads entry).mpr below] at found
      cases found

theorem file_of_read (rooted : disk.Rooted index.root) (route : Route names) {source : Source}
    (read : index.read? disk ("/".intercalate names) = some source) :
    ∃ content, disk.below? index.root names = some (.file content) := by
  rw [read_route index rooted route] at read
  split at read
  · exact ⟨_, by assumption⟩
  · cases read

theorem read_of_same_file {before after : Disk} (rooted : before.Rooted index.root)
    (rooted_after : after.Rooted index.root) (route : Route names)
    (same : ∀ content, after.below? index.root names = some (.file content) ↔
      before.below? index.root names = some (.file content)) {source : Source}
    (read : index.read? after ("/".intercalate names) = some source) :
    index.read? before ("/".intercalate names) = some source := by
  obtain ⟨content, found⟩ := file_of_read index rooted_after route read
  rw [read_route index rooted_after route, found] at read
  rw [read_route index rooted route, (same content).mp found]
  exact read

/-- A path is discovered exactly if there is a regular file, and the filter accepts it. -/
theorem mem_discover_route (rooted : disk.Rooted index.root) (route : Route names) :
    "/".intercalate names ∈ discover disk index.root index.settings ↔
      (∃ content, disk.below? index.root names = some (.file content)) ∧
        (FileFilter.load disk index.root index.settings).accepts ("/".intercalate names) =
          true := by
  obtain ⟨entry, there, plain⟩ := rooted
  rw [mem_discover_iff there plain, below_eq there]
  constructor
  · rintro ⟨file, walked, -, accepted, same⟩
    obtain ⟨some_name, leads, -⟩ := (mem_walk_iff there plain index.settings file).mp walked
    have equal := Route.joined_injective ⟨some_name, way_plain plain leads⟩ route same
    rw [← equal]
    exact ⟨⟨file.content, leads⟩, accepted⟩
  · rintro ⟨⟨content, leads⟩, accepted⟩
    obtain ⟨visible, entered⟩ := accepted_way route.some_name route.proper accepted
    refine ⟨⟨names, content⟩, ?_, ?_, accepted, rfl⟩
    · refine (mem_walk_iff there plain index.settings _).mpr ⟨route.some_name, leads, ?_⟩
      intro name above
      have open_directory : index.settings.isIgnoredDirectory name = false := entered name above
      rw [skips, visible name (List.dropLast_subset names above), open_directory]
      rfl
    · rw [FoundFile.isIgnoreFile, beq_eq_false_iff_ne]
      intro last
      exact absurd (visible _ (List.mem_of_getLast? last)) (by decide)

theorem discovered_route (rooted : disk.Rooted index.root) {file : String}
    (found : file ∈ discover disk index.root index.settings) :
    ∃ names, Route names ∧ file = "/".intercalate names := by
  obtain ⟨entry, there, plain⟩ := rooted
  obtain ⟨found_file, walked, -, -, same⟩ :=
    (mem_discover_iff there plain index.settings file).mp found
  obtain ⟨some_name, leads, -⟩ := (mem_walk_iff there plain index.settings found_file).mp walked
  exact ⟨found_file.names, ⟨some_name, way_plain plain leads⟩, same.symm⟩

end Files
end Workspace
end HandlerIndex
