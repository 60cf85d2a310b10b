import HandlerIndex.Proofs.ServiceRuns
import HandlerIndex.Proofs.WorkspaceTree
import Mathlib.Algebra.Ring.Nat

/-!
A run of the index service makes the tables mirror the workspace, whatever they held before. What
they know afterwards is what can be read now, and for the files that cannot be read it is what they
knew of them. Doing it once more changes nothing. Left out are disks that change during a run.
-/
namespace HandlerIndex.Workspace
open Store (Tables)

/-! What the tables know after a workspace was indexed. -/
section Knowledge
variable (index : Index) {sources : Set Source} {tables : Tables} {known : String → Option Source}

def Index.mirrored (disk : Disk) (known : String → Option Source) : String → Option Source :=
  fun file =>
    if file ∈ discover disk index.root index.settings then (index.read? disk file).or (known file)
    else none

theorem last_source_read_all (disk : Disk) (files : List String) (file : String) :
    lastSource? (index.readAll disk files) file =
      if file ∈ files then index.read? disk file else none := by
  induction files with
  | nil => rfl
  | cons first rest ih =>
    have here : lastSource? (index.readAll disk [first]) file =
        if file = first then index.read? disk file else none := by
      by_cases same : file = first
      · subst same
        cases read : index.read? disk file <;> simp [Index.readAll, read, lastSource?]
      · cases read : index.read? disk first <;>
          simp [Index.readAll, read, lastSource?, same, Ne.symm same]
    rw [read_all_cons, last_source_append, ih, here]
    by_cases same : file = first
    · subst same
      by_cases later : file ∈ rest <;> simp [later]
    · simp [same]

theorem index_workspace_mirrors (apart : ToldApart index.fingerprint sources)
    (knows : Knows index.fingerprint sources tables known) (disk : Disk) (now : Int64)
    (draws : index.Draws disk (discover disk index.root index.settings) sources) :
    Knows index.fingerprint sources (index.indexWorkspace disk now tables).2
      (index.mirrored disk known) := by
  have same : learn
        (fun file => if file ∈ discover disk index.root index.settings then known file else none)
        (index.readAll disk (discover disk index.root index.settings)) =
        index.mirrored disk known := by
    funext file
    simp only [learn, last_source_read_all, Index.mirrored]
    split <;> simp
  rw [← same]
  exact index_workspace_knows index apart knows disk now draws

end Knowledge

/-! What a file's entry is made of stays as it is if the file cannot be read. -/
section Frame
variable (index : Index) {tables : Tables}

def entryOf (tables : Tables) (file : String) : Option Store.FileRecord × List Store.Row :=
  (tables.fileRecord? file, tables.rowsOf file)

theorem entry_put (now : Int64) (file hash : String) (payload : Payload) {other : String}
    (different : other ≠ file) :
    entryOf (tables.put now file hash payload) other = entryOf tables other := by
  simp [entryOf, different]

theorem entry_remove_all (files : List String) {other : String} (absent : other ∉ files) :
    entryOf (files.foldl Tables.remove tables) other = entryOf tables other := by
  induction files generalizing tables with
  | nil => rfl
  | cons file rest ih =>
    rw [List.mem_cons, not_or] at absent
    rw [List.foldl_cons, ih absent.2]
    simp [entryOf, absent.1]

theorem index_next_tables (disk : Disk) (now : Int64) (stats : Stats) (file : String) :
    (index.indexNext disk now (stats, tables) file).2 = tables ∨
      ∃ source, index.read? disk file = some source ∧
        (index.indexNext disk now (stats, tables) file).2 =
          (index.store now tables file source).2 := by
  cases read : index.read? disk file with
  | none =>
    rw [index_next_unread index disk now stats file read]
    exact .inl rfl
  | some source =>
    unfold Index.indexNext
    dsimp only
    rw [index_read_eq index disk now file source read, Index.indexSource]
    cases index.cached? tables file source with
    | error fault => exact .inl rfl
    | ok cached =>
      cases cached with
      | some payload => exact .inl rfl
      | none => exact .inr ⟨source, rfl, rfl⟩

theorem index_files_entry (disk : Disk) (now : Int64) (files : List String) (state : Stats × Tables)
    {other : String} (unread : index.read? disk other = none) :
    entryOf (files.foldl (index.indexNext disk now) state).2 other = entryOf state.2 other := by
  induction files generalizing state with
  | nil => rfl
  | cons file rest ih =>
    rw [List.foldl_cons, ih]
    rcases index_next_tables index disk now state.1 file with same | ⟨source, read, stored⟩
    · exact congrArg (entryOf · other) same
    · have different : other ≠ file := by
        rintro rfl
        rw [unread] at read
        cases read
      exact (congrArg (entryOf · other) stored).trans (entry_put now file _ _ different)

/-- A file that is still there, but cannot be read, keeps its entry. -/
theorem index_workspace_entry (disk : Disk) (now : Int64) {file : String}
    (found : file ∈ discover disk index.root index.settings)
    (unread : index.read? disk file = none) :
    entryOf (index.indexWorkspace disk now tables).2 file = entryOf tables file := by
  have kept : file ∉ Index.staleFiles tables (discover disk index.root index.settings) :=
    fun stale => ((mem_stale_files tables _ file).mp stale).2 found
  exact (index_files_entry index disk now _ _ unread).trans (entry_remove_all _ kept)

end Frame

/-! The statistics of a run. -/
section Statistics
variable (index : Index) {sources : Set Source} {tables : Tables} {known : String → Option Source}

/-- The statistics of the same files if none of them had changed. -/
def Stats.settled (stats : Stats) : Stats :=
  { stats with indexed := 0, unchanged := stats.indexed + stats.unchanged }

def Index.tallied (disk : Disk) (files : List String) (stats : Stats) : Stats :=
  { stats with
    unchanged := stats.unchanged + (files.filterMap (index.read? disk)).length
    failed := stats.failed + files.countP fun file => (index.read? disk file).isNone
    subscriptions := stats.subscriptions +
      ((files.filterMap (index.read? disk)).map (·.payload.subscriptionCount)).sum }

theorem tallied_cons (disk : Disk) (file : String) (rest : List String) (stats : Stats) :
    index.tallied disk (file :: rest) stats =
      index.tallied disk rest (index.tallied disk [file] stats) := by
  cases read : index.read? disk file <;>
    simp [Index.tallied, read, Nat.add_assoc, Nat.add_comm]

theorem index_next_settled (apart : ToldApart index.fingerprint sources)
    (knows : Knows index.fingerprint sources tables known) (disk : Disk) (now : Int64)
    (stats : Stats) (file : String) (draws : index.Draws disk [file] sources) :
    (index.indexNext disk now (stats, tables) file).1.settled =
      index.tallied disk [file] stats.settled := by
  cases read : index.read? disk file with
  | none =>
    rw [index_next_unread index disk now stats file read]
    simp [Stats.settled, Index.tallied, read]
  | some source =>
    rw [index_next_read index apart knows disk now stats file source read
      (draws file List.mem_cons_self source read)]
    by_cases same : known file = some source
    · rw [if_pos same]
      simp [Stats.settled, Index.tallied, read, Nat.add_assoc]
    · rw [if_neg same]
      simp [Stats.settled, Index.tallied, read, Nat.add_assoc, Nat.add_comm, Nat.add_left_comm]

theorem index_files_settled (apart : ToldApart index.fingerprint sources) (disk : Disk)
    (now : Int64) (files : List String) (state : Stats × Tables)
    (knows : Knows index.fingerprint sources state.2 known)
    (draws : index.Draws disk files sources) :
    (files.foldl (index.indexNext disk now) state).1.settled =
      index.tallied disk files state.1.settled := by
  induction files generalizing state known with
  | nil => rfl
  | cons file rest ih =>
    obtain ⟨here, later⟩ := (draws_cons index disk file rest).mp draws
    have next := index_read_after index apart knows disk now file here
    rw [← index_next_after index disk now state.1 file] at next
    have counted := index_next_settled index apart knows disk now state.1 file here
    rw [List.foldl_cons, ih _ next later, counted, ← tallied_cons]

theorem index_workspace_settled (apart : ToldApart index.fingerprint sources)
    (knows : Knows index.fingerprint sources tables known) (disk : Disk) (now : Int64)
    (draws : index.Draws disk (discover disk index.root index.settings) sources) :
    (index.indexWorkspace disk now tables).1.settled =
      index.tallied disk (discover disk index.root index.settings)
        { discovered := (discover disk index.root index.settings).length
          removed := (Index.staleFiles tables (discover disk index.root index.settings)).length } :=
  index_files_settled index apart disk now _ _ (forget_stale_knows index knows _) draws

/-- Files that are known as they are, or cannot be read, are only counted. -/
theorem index_files_idle (apart : ToldApart index.fingerprint sources)
    (knows : Knows index.fingerprint sources tables known) (disk : Disk) (now : Int64)
    (files : List String) (stats : Stats) (draws : index.Draws disk files sources)
    (current : ∀ file ∈ files, ∀ source, index.read? disk file = some source →
      known file = some source) :
    files.foldl (index.indexNext disk now) (stats, tables) =
      (index.tallied disk files stats, tables) := by
  induction files generalizing stats with
  | nil => rfl
  | cons file rest ih =>
    obtain ⟨here, later⟩ := (draws_cons index disk file rest).mp draws
    have next : index.indexNext disk now (stats, tables) file =
        (index.tallied disk [file] stats, tables) := by
      cases read : index.read? disk file with
      | none =>
        rw [index_next_unread index disk now stats file read]
        simp [Index.tallied, read]
      | some source =>
        rw [index_next_read index apart knows disk now stats file source read
          (here file List.mem_cons_self source read),
          if_pos (current file List.mem_cons_self source read)]
        simp [Index.tallied, read]
    rw [List.foldl_cons, next, tallied_cons index disk file rest]
    exact ih _ later fun other member => current other (List.mem_cons_of_mem _ member)

/-- A second run finds everything as the first one left it. -/
theorem index_workspace_again (apart : ToldApart index.fingerprint sources)
    (knows : Knows index.fingerprint sources tables known) (disk : Disk) (now later : Int64)
    (draws : index.Draws disk (discover disk index.root index.settings) sources) :
    let first := index.indexWorkspace disk now tables
    index.indexWorkspace disk later first.2 = ({ first.1.settled with removed := 0 }, first.2) := by
  intro first
  have mirrors : Knows index.fingerprint sources first.2 (index.mirrored disk known) :=
    index_workspace_mirrors index apart knows disk now draws
  -- Only what was discovered is recorded, so nothing is taken away.
  have none_stale : Index.staleFiles first.2 (discover disk index.root index.settings) = [] := by
    rw [List.eq_nil_iff_forall_not_mem]
    intro file stale
    obtain ⟨recorded, absent⟩ := (mem_stale_files _ _ _).mp stale
    rw [mirrors.recorded file, Index.mirrored, if_neg absent] at recorded
    cases recorded
  have current : ∀ file ∈ discover disk index.root index.settings, ∀ source,
      index.read? disk file = some source → index.mirrored disk known file = some source := by
    intro file found source read
    rw [Index.mirrored, if_pos found, read, Option.some_or]
  have settled : first.1.settled = _ := index_workspace_settled index apart knows disk now draws
  unfold Index.indexWorkspace
  dsimp only
  rw [none_stale, List.foldl_nil, index_files_idle index apart mirrors disk later _ _ draws current,
    settled]
  rfl

end Statistics

/-! The names that are discovered, told by the files. -/
section Files
variable (index : Index) {disk : Disk}
  (tree : ∀ entry, disk.find index.root = .ok entry → entry.Plain)
include tree

theorem discover_perm :
    (discover disk index.root index.settings).Perm
      ((discoveredFiles disk index.root index.settings).map FoundFile.key) := by
  rw [discover_eq tree]
  exact List.mergeSort_perm _ _

theorem mem_discover (name : String) :
    name ∈ discover disk index.root index.settings ↔
      ∃ file ∈ discoveredFiles disk index.root index.settings, file.key = name := by
  rw [(discover_perm index tree).mem_iff, List.mem_map]

theorem read_key {file : FoundFile}
    (found : file ∈ discoveredFiles disk index.root index.settings) :
    index.read? disk file.key = file.text?.map index.source := by
  have read := (discovered_placed tree index.settings found).read_text
  unfold Index.read? Index.resolve
  rw [read]
  cases file.text? <;> rfl

theorem discovered_draws {sources : Set Source}
    (drawn : ∀ file ∈ discoveredFiles disk index.root index.settings, ∀ text ∈ file.text?,
      index.source text ∈ sources) :
    index.Draws disk (discover disk index.root index.settings) sources := by
  intro name found source read
  obtain ⟨file, member, rfl⟩ := (mem_discover index tree name).mp found
  rw [read_key index tree member] at read
  obtain ⟨text, said, rfl⟩ := Option.map_eq_some_iff.mp read
  exact drawn file member text said

theorem read_discovered :
    ((discover disk index.root index.settings).filterMap (index.read? disk)).Perm
      (((discoveredFiles disk index.root index.settings).filterMap FoundFile.text?).map
        index.source) := by
  refine ((discover_perm index tree).filterMap _).trans (List.Perm.of_eq ?_)
  rw [List.filterMap_map, List.map_filterMap]
  exact List.filterMap_congr fun file found => read_key index tree found

theorem unread_discovered :
    (discover disk index.root index.settings).countP (fun file => (index.read? disk file).isNone) =
      (discoveredFiles disk index.root index.settings).countP (·.text?.isNone) := by
  rw [(discover_perm index tree).countP_eq, List.countP_map]
  refine List.countP_congr ?_
  intro file found
  rw [Function.comp_apply, read_key index tree found, Option.isNone_map]

theorem index_workspace_counts {sources : Set Source} {tables : Tables}
    {known : String → Option Source} (apart : ToldApart index.fingerprint sources)
    (knows : Knows index.fingerprint sources tables known) (now : Int64)
    (draws : index.Draws disk (discover disk index.root index.settings) sources) :
    let files := discoveredFiles disk index.root index.settings
    (index.indexWorkspace disk now tables).1.settled =
      { discovered := files.length
        unchanged := (files.filterMap FoundFile.text?).length
        failed := files.countP (·.text?.isNone)
        removed := (Index.staleFiles tables (discover disk index.root index.settings)).length
        subscriptions := ((files.filterMap FoundFile.text?).map fun text =>
          (index.source text).payload.subscriptionCount).sum } := by
  intro files
  have read := read_discovered index tree
  rw [index_workspace_settled index apart knows disk now draws]
  simp only [Index.tallied, Nat.zero_add, read.length_eq, List.length_map,
    unread_discovered index tree, (read.map (·.payload.subscriptionCount)).sum_nat, List.map_map,
    (discover_perm index tree).length_eq]
  rfl

theorem mirrored_is_some (known : String → Option Source) (name : String) :
    (index.mirrored disk known name).isSome = true ↔
      ∃ file ∈ discoveredFiles disk index.root index.settings,
        file.key = name ∧ (file.text?.isSome = true ∨ (known name).isSome = true) := by
  unfold Index.mirrored
  by_cases found : name ∈ discover disk index.root index.settings
  · rw [if_pos found]
    obtain ⟨file, member, rfl⟩ := (mem_discover index tree name).mp found
    rw [read_key index tree member, Option.isSome_or, Option.isSome_map, Bool.or_eq_true]
    constructor
    · intro held
      exact ⟨file, member, rfl, held⟩
    · rintro ⟨other, other_member, same, held⟩
      have read := read_key index tree other_member
      rw [same, read_key index tree member] at read
      have said : file.text?.isSome = other.text?.isSome := by
        simpa only [Option.isSome_map] using congrArg Option.isSome read
      rw [said]
      exact held
  · rw [if_neg found]
    constructor
    · intro held
      cases held
    · rintro ⟨file, member, same, -⟩
      exact absurd ((mem_discover index tree name).mpr ⟨file, member, same⟩) found

theorem mirrored_text (known : String → Option Source) {file : FoundFile}
    (found : file ∈ discoveredFiles disk index.root index.settings) {text : String}
    (said : file.text? = some text) :
    index.mirrored disk known file.key = some (index.source text) := by
  have there := (mem_discover index tree file.key).mpr ⟨file, found, rfl⟩
  rw [Index.mirrored, if_pos there, read_key index tree found, said]
  rfl

/-- If all files can be read, what was known before does not matter. -/
theorem mirrored_of_read (known : String → Option Source)
    (texts : ∀ file ∈ discoveredFiles disk index.root index.settings, file.text?.isSome = true) :
    index.mirrored disk known = index.mirrored disk fun _ => none := by
  funext name
  unfold Index.mirrored
  by_cases found : name ∈ discover disk index.root index.settings
  · rw [if_pos found, if_pos found]
    obtain ⟨file, member, rfl⟩ := (mem_discover index tree name).mp found
    obtain ⟨text, said⟩ := Option.isSome_iff_exists.mp (texts file member)
    rw [read_key index tree member, said, Option.map_some, Option.some_or, Option.some_or]
  · rw [if_neg found, if_neg found]

end Files

theorem files_length_eq (files : List FoundFile) :
    files.length = (files.filterMap FoundFile.text?).length + files.countP (·.text?.isNone) := by
  induction files with
  | nil => rfl
  | cons file rest ih =>
    cases said : file.text? with
    | none => simp [said, ih, Nat.add_assoc]
    | some text => simp [said, ih, Nat.add_right_comm]

-- The tree is as a file system has it; only the backslash is a matter of the workspace.
/-- After a workspace was indexed, the tables hold its files as they are now, whatever they held
before. -/
theorem workspace_mirrored {fingerprint : Source → String} {sources : Set Source}
    (apart : ToldApart fingerprint sources) (calls : List Call)
    (drawn : ∀ entry ∈ history fingerprint calls, entry.2 ∈ sources) (root : String)
    (settings : Settings) (disk : Disk) (tree : ∀ entry, disk.find root = .ok entry → entry.Plain)
    (texts_drawn : ∀ file ∈ discoveredFiles disk root settings, ∀ text ∈ file.text?,
      (⟨root, settings, fingerprint⟩ : Index).source text ∈ sources) (now later : Int64) :
    let index : Index := ⟨root, settings, fingerprint⟩
    let extracted (text : String) :=
      (runExtraction (fun source => some (Php.parse source)) settings.rules settings.enabled
        text).payload
    let files := discoveredFiles disk root settings
    let before := runCalls fingerprint calls
    let stats := (index.indexWorkspace disk now before).1
    let after := (index.indexWorkspace disk now before).2
    ((files.map FoundFile.key).Nodup ∧
      ∀ name, name ∈ discover disk root settings ↔ ∃ file ∈ files, file.key = name) ∧
    (∀ name, after.isRecorded name = true ↔
      ∃ file ∈ files, file.key = name ∧
      (file.text?.isSome = true ∨ before.isRecorded name = true)) ∧
    (∀ file ∈ files, ∀ text ∈ file.text?,
      after.filePayload file.key = .ok (some (extracted text))) ∧
    (∀ file ∈ files, file.text? = none → after.fileRecord? file.key = before.fileRecord? file.key ∧
      after.rowsOf file.key = before.rowsOf file.key) ∧
    ((∀ file ∈ files, file.text?.isSome = true) →
      ∀ event, after.lookup event =
        (index.indexWorkspace disk later Tables.empty.opened).2.lookup event) ∧
    (stats.discovered = files.length ∧
      stats.discovered = stats.indexed + stats.unchanged + stats.failed ∧
      stats.failed = files.countP (·.text?.isNone) ∧
      (∃ gone : List String, gone.Nodup ∧ stats.removed = gone.length ∧
        ∀ name, name ∈ gone ↔ before.isRecorded name = true ∧ ∀ file ∈ files, file.key ≠ name) ∧
      stats.subscriptions = ((files.filterMap FoundFile.text?).map fun text =>
        (extracted text).subscriptionCount).sum) ∧
    index.indexWorkspace disk later after =
      ({ stats with indexed := 0, unchanged := stats.indexed + stats.unchanged, removed := 0 },
        after) := by
  intro index extracted files before stats after
  obtain ⟨known, knows, -⟩ := run_calls_traced apart calls drawn
  have draws := discovered_draws index tree texts_drawn
  have mirrors : Knows fingerprint sources after (index.mirrored disk known) :=
    index_workspace_mirrors index apart knows disk now draws
  have counts := index_workspace_counts index tree apart knows now draws
  simp only [Stats.settled, Stats.mk.injEq, true_and] at counts
  obtain ⟨discovered, handled, failed, removed, subscriptions⟩ := counts
  refine ⟨⟨discovered_keys_nodup tree settings, mem_discover index tree⟩, ?_, ?_, ?_, ?_,
    ⟨discovered, ?_, failed, ?_, ?_⟩, index_workspace_again index apart knows disk now later draws⟩
  · intro name
    rw [mirrors.recorded name, knows.recorded name]
    exact mirrored_is_some index tree known name
  · intro file found text said
    have payload := Store.represents_file_payload mirrors.held file.key
    rw [remembered, mirrored_text index tree known found said, Option.map_some, Option.map_some,
      source_payload] at payload
    exact payload
  · intro file found unsaid
    have unread : index.read? disk file.key = none := by
      rw [read_key index tree found, unsaid, Option.map_none]
    have there : file.key ∈ discover disk root settings :=
      (mem_discover index tree _).mpr ⟨file, found, rfl⟩
    exact Prod.mk.inj (index_workspace_entry index disk now there unread)
  · intro texts event
    -- New tables come to stand for the same sources.
    have fresh := index_workspace_mirrors index apart Knows.empty disk later draws
    rw [← mirrored_of_read index tree known texts] at fresh
    exact Store.represents_lookup_congr mirrors.held fresh.held event
  · calc stats.discovered = files.length := discovered
      _ = (files.filterMap FoundFile.text?).length + files.countP (·.text?.isNone) :=
        files_length_eq files
      _ = stats.indexed + stats.unchanged + stats.failed :=
        congrArg₂ (· + ·) handled.symm failed.symm
  · refine ⟨_, ?_, removed, ?_⟩
    · exact (Tables.indexed_files_ascending knows.held.keyed).nodup.filter _
    · intro name
      rw [mem_stale_files, mem_discover index tree name]
      simp only [not_exists, not_and]
      exact Iff.rfl
  · simp only [source_payload] at subscriptions
    exact subscriptions


def smallText : String :=
  "<?php class A \x7b function events() \x7b return ['on_a.s' => 'h']; \x7d \x7d"

def smallTree : Entry :=
  .directory [
    ("a.php", .file (Text.toBytes smallText)),
    ("b.php", .file [0xff]),
    ("lib", .directory [("c.php", .file (Text.toBytes "<?php"))])]

def smallDisk : Disk := ⟨.directory [("w", smallTree)]⟩

def smallSettings : Settings :=
  { Settings.standard with
    methodName := "events", keyMarkers := ["on_"], respectIgnoreFiles := false }

def earlier : List Call :=
  [⟨"/w", smallSettings, .empty, 0, .indexContent "b.php" "<?php"⟩,
   ⟨"/w", smallSettings, .empty, 1, .indexContent "gone.php" "<?php"⟩]

def smallSources : List Source :=
  [⟨smallText, true, smallSettings.rules⟩, ⟨"<?php", true, smallSettings.rules⟩]

theorem small_tree_plain : smallTree.Plain := plain_of_looks _ (by decide +kernel)

theorem small_workspace_mirrored :
    ToldApart Source.digest {source | source ∈ smallSources} ∧
    (∀ entry ∈ history Source.digest earlier, entry.2 ∈ smallSources) ∧
    (∀ entry, smallDisk.find "/w" = .ok entry → entry.Plain) ∧
    (∀ file ∈ discoveredFiles smallDisk "/w" smallSettings, ∀ text ∈ file.text?,
      (⟨"/w", smallSettings, Source.digest⟩ : Index).source text ∈ smallSources) ∧
    let run := (⟨"/w", smallSettings, Source.digest⟩ : Index).indexWorkspace smallDisk 2
      (runCalls Source.digest earlier)
    run.2.isRecorded "b.php" = true ∧ ¬run.2.isRecorded "gone.php" = true ∧
    run.2.filePayload "a.php" =
      .ok (some (.ofGroups [⟨"on_a", [⟨"on_a.s", "on_a", "s", "A.h"⟩]⟩])) ∧
    run.1.discovered = 3 ∧ run.1.failed = 1 ∧ run.1.subscriptions = 1 := by
  have apart : ToldApart Source.digest {source | source ∈ smallSources} :=
    told_apart_list (by decide +kernel) (by decide +kernel)
  have drawn : ∀ entry ∈ history Source.digest earlier, entry.2 ∈ smallSources := by decide +kernel
  have tree : ∀ entry, smallDisk.find "/w" = .ok entry → entry.Plain := by
    intro entry there
    have same : smallDisk.find "/w" = .ok smallTree := rfl
    rw [same] at there
    cases there
    exact small_tree_plain
  have texts_drawn : ∀ file ∈ discoveredFiles smallDisk "/w" smallSettings, ∀ text ∈ file.text?,
      (⟨"/w", smallSettings, Source.digest⟩ : Index).source text ∈ smallSources := by decide +kernel
  obtain ⟨-, recorded, payloads, -, -, ⟨discovered, -, failed, -, subscriptions⟩, -⟩ :=
    workspace_mirrored apart earlier drawn "/w" smallSettings smallDisk tree texts_drawn 2 3
  refine ⟨apart, drawn, tree, texts_drawn, ?_, ?_, ?_, ?_, ?_, ?_⟩
  · exact (recorded "b.php").mpr (by decide +kernel)
  · rw [recorded "gone.php"]
    decide +kernel
  · have there : ∃ file ∈ discoveredFiles smallDisk "/w" smallSettings, file.key = "a.php" ∧
        file.text? = some smallText := by
      decide +kernel
    obtain ⟨file, found, key, said⟩ := there
    have payload := payloads file found _ said
    rw [key] at payload
    exact payload.trans (by decide +kernel)
  · exact discovered.trans (by decide +kernel)
  · exact failed.trans (by decide +kernel)
  · exact subscriptions.trans (by decide +kernel)

end HandlerIndex.Workspace
