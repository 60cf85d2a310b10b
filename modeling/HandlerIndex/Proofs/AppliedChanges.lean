import HandlerIndex.Proofs.Caching
import HandlerIndex.Proofs.DamagedTables
import HandlerIndex.Proofs.EventTotals
import HandlerIndex.Proofs.WatcherSessions

/-!
Changes that the index watcher applies together. Each file comes to what its own change makes of its
entry, and no other file is touched, so that neither the order in which the changes were heard nor a
failure among them shows. Where nothing has happened since, applying the changes again does nothing.
Left out is when changes are heard of; that is told by sessions.
-/
namespace HandlerIndex.Workspace
open Store (Tables)

/-! One change. -/
section Change
variable (index : Index) {disk : Disk} {now : Int64} {tables others : Tables} {file : String}

@[simp] theorem entry_put_self (tables : Tables) (now : Int64) (file hash : String)
    (payload : Payload) :
    entryOf (tables.put now file hash payload) file =
      (some ⟨file, hash, now, Int64.ofNat payload.subscriptionCount⟩,
        Store.payloadRows file payload) := by
  simp [entryOf]

@[simp] theorem entry_removed (tables : Tables) (file : String) :
    entryOf (tables.remove file) file = (none, []) := by
  simp [entryOf]

theorem remove_nothing (nothing : entryOf tables file = (none, [])) :
    tables.remove file = tables := by
  obtain ⟨unrecorded, rows⟩ : tables.fileRecord? file = none ∧ tables.rowsOf file = [] :=
    Prod.mk.inj nothing
  have rows_kept : tables.rows.filter (·.file != file) = tables.rows := by
    rw [List.filter_eq_self]
    intro row member
    simpa using List.filter_eq_nil_iff.mp rows row member
  have records_kept : tables.files.filter (·.file != file) = tables.files := by
    rw [List.filter_eq_self]
    intro record member
    simpa using List.find?_eq_none.mp unrecorded record member
  rw [Tables.remove, Tables.eraseRows, Tables.eraseRecord]
  simp only [rows_kept, records_kept]

/-- What reading a file makes of its entry is up to that entry. -/
theorem index_read_congr (same : entryOf tables file = entryOf others file) :
    entryOf (tablesAfter tables (index.indexRead disk now tables file)) file =
      entryOf (tablesAfter others (index.indexRead disk now others file)) file := by
  rcases index_read_tables index disk now tables file with ⟨current, kept⟩ |
      ⟨source, read, missing, stored⟩
  · rw [kept, index_read_idle index now (current.congr index same.symm), same]
  · have missing_there : index.cached? others file source = .ok none :=
      (cached_congr index same source).symm.trans missing
    rcases index_read_tables index disk now others file with ⟨current, -⟩ |
        ⟨other, read_there, -, stored_there⟩
    · exact absurd missing_there (current source read)
    · obtain rfl : source = other := Option.some.inj (read.symm.trans read_there)
      simp [stored, stored_there, Index.store]

/-- All that a change can do: a supported file that is there is read, and one that is not there is
forgotten. -/
theorem apply_change_kinds (disk : Disk) (now : Int64) (tables : Tables) (file : String) :
    Watcher.applyChange index disk now tables file =
      if disk.has (index.resolve file) = true then
        if isSupported file = true then tablesAfter tables (index.indexRead disk now tables file)
        else tables
      else tables.remove file := by
  rw [apply_change_eq, Index.indexFile]
  by_cases supported : isSupported file = true
  · rw [if_pos supported, if_pos supported]
  · rw [if_neg supported, if_neg supported]
    rfl

theorem apply_change_congr (same : entryOf tables file = entryOf others file) :
    entryOf (Watcher.applyChange index disk now tables file) file =
      entryOf (Watcher.applyChange index disk now others file) file := by
  rw [apply_change_kinds, apply_change_kinds]
  split_ifs with there supported
  · exact index_read_congr index same
  · exact same
  · simp

@[simp] theorem apply_change_versions (disk : Disk) (now : Int64) (tables : Tables)
    (file : String) :
    (Watcher.applyChange index disk now tables file).versions = tables.versions := by
  rw [apply_change_kinds]
  split_ifs with there supported
  · rcases index_read_tables index disk now tables file with ⟨-, kept⟩ | ⟨source, -, -, stored⟩
    · rw [kept]
    · rw [stored]
      rfl
  · rfl
  · rfl

/-- A file that is not there is forgotten. -/
theorem apply_change_absent (absent : disk.has (index.resolve file) = false) :
    entryOf (Watcher.applyChange index disk now tables file) file = (none, []) := by
  simp [apply_change_eq, absent]

theorem index_file_unread (supported : isSupported file = true) {fault : DiskFault}
    (unread : disk.readText (index.resolve file) = .error fault) :
    index.indexFile disk now tables file = .error (.unreadable fault) := by
  rw [Index.indexFile, if_pos supported]
  unfold Index.indexRead
  rw [unread]

/-- Where a file that is there fails, nothing is done. -/
theorem apply_change_failed (there : disk.has (index.resolve file) = true) {fault : Fault}
    (failed : index.indexFile disk now tables file = .error fault) :
    Watcher.applyChange index disk now tables file = tables := by
  rw [apply_change_eq, if_pos there, failed]
  rfl

/-- A file that can be read has the payload of what is read there, if the tables know where their
payloads are from. -/
theorem apply_change_read {sources : Set Source} {known : String → Option Source}
    (apart : ToldApart index.fingerprint sources)
    (knows : Knows index.fingerprint sources tables known) (supported : isSupported file = true)
    {content : String} (read : disk.readText (index.resolve file) = .ok content)
    (drawn : index.source content ∈ sources) :
    (Watcher.applyChange index disk now tables file).filePayload file =
      .ok (some (index.source content).payload) := by
  have read_source : index.read? disk file = some (index.source content) := by
    unfold Index.read?
    rw [read]
  rw [apply_change_kinds, if_pos (has_of_read_text read), if_pos supported,
    index_read_eq index disk now file _ read_source,
    index_source_eq index apart knows now file _ drawn]
  by_cases same : known file = some (index.source content)
  · rw [if_pos same]
    change tables.filePayload file = _
    rw [Store.represents_file_payload knows.held, remembered, same]
    rfl
  · rw [if_neg same]
    exact Tables.put_file_payload tables now file _ _ (apart.fits _ drawn)

/-- Where nothing has happened, a change that was applied is not applied again. -/
theorem apply_change_idle (later : Int64)
    (applied : entryOf tables file =
      entryOf (Watcher.applyChange index disk now others file) file) :
    Watcher.applyChange index disk later tables file = tables := by
  rw [apply_change_kinds] at applied ⊢
  split_ifs at applied ⊢ with there supported
  · exact index_read_idle index later
      ((index_read_current index disk now others file).congr index applied)
  · rfl
  · rw [entry_removed] at applied
    exact remove_nothing applied

end Change

/-! All changes. -/
section Changes
variable (index : Index) {disk : Disk} {now : Int64} {tables : Tables} {file : String}

-- The change of a file that comes again later finds its own work done, so that files may be named
-- more than once.
/-- A changed file comes to what its change makes of the entry that it has at the beginning. -/
theorem apply_all_entry {files : List String} (member : file ∈ files) :
    entryOf (files.foldl (Watcher.applyChange index disk now) tables) file =
      entryOf (Watcher.applyChange index disk now tables file) file := by
  induction files generalizing tables with
  | nil => cases member
  | cons first rest ih =>
    rw [List.foldl_cons]
    by_cases same : file = first
    · subst same
      by_cases again : file ∈ rest
      · rw [ih again, apply_change_idle index now rfl]
      · exact apply_all_other index disk now _ again
    · rw [ih ((List.mem_cons.mp member).resolve_left same)]
      exact apply_change_congr index (apply_change_other index disk now tables same)

/-- Neither the order of the changes nor how often a file is named shows in any entry. -/
theorem apply_all_of_same {files others : List String} (same : ∀ file, file ∈ files ↔ file ∈ others)
    (file : String) :
    entryOf (files.foldl (Watcher.applyChange index disk now) tables) file =
      entryOf (others.foldl (Watcher.applyChange index disk now) tables) file := by
  by_cases member : file ∈ files
  · rw [apply_all_entry index member, apply_all_entry index ((same file).mp member)]
  · rw [apply_all_other index disk now tables member,
      apply_all_other index disk now tables (mt (same file).mpr member)]

theorem apply_all_versions (disk : Disk) (now : Int64) (tables : Tables) (files : List String) :
    (files.foldl (Watcher.applyChange index disk now) tables).versions = tables.versions := by
  induction files generalizing tables with
  | nil => rfl
  | cons first rest ih => simp [ih]

theorem apply_all_idle {files : List String}
    (idle : ∀ file ∈ files, Watcher.applyChange index disk now tables file = tables) :
    files.foldl (Watcher.applyChange index disk now) tables = tables := by
  induction files with
  | nil => rfl
  | cons first rest ih =>
    rw [List.foldl_cons, idle first List.mem_cons_self]
    exact ih fun file member => idle file (List.mem_cons_of_mem first member)

def changedFiles (pending : List String) : List String :=
  pending.eraseDups.mergeSort fun a b => decide (a ≤ b)

@[simp] theorem mem_changed_files {pending : List String} :
    file ∈ changedFiles pending ↔ file ∈ pending := by
  simp [changedFiles]

theorem changed_files_of_same {pending other : List String}
    (same : ∀ file, file ∈ pending ↔ file ∈ other) :
    changedFiles pending = changedFiles other := by
  refine merge_sort_of_perm ?_
  rw [List.perm_ext_iff_of_nodup (Store.erase_dups_nodup pending) (Store.erase_dups_nodup other)]
  simpa using same

theorem apply_changes_mem {pending : List String} (member : file ∈ pending) :
    entryOf (Watcher.applyChanges index disk now tables pending) file =
      entryOf (Watcher.applyChange index disk now tables file) file :=
  apply_all_entry index (mem_changed_files.mpr member)

theorem apply_changes_other {pending : List String} (absent : file ∉ pending) :
    entryOf (Watcher.applyChanges index disk now tables pending) file = entryOf tables file :=
  apply_all_other index disk now tables (mt mem_changed_files.mp absent)

theorem apply_changes_again (later : Int64) (pending : List String) :
    Watcher.applyChanges index disk later (Watcher.applyChanges index disk now tables pending)
      pending =
      Watcher.applyChanges index disk now tables pending := by
  refine apply_all_idle index fun file member => ?_
  exact apply_change_idle index later (apply_changes_mem index (mem_changed_files.mp member))

theorem apply_changes_of_same {pending other : List String}
    (same : ∀ file, file ∈ pending ↔ file ∈ other) :
    Watcher.applyChanges index disk now tables pending =
      Watcher.applyChanges index disk now tables other :=
  congrArg (List.foldl (Watcher.applyChange index disk now) tables) (changed_files_of_same same)

def Watcher.hear (watcher : Watcher) (events : List (Disk × List String)) : Watcher :=
  events.foldl (fun watcher event => Watcher.notice index event.1 watcher event.2) watcher

end Changes

/-- After changes were applied to tables that services have left, each changed file that can be read
has the payload that the service extracts from it, each one that is not there has neither a record
nor rows, each one that fails has the entry that it had, and so has every other file. What is
applied depends on which files have changed, not on how this was heard or in which order it is
applied, and applying it again changes nothing. -/
theorem applied_changes_exact {fingerprint : Source → String} {sources : Set Source}
    (apart : ToldApart fingerprint sources) (calls : List Call)
    (drawn : ∀ entry ∈ history fingerprint calls, entry.2 ∈ sources) (root : String)
    (settings : Settings) (disk : Disk) (now : Int64) (pending : List String)
    (supported : ∀ file ∈ pending, isSupported file = true)
    (draws : (⟨root, settings, fingerprint⟩ : Index).Draws disk pending sources) :
    let index : Index := ⟨root, settings, fingerprint⟩
    let tables := runCalls fingerprint calls
    let after := Watcher.applyChanges index disk now tables pending
    (∀ file ∈ pending, ∀ content, disk.readText (index.resolve file) = .ok content →
      after.filePayload file =
        .ok (some (runExtraction (fun text => some (Php.parse text)) settings.rules
        settings.enabled content).payload)) ∧
    (∀ file ∈ pending, disk.has (index.resolve file) = false →
      after.fileRecord? file = none ∧ after.rowsOf file = []) ∧
    (∀ file ∈ pending, disk.has (index.resolve file) = true →
      (∀ fault, disk.readText (index.resolve file) = .error fault →
        ∀ held, index.indexFile disk now held file = .error (.unreadable fault)) ∧
      ∀ fault, index.indexFile disk now tables file = .error fault →
        entryOf after file = entryOf tables file) ∧
    (∀ file, file ∉ pending → entryOf after file = entryOf tables file) ∧
      after.versions = tables.versions ∧
    (∀ (first second : Watcher) events others,
      (∀ file, file ∈ (first.hear index events).pending ↔
        file ∈ (second.hear index others).pending) →
      (Watcher.flush index disk now (first.hear index events) tables).2 =
        (Watcher.flush index disk now (second.hear index others) tables).2) ∧
    (∀ order : List String, (∀ file, file ∈ order ↔ file ∈ pending) →
      ∀ file, entryOf (order.foldl (Watcher.applyChange index disk now) tables) file =
        entryOf after file) ∧
    ∀ later, Watcher.applyChanges index disk later after pending = after := by
  intro index tables after
  obtain ⟨known, knows, -⟩ := run_calls_traced apart calls drawn
  refine ⟨?_, ?_, ?_, ?_, ?_, ?_, ?_, ?_⟩
  · intro file member content read
    have source_drawn : index.source content ∈ sources := by
      refine draws file member _ ?_
      unfold Index.read?
      rw [read]
    rw [payload_of_entry (apply_changes_mem index member),
      apply_change_read index apart knows (supported file member) read source_drawn, source_payload]
  · intro file member absent
    exact Prod.mk.inj ((apply_changes_mem index member).trans (apply_change_absent index absent))
  · intro file member there
    refine ⟨fun fault unread held => index_file_unread index (supported file member) unread, ?_⟩
    intro fault failed
    rw [apply_changes_mem index member, apply_change_failed index there failed]
  · intro file absent
    exact apply_changes_other index absent
  · exact apply_all_versions index disk now tables _
  · intro first second events others same
    exact apply_changes_of_same index same
  · intro order same
    exact apply_all_of_same index fun file => (same file).trans mem_changed_files.symm
  · intro later
    exact apply_changes_again index later pending

def changedDisk : Disk :=
  ⟨.directory
    [("w", .directory [("a.php", .file (Text.toBytes subscriber)), ("b.php", .file [255])])]⟩

def changedSources : List Source :=
  [⟨subscriber, true, (dividing '.').rules⟩, ⟨"", true, (dividing '.').rules⟩]

def indexedBefore : List Call :=
  [⟨"/w", dividing '.', .empty, 0, .indexContent "a.php" ""⟩,
   ⟨"/w", dividing '.', .empty, 0, .indexContent "b.php" subscriber⟩,
   ⟨"/w", dividing '.', .empty, 0, .indexContent "c.php" subscriber⟩,
   ⟨"/w", dividing '.', .empty, 0, .indexContent "d.php" subscriber⟩]

-- The changes are heard in no order and one of them twice. Nothing is heard of the last file.
theorem mixed_changes_applied :
    let index : Index := ⟨"/w", dividing '.', Source.digest⟩
    let tables := runCalls Source.digest indexedBefore
    let after :=
      Watcher.applyChanges index changedDisk 1 tables ["c.php", "a.php", "b.php", "a.php"]
    ToldApart Source.digest {source | source ∈ changedSources} ∧
    (∀ entry ∈ history Source.digest indexedBefore, entry.2 ∈ changedSources) ∧
    (∀ file ∈ ["a.php", "b.php", "c.php", "d.php"], tables.isRecorded file = true) ∧
    after.filePayload "a.php" =
      .ok (some (.ofGroups [⟨"on_a", [⟨"on_a.s", "on_a", "s", "A.h"⟩]⟩])) ∧
    entryOf after "b.php" = entryOf tables "b.php" ∧
    (after.fileRecord? "c.php" = none ∧ after.rowsOf "c.php" = []) ∧
    entryOf after "d.php" = entryOf tables "d.php" ∧
    Watcher.applyChanges index changedDisk 2 after ["c.php", "a.php", "b.php", "a.php"] =
      after := by
  intro index tables after
  have apart : ToldApart Source.digest {source | source ∈ changedSources} :=
    told_apart_list (by decide +kernel) (by decide +kernel)
  have drawn : ∀ entry ∈ history Source.digest indexedBefore, entry.2 ∈ changedSources := by
    decide +kernel
  have read : changedDisk.readText "/w/a.php" = .ok subscriber := by decide +kernel
  have unread : changedDisk.readText "/w/b.php" = .error .invalidData := by decide +kernel
  have draws : index.Draws changedDisk ["c.php", "a.php", "b.php", "a.php"]
      {source | source ∈ changedSources} := by
    rw [draws_iff]
    change ∀ entry ∈ index.readAll changedDisk ["c.php", "a.php", "b.php", "a.php"],
      entry.2 ∈ changedSources
    decide +kernel
  obtain ⟨exact_payload, forgotten, failing, untouched, -, -, -, again⟩ :=
    applied_changes_exact apart indexedBefore drawn "/w" (dividing '.') changedDisk 1
      ["c.php", "a.php", "b.php", "a.php"] (by decide +kernel) draws
  obtain ⟨fails, kept⟩ := failing "b.php" (by decide) (by decide +kernel)
  refine ⟨apart, drawn, by decide +kernel, ?_, kept _ (fails _ unread tables),
    forgotten "c.php" (by decide)
    (by decide +kernel), untouched "d.php" (by decide), again 2⟩
  rw [exact_payload "a.php" (by decide) subscriber read]
  decide +kernel

end HandlerIndex.Workspace
