import HandlerIndex.Proofs.WorkspaceMirror
import HandlerIndex.Workspace.Watcher

/-!
Entries of the index service that are current. Whatever the tables held before, a file that was read
has an entry under which it is not read again as long as it stays the same. Indexing passes over
such entries, and what is done about other files does not touch them. Left out are files that change
while they are read.
-/
namespace HandlerIndex.Workspace
open Store (Tables)

/-- The file cannot be read, or what is read there is not indexed again. -/
def Index.Current (index : Index) (disk : Disk) (tables : Tables) (file : String) : Prop :=
  ∀ source, index.read? disk file = some source → index.cached? tables file source ≠ .ok none

section Entries
variable (index : Index) {disk : Disk} {tables others : Tables} {file other : String}

theorem recorded_congr (same : entryOf tables file = entryOf others file) :
    tables.isRecorded file = others.isRecorded file :=
  congrArg (·.1.isSome) same

theorem payload_of_entry (same : entryOf tables file = entryOf others file) :
    tables.filePayload file = others.filePayload file :=
  Store.file_payload_congr (congrArg (·.1.map Store.FileRecord.untimed) same)
    (congrArg Prod.snd same)

theorem cached_congr (same : entryOf tables file = entryOf others file) (source : Source) :
    index.cached? tables file source = index.cached? others file source := by
  have records := congrArg (·.1.map Store.FileRecord.untimed) same
  rw [Index.cached?, Index.cached?, Store.needs_reindex_congr records, payload_of_entry same]

theorem Index.Current.congr (current : index.Current disk tables file)
    (same : entryOf others file = entryOf tables file) : index.Current disk others file := by
  intro source read
  rw [cached_congr index same]
  exact current source read

theorem cached_after_store (now : Int64) (source : Source) :
    index.cached? (index.store now tables file source).2 file source ≠ .ok none := by
  have record :=
    Tables.file_record_put tables now file (index.fingerprint source) source.payload file
  rw [if_pos rfl] at record
  unfold Index.cached? Index.store Tables.needsReindex Tables.filePayload Tables.filePayloadBetween
  simp only [record, bne_self_eq_false, Bool.false_eq_true, if_false]
  cases (tables.put now file (index.fingerprint source) source.payload).storedGroups file with
  | ok payload =>
    intro equal
    cases equal
  | error fault =>
    intro equal
    cases equal

/-- What reading a file leaves in the tables: what was there, if nothing was to be done, and the new
source if not. -/
theorem index_read_tables (disk : Disk) (now : Int64) (tables : Tables) (file : String) :
    index.Current disk tables file ∧
      tablesAfter tables (index.indexRead disk now tables file) = tables ∨
      ∃ source, index.read? disk file = some source ∧ index.cached? tables file source = .ok none ∧
        tablesAfter tables (index.indexRead disk now tables file) =
          (index.store now tables file source).2 := by
  cases read : index.read? disk file with
  | none =>
    obtain ⟨fault, failed⟩ := index_read_error index disk now file read
    left
    rw [failed]
    refine ⟨?_, rfl⟩
    intro source found
    rw [read] at found
    cases found
  | some source =>
    have only (found : Source) (same : index.read? disk file = some found) : found = source := by
      rw [read] at same
      exact (Option.some.inj same).symm
    rw [index_read_eq index disk now file source read, Index.indexSource]
    cases cached : index.cached? tables file source with
    | error fault =>
      refine .inl ⟨?_, rfl⟩
      intro found same
      rw [only found same, cached]
      intro equal
      cases equal
    | ok payload =>
      cases payload with
      | none => exact .inr ⟨source, rfl, cached, rfl⟩
      | some payload =>
        refine .inl ⟨?_, rfl⟩
        intro found same
        rw [only found same, cached]
        intro equal
        cases equal

theorem index_read_current (disk : Disk) (now : Int64) (tables : Tables) (file : String) :
    index.Current disk (tablesAfter tables (index.indexRead disk now tables file)) file := by
  rcases index_read_tables index disk now tables file with ⟨current, same⟩ |
      ⟨source, read, -, stored⟩
  · rw [same]
    exact current
  · rw [stored]
    intro found same
    rw [read] at same
    cases same
    exact cached_after_store index now source

theorem index_read_idle (now : Int64) (current : index.Current disk tables file) :
    tablesAfter tables (index.indexRead disk now tables file) = tables := by
  rcases index_read_tables index disk now tables file with ⟨-, same⟩ | ⟨source, read, cached, -⟩
  · exact same
  · exact absurd cached (current source read)

theorem index_read_other (now : Int64) (different : other ≠ file) :
    entryOf (tablesAfter tables (index.indexRead disk now tables file)) other =
      entryOf tables other := by
  rcases index_read_tables index disk now tables file with ⟨-, same⟩ | ⟨source, -, -, stored⟩
  · rw [same]
  · rw [stored]
    exact entry_put now file _ _ different

theorem entry_remove (different : other ≠ file) :
    entryOf (tables.remove file) other = entryOf tables other :=
  entry_remove_all [file] (by simpa using different)

theorem remove_unrecorded (tables : Tables) (file : String) :
    (tables.remove file).isRecorded file = false := by
  simp [Tables.isRecorded]

theorem remove_all_unrecorded (files : List String)
    (gone : file ∈ files ∨ tables.isRecorded file = false) :
    (files.foldl Tables.remove tables).isRecorded file = false := by
  induction files generalizing tables with
  | nil => exact gone.resolve_left List.not_mem_nil
  | cons first rest ih =>
    apply ih
    by_cases same : file = first
    · subst same
      exact .inr (remove_unrecorded tables file)
    · rw [recorded_congr (entry_remove same)]
      exact gone.imp_left fun member => (List.mem_cons.mp member).resolve_left same

end Entries

/-! A whole workspace. -/
section Workspaces
variable (index : Index) {disk : Disk} {tables : Tables} {file : String}

theorem index_files_other (now : Int64) {files : List String} (state : Stats × Tables)
    (absent : file ∉ files) :
    entryOf (files.foldl (index.indexNext disk now) state).2 file = entryOf state.2 file := by
  induction files generalizing state with
  | nil => rfl
  | cons first rest ih =>
    rw [List.mem_cons, not_or] at absent
    rw [List.foldl_cons, ih _ absent.2, index_next_after]
    exact index_read_other index now absent.1

theorem index_files_kept (now : Int64) (files : List String) (state : Stats × Tables)
    (current : index.Current disk state.2 file) :
    entryOf (files.foldl (index.indexNext disk now) state).2 file = entryOf state.2 file := by
  induction files generalizing state with
  | nil => rfl
  | cons first rest ih =>
    have here : entryOf (index.indexNext disk now state first).2 file = entryOf state.2 file := by
      rw [index_next_after]
      by_cases same : file = first
      · subst same
        rw [index_read_idle index now current]
      · exact index_read_other index now same
    rw [List.foldl_cons, ih _ (current.congr index here), here]

theorem index_files_current (now : Int64) {files : List String} (state : Stats × Tables)
    (member : file ∈ files) :
    index.Current disk (files.foldl (index.indexNext disk now) state).2 file := by
  induction files generalizing state with
  | nil => cases member
  | cons first rest ih =>
    rw [List.foldl_cons]
    rcases List.mem_cons.mp member with rfl | later
    · have current : index.Current disk (index.indexNext disk now state file).2 file := by
        rw [index_next_after]
        exact index_read_current index disk now state.2 file
      exact current.congr index (index_files_kept index now rest _ current)
    · exact ih _ later

theorem index_files_idle_tables (now : Int64) {files : List String} (state : Stats × Tables)
    (current : ∀ file ∈ files, index.Current disk state.2 file) :
    (files.foldl (index.indexNext disk now) state).2 = state.2 := by
  induction files generalizing state with
  | nil => rfl
  | cons first rest ih =>
    have here : (index.indexNext disk now state first).2 = state.2 := by
      rw [index_next_after]
      exact index_read_idle index now (current first List.mem_cons_self)
    rw [List.foldl_cons, ih, here]
    intro other member
    rw [here]
    exact current other (List.mem_cons_of_mem first member)

theorem index_workspace_current (now : Int64) (tables : Tables)
    (found : file ∈ discover disk index.root index.settings) :
    index.Current disk (index.indexWorkspace disk now tables).2 file :=
  index_files_current index now _ found

theorem index_workspace_unrecorded (now : Int64) (tables : Tables)
    (absent : file ∉ discover disk index.root index.settings) :
    (index.indexWorkspace disk now tables).2.isRecorded file = false := by
  have forgotten :
      ((Index.staleFiles tables (discover disk index.root index.settings)).foldl Tables.remove
      tables).isRecorded file = false := by
    apply remove_all_unrecorded
    rw [mem_stale_files]
    cases recorded : tables.isRecorded file with
    | false => exact .inr rfl
    | true => exact .inl ⟨rfl, absent⟩
  exact (recorded_congr (index_files_other index now _ absent)).trans forgotten

/-- A file that is recorded only if it is discovered, and has a current entry then, keeps its
entry. -/
theorem index_workspace_kept (now : Int64)
    (current : file ∈ discover disk index.root index.settings → index.Current disk tables file)
    (recorded : tables.isRecorded file = true → file ∈ discover disk index.root index.settings) :
    entryOf (index.indexWorkspace disk now tables).2 file = entryOf tables file := by
  have kept : file ∉ Index.staleFiles tables (discover disk index.root index.settings) := by
    rw [mem_stale_files]
    exact fun stale => stale.2 (recorded stale.1)
  have same : entryOf _ file = entryOf tables file := entry_remove_all _ kept
  by_cases found : file ∈ discover disk index.root index.settings
  · exact (index_files_kept index now _ _ ((current found).congr index same)).trans same
  · exact (index_files_other index now _ found).trans same

theorem index_workspace_idle (now : Int64)
    (current : ∀ file ∈ discover disk index.root index.settings, index.Current disk tables file)
    (recorded : ∀ file, tables.isRecorded file = true →
      file ∈ discover disk index.root index.settings) :
    (index.indexWorkspace disk now tables).2 = tables := by
  have none_stale : Index.staleFiles tables (discover disk index.root index.settings) = [] := by
    rw [List.eq_nil_iff_forall_not_mem]
    intro file stale
    obtain ⟨held, absent⟩ := (mem_stale_files _ _ _).mp stale
    exact absent (recorded file held)
  unfold Index.indexWorkspace
  dsimp only
  rw [none_stale, List.foldl_nil]
  exact index_files_idle_tables index now _ current

theorem index_workspace_recorded (now : Int64) (tables : Tables)
    (found : file ∈ discover disk index.root index.settings) {source : Source}
    (read : index.read? disk file = some source) :
    (index.indexWorkspace disk now tables).2.isRecorded file = true := by
  have current := index_workspace_current index now tables found source read
  unfold Index.cached? Tables.needsReindex at current
  cases record : (index.indexWorkspace disk now tables).2.fileRecord? file with
  | none =>
    rw [record] at current
    exact absurd rfl current
  | some record => rw [Tables.isRecorded, record, Option.isSome_some]

end Workspaces
end HandlerIndex.Workspace
