import HandlerIndex.Proofs.CurrentEntries
import HandlerIndex.Proofs.RegularFiles

/-!
Sessions of the index watcher. Files come, change and go on the disk; the watcher hears of each
change by the path of the file, some time later, and applies what it heard some time after that.
Each happening changes the entries of the files that it is about, and of no others. Left out is how
long anything takes: a change may be heard of, and applied, at any later time.
-/
namespace HandlerIndex.Workspace
open Store (Tables)

structure Session where
  disk : Disk
  events : List String
  watcher : Watcher
  tables : Tables

inductive Happening where
  | change (names : List String) (disk : Disk)
  | notice
  | flush (now : Int64)

namespace Session
variable (index : Index)

def step (session : Session) : Happening → Session
  | .change names disk =>
    { session with
      disk := disk, events := session.events ++ [index.resolve ("/".intercalate names)] }
  | .notice =>
    match session.events with
    | [] => session
    | path :: rest =>
      { session with
        events := rest, watcher := Watcher.notice index session.disk session.watcher [path] }
  | .flush now =>
    let flushed := Watcher.flush index session.disk now session.watcher session.tables
    { session with watcher := flushed.1, tables := flushed.2 }

def run (session : Session) (happenings : List Happening) : Session :=
  happenings.foldl (step index) session

def start (disk : Disk) (now : Int64) (tables : Tables) : Except Fault Session := do
  let watcher ← Watcher.start index disk
  .ok ⟨disk, [], watcher, (index.indexWorkspace disk now tables).2⟩

end Session

namespace Happening

def diskAfter (disk : Disk) : Happening → Disk
  | .change _ after => after
  | .notice => disk
  | .flush _ => disk

/-- A change makes, alters or takes away the file of its names, and no other file. -/
def Faithful (root : String) (disk : Disk) : Happening → Prop
  | .change names after =>
    Route names ∧ after.Rooted root ∧
      ∀ others content, others ≠ names →
        (after.below? root others = some (.file content) ↔
          disk.below? root others = some (.file content))
  | .notice => True
  | .flush _ => True

end Happening

def FaithfulAll (root : String) : Disk → List Happening → Prop
  | _, [] => True
  | disk, happening :: rest =>
    happening.Faithful root disk ∧ FaithfulAll root (happening.diskAfter disk) rest

def disksAlong (disk : Disk) : List Happening → List Disk
  | [] => [disk]
  | happening :: rest => disk :: disksAlong (happening.diskAfter disk) rest

theorem start_along (disk : Disk) (happenings : List Happening) :
    disk ∈ disksAlong disk happenings := by
  cases happenings <;> exact List.mem_cons_self

section Runs
variable (index : Index)

@[simp] theorem step_disk (session : Session) (happening : Happening) :
    (session.step index happening).disk = happening.diskAfter session.disk := by
  cases happening with
  | change names after => rfl
  | notice =>
    unfold Session.step
    dsimp only
    split <;> rfl
  | flush now => rfl

theorem end_along (session : Session) (happenings : List Happening) :
    (session.run index happenings).disk ∈ disksAlong session.disk happenings := by
  induction happenings generalizing session with
  | nil => exact List.mem_cons_self
  | cons happening rest ih =>
    have later := ih (session.step index happening)
    rw [step_disk] at later
    exact List.mem_cons_of_mem _ later

/-- What each happening keeps on a good disk is kept by a run on good disks. -/
theorem happenings_keep {kept : Session → Prop} (good : Disk → Prop) {happenings : List Happening}
    {session : Session}
    (step : ∀ session, ∀ happening ∈ happenings, happening.Faithful index.root session.disk →
      good session.disk →
      kept session → kept (session.step index happening))
    (faithful : FaithfulAll index.root session.disk happenings)
    (disks : ∀ disk ∈ disksAlong session.disk happenings, good disk) (before : kept session) :
    kept (session.run index happenings) := by
  let inv (session : Session) (rest : List Happening) : Prop :=
    (∀ happening ∈ rest, happening ∈ happenings) ∧ FaithfulAll index.root session.disk rest ∧
      (∀ disk ∈ disksAlong session.disk rest, good disk) ∧ kept session
  have each : ∀ session happening rest, inv session (happening :: rest) →
      inv (session.step index happening) rest := by
    rintro session happening rest ⟨among, ⟨here, later⟩, disks, kept⟩
    refine ⟨fun other member => among other (List.mem_cons_of_mem happening member), ?_, ?_,
      step session happening (among happening List.mem_cons_self) here (disks _ List.mem_cons_self)
        kept⟩
    · rw [step_disk]
      exact later
    · rw [step_disk]
      exact fun disk member => disks disk (List.mem_cons_of_mem _ member)
  exact (fold_invariant each ⟨fun _ member => member, faithful, disks, before⟩).2.2.2

end Runs

/-! What the watcher takes note of, and what it does about it. -/
section Watching
variable (index : Index) {disk : Disk} {names : List String} {tables : Tables} {file other : String}

theorem notice_filter (disk : Disk) (watcher : Watcher) (paths : List String) :
    (Watcher.notice index disk watcher paths).filter = watcher.filter ∨
      (Watcher.notice index disk watcher paths).filter =
        FileFilter.load disk index.root index.settings := by
  unfold Watcher.notice
  dsimp only
  split
  · exact .inr rfl
  · exact .inl rfl

theorem mem_notice_pending (some_root : index.root ≠ "") (disk : Disk) (watcher : Watcher)
    (route : Route names) :
    file ∈ (Watcher.notice index disk watcher [index.resolve ("/".intercalate names)]).pending ↔
      file ∈ watcher.pending ∨ file = "/".intercalate names ∧
        (Watcher.notice index disk watcher [index.resolve ("/".intercalate names)]).filter.accepts
          ("/".intercalate names) = true := by
  have related : index.relative? (index.resolve ("/".intercalate names)) =
      some ("/".intercalate names) :=
    route.relative_path some_root
  simp only [Watcher.notice, Watcher.accepted, List.filterMap_cons, related, List.filterMap_nil,
    List.mem_append, List.mem_filter, List.mem_singleton]
  refine or_congr_right (and_congr_right fun same => ?_)
  rw [same]

theorem apply_change_eq (disk : Disk) (now : Int64) (tables : Tables) (file : String) :
    Watcher.applyChange index disk now tables file =
      if disk.has (index.resolve file) =
        true then tablesAfter tables (index.indexFile disk now tables file)
      else tables.remove file := by
  unfold Watcher.applyChange
  split
  · cases index.indexFile disk now tables file with
    | ok answer => rfl
    | error fault => rfl
  · rfl

theorem apply_change_other (disk : Disk) (now : Int64) (tables : Tables)
    (different : other ≠ file) :
    entryOf (Watcher.applyChange index disk now tables file) other = entryOf tables other := by
  rw [apply_change_eq]
  split
  · unfold Index.indexFile
    split
    · exact index_read_other index now different
    · rfl
  · exact entry_remove different

theorem apply_all_other (disk : Disk) (now : Int64) (tables : Tables) {files : List String}
    (absent : other ∉ files) :
    entryOf (files.foldl (Watcher.applyChange index disk now) tables) other =
      entryOf tables other := by
  induction files generalizing tables with
  | nil => rfl
  | cons file rest ih =>
    rw [List.mem_cons, not_or] at absent
    rw [List.foldl_cons, ih _ absent.2]
    exact apply_change_other index disk now tables absent.1

theorem flush_other (disk : Disk) (now : Int64) (watcher : Watcher) (tables : Tables)
    (absent : file ∉ watcher.pending) :
    entryOf (Watcher.flush index disk now watcher tables).2 file = entryOf tables file := by
  refine apply_all_other index disk now tables ?_
  simpa using absent

/-- What is applied to a file last decides its entry. -/
theorem apply_all_mem (disk : Disk) (now : Int64) (tables : Tables) {files : List String}
    (member : file ∈ files) :
    ∃ before, entryOf (files.foldl (Watcher.applyChange index disk now) tables) file =
      entryOf (Watcher.applyChange index disk now before file) file := by
  induction files generalizing tables with
  | nil => cases member
  | cons first rest ih =>
    by_cases later : file ∈ rest
    · exact ih _ later
    · obtain rfl : file = first := (List.mem_cons.mp member).resolve_right later
      exact ⟨tables, apply_all_other index disk now _ later⟩

theorem flush_mem (disk : Disk) (now : Int64) (watcher : Watcher) (tables : Tables)
    (member : file ∈ watcher.pending) :
    ∃ before, entryOf (Watcher.flush index disk now watcher tables).2 file =
      entryOf (Watcher.applyChange index disk now before file) file := by
  refine apply_all_mem index disk now tables ?_
  simpa using member

/-- The tables are up to date about a file: its entry is current, and there is none if the file is
not there. -/
structure Settled (disk : Disk) (tables : Tables) (names : List String) : Prop where
  current : index.Current disk tables ("/".intercalate names)
  absent : (∀ content, disk.below? index.root names ≠ some (.file content)) →
    tables.isRecorded ("/".intercalate names) = false

variable {index} in
theorem Settled.congr {others : Tables} (settled : Settled index disk tables names)
    (same : entryOf others ("/".intercalate names) = entryOf tables ("/".intercalate names)) :
    Settled index disk others names := by
  refine ⟨settled.current.congr index same, ?_⟩
  rw [recorded_congr same]
  exact settled.absent

-- A directory under the name of the file would be found, but not read, so that nothing would be
-- forgotten.
theorem apply_change_settles (rooted : disk.Rooted index.root) (route : Route names)
    (supported : isSupported ("/".intercalate names) = true)
    (no_directory : ∀ entries, disk.below? index.root names ≠ some (.directory entries))
    (now : Int64) (tables : Tables) :
    Settled index disk (Watcher.applyChange index disk now tables ("/".intercalate names))
      names := by
  rw [apply_change_eq, has_route index rooted route, Index.indexFile, if_pos supported]
  cases below : disk.below? index.root names with
  | none =>
    rw [Option.isSome_none, if_neg Bool.false_ne_true]
    refine ⟨?_, fun _ => remove_unrecorded _ _⟩
    intro source read
    rw [read_route index rooted route, below] at read
    cases read
  | some entry =>
    rw [Option.isSome_some, if_pos rfl]
    refine ⟨index_read_current index disk now tables _, ?_⟩
    intro no_file
    cases entry with
    | file content => exact absurd below (no_file content)
    | directory entries => exact absurd below (no_directory entries)

theorem apply_change_unrecorded (rooted : disk.Rooted index.root) (route : Route names)
    (no_file : ∀ content, disk.below? index.root names ≠ some (.file content)) (now : Int64)
    {tables : Tables} (unrecorded : tables.isRecorded ("/".intercalate names) = false) :
    (Watcher.applyChange index disk now tables ("/".intercalate names)).isRecorded
      ("/".intercalate names) =
      false := by
  have unread : index.read? disk ("/".intercalate names) = none := by
    cases read : index.read? disk ("/".intercalate names) with
    | none => rfl
    | some source =>
      obtain ⟨content, found⟩ := file_of_read index rooted route read
      exact absurd found (no_file content)
  rw [apply_change_eq]
  split
  · unfold Index.indexFile
    split
    · obtain ⟨fault, failed⟩ := index_read_error index disk now ("/".intercalate names) unread
      rw [failed]
      exact unrecorded
    · exact unrecorded
  · exact remove_unrecorded _ _

theorem apply_all_unrecorded (rooted : disk.Rooted index.root) (route : Route names)
    (no_file : ∀ content, disk.below? index.root names ≠ some (.file content)) (now : Int64)
    (files : List String) {tables : Tables}
    (unrecorded : tables.isRecorded ("/".intercalate names) = false) :
    (files.foldl (Watcher.applyChange index disk now) tables).isRecorded ("/".intercalate names) =
      false := by
  induction files generalizing tables with
  | nil => exact unrecorded
  | cons file rest ih =>
    apply ih
    by_cases same : "/".intercalate names = file
    · rw [← same]
      exact apply_change_unrecorded index rooted route no_file now unrecorded
    · rw [recorded_congr (apply_change_other index disk now tables same)]
      exact unrecorded

end Watching

/-! Where the names of a run come from. -/
section Names
variable (index : Index)

structure Session.Named (session : Session) : Prop where
  rooted : session.disk.Rooted index.root
  events : ∀ path ∈ session.events, ∃ names, Route names ∧
    path = index.resolve ("/".intercalate names)
  pending : ∀ file ∈ session.watcher.pending, ∃ names, Route names ∧ file = "/".intercalate names
  recorded : ∀ file, session.tables.isRecorded file = true → ∃ names,
    Route names ∧ file = "/".intercalate names

variable {index}

theorem resolve_injective (some_root : index.root ≠ "") {names others : List String}
    (route : Route names) (other : Route others)
    (same : index.resolve ("/".intercalate names) = index.resolve ("/".intercalate others)) :
    names = others := by
  have first := route.relative_path some_root
  have second := other.relative_path some_root
  unfold Index.resolve at same
  rw [same, second] at first
  exact route.joined_injective other (Option.some.inj first).symm

theorem step_named {session : Session} (named : session.Named index) {happening : Happening}
    (faithful : happening.Faithful index.root session.disk) :
    (session.step index happening).Named index := by
  cases happening with
  | change names after =>
    obtain ⟨route, rooted, -⟩ := faithful
    refine ⟨rooted, ?_, named.pending, named.recorded⟩
    intro path member
    rcases List.mem_append.mp member with old | new
    · exact named.events path old
    · exact ⟨names, route, List.mem_singleton.mp new⟩
  | notice =>
    obtain ⟨disk, events, watcher, tables⟩ := session
    cases events with
    | nil => exact named
    | cons path rest =>
      refine ⟨named.rooted, fun other member =>
        named.events other (List.mem_cons_of_mem path member), ?_, named.recorded⟩
      obtain ⟨names, route, rfl⟩ := named.events path List.mem_cons_self
      intro file member
      rcases (mem_notice_pending index named.rooted.some_root disk watcher route).mp member
          with old | ⟨new, -⟩
      · exact named.pending file old
      · exact ⟨names, route, new⟩
  | flush now =>
    refine ⟨named.rooted, named.events, nofun, ?_⟩
    intro file recorded
    by_cases pending : file ∈ session.watcher.pending
    · exact named.pending file pending
    · have same : entryOf (session.step index (.flush now)).tables file =
          entryOf session.tables file :=
        flush_other index session.disk now session.watcher session.tables pending
      rw [recorded_congr same] at recorded
      exact named.recorded file recorded

end Names

end HandlerIndex.Workspace
