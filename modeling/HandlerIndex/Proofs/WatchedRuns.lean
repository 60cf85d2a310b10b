import HandlerIndex.Proofs.FileKeys
import HandlerIndex.Proofs.WatcherSessions

/-!
Workspaces that the index watcher follows. When the watcher has heard of everything and applied it,
the tables are as if the workspace had been indexed once more, as far as the ignore rules have said
the same of a file all the time and no directory has taken its place. Of a file that no change
names, nothing is heard when the rules about it change. Left out are changes of which the system
says nothing.
-/
namespace HandlerIndex.Workspace
open Store (Tables)

/-! A file of which the rules say the same all the time. -/
section Steady
variable (index : Index) {names : List String} {verdict regular : Bool}

/-- A disk on which the filter gives this verdict on a file, and on which its names lead to a
regular file, or to a directory, if they lead to anything. -/
structure Steady (names : List String) (verdict regular : Bool) (disk : Disk) : Prop where
  judged : (FileFilter.load disk index.root index.settings).accepts ("/".intercalate names) =
    verdict
  kind : ∀ entry, disk.below? index.root names = some entry → entry.isFile = regular

/-- A regular file that is accepted is to be noticed, to be applied, or settled. Anything else is
not recorded. -/
structure Tracked (names : List String) (verdict regular : Bool) (session : Session) : Prop where
  filter : session.watcher.filter.accepts ("/".intercalate names) = verdict
  accepted : verdict = true → regular = true →
    index.resolve ("/".intercalate names) ∈ session.events ∨
    "/".intercalate names ∈ session.watcher.pending ∨
      Settled index session.disk session.tables names
  refused : verdict = false → "/".intercalate names ∉ session.watcher.pending
  unrecorded : verdict = false ∨ regular = false →
    session.tables.isRecorded ("/".intercalate names) = false

variable {index}

theorem Steady.no_directory {disk : Disk} (steady : Steady index names verdict regular disk)
    (is_regular : regular = true) (entries : List (String × Entry)) :
    disk.below? index.root names ≠ some (.directory entries) := by
  intro found
  have kind := steady.kind _ found
  rw [is_regular] at kind
  cases kind

theorem Steady.no_file {disk : Disk} (steady : Steady index names verdict regular disk)
    (not_regular : regular = false) (content : Text.Bytes) :
    disk.below? index.root names ≠ some (.file content) := by
  intro found
  have kind := steady.kind _ found
  rw [not_regular] at kind
  cases kind

theorem Settled.of_same_file {before after : Disk} {tables : Tables}
    (settled : Settled index before tables names) (route : Route names)
    (rooted : before.Rooted index.root) (rooted_after : after.Rooted index.root)
    (same : ∀ content, after.below? index.root names = some (.file content) ↔
      before.below? index.root names = some (.file content)) :
        Settled index after tables names := by
  constructor
  · intro source read
    exact settled.current source (read_of_same_file index rooted rooted_after route same read)
  · intro no_file
    exact settled.absent fun content found => no_file content ((same content).mpr found)

theorem change_tracked {session : Session} (named : session.Named index) (route : Route names)
    (tracked : Tracked index names verdict regular session) {changed : List String} {after : Disk}
    (faithful : (Happening.change changed after).Faithful index.root session.disk) :
    Tracked index names verdict regular (session.step index (.change changed after)) := by
  obtain ⟨-, rooted_after, elsewhere⟩ := faithful
  refine ⟨tracked.filter, ?_, tracked.refused, tracked.unrecorded⟩
  intro accepted is_regular
  by_cases same : names = changed
  · rw [same]
    exact .inl (List.mem_append_right _ List.mem_cons_self)
  · rcases tracked.accepted accepted is_regular with queued | pending | settled
    · exact .inl (List.mem_append_left _ queued)
    · exact .inr (.inl pending)
    · exact .inr (.inr (settled.of_same_file route named.rooted rooted_after
        fun content => elsewhere names content same))

theorem notice_tracked {session : Session} (named : session.Named index) (route : Route names)
    (tracked : Tracked index names verdict regular session)
    (steady : Steady index names verdict regular session.disk) :
    Tracked index names verdict regular (session.step index .notice) := by
  obtain ⟨disk, events, watcher, tables⟩ := session
  cases events with
  | nil => exact tracked
  | cons path rest =>
    obtain ⟨heard, heard_route, rfl⟩ := named.events path List.mem_cons_self
    have some_root := named.rooted.some_root
    have filter :
        (Watcher.notice index disk watcher [index.resolve ("/".intercalate heard)]).filter.accepts
        ("/".intercalate names) = verdict := by
      rcases notice_filter index disk watcher [index.resolve ("/".intercalate heard)] with same |
          loaded
      · rw [same]
        exact tracked.filter
      · rw [loaded]
        exact steady.judged
    refine ⟨filter, ?_, ?_, tracked.unrecorded⟩
    · intro accepted is_regular
      have pending : "/".intercalate names ∈ _ ↔ _ :=
        mem_notice_pending index some_root disk watcher heard_route
      rcases tracked.accepted accepted is_regular with queued | waiting | settled
      · rcases List.mem_cons.mp queued with first | later
        · -- The file's own change is noticed now.
          obtain rfl : names = heard := resolve_injective some_root route heard_route first
          exact .inr (.inl (pending.mpr (.inr ⟨rfl, filter.trans accepted⟩)))
        · exact .inl later
      · exact .inr (.inl (pending.mpr (.inl waiting)))
      · exact .inr (.inr settled)
    · intro refused member
      rcases (mem_notice_pending index some_root disk watcher heard_route).mp member with old |
          ⟨new, taken⟩
      · exact tracked.refused refused old
      · obtain rfl : names = heard := route.joined_injective heard_route new
        rw [filter, refused] at taken
        cases taken

theorem flush_tracked {session : Session} (named : session.Named index) (route : Route names)
    (tracked : Tracked index names verdict regular session)
    (steady : Steady index names verdict regular session.disk) (now : Int64) :
    Tracked index names verdict regular (session.step index (.flush now)) := by
  have other (absent : "/".intercalate names ∉ session.watcher.pending) :
      entryOf (session.step index (.flush now)).tables ("/".intercalate names) =
        entryOf session.tables ("/".intercalate names) :=
    flush_other index session.disk now session.watcher session.tables absent
  refine ⟨tracked.filter, ?_, fun _ => List.not_mem_nil, ?_⟩
  · intro accepted is_regular
    by_cases waiting : "/".intercalate names ∈ session.watcher.pending
    · have supported := accepted_supported (tracked.filter.trans accepted)
      obtain ⟨before, same⟩ :=
        flush_mem index session.disk now session.watcher session.tables waiting
      have settled :=
        apply_change_settles index named.rooted route supported (steady.no_directory is_regular) now
        before
      exact .inr (.inr (settled.congr same))
    · rcases tracked.accepted accepted is_regular with queued | pending | settled
      · exact .inl queued
      · exact absurd pending waiting
      · exact .inr (.inr (settled.congr (other waiting)))
  · intro not_both
    have unrecorded := tracked.unrecorded not_both
    rcases not_both with refused | not_regular
    · rw [recorded_congr (other (tracked.refused refused))]
      exact unrecorded
    · exact apply_all_unrecorded index named.rooted route (steady.no_file not_regular) now _
        unrecorded

theorem step_tracked {session : Session} (named : session.Named index) (route : Route names)
    (tracked : Tracked index names verdict regular session)
    (steady : Steady index names verdict regular session.disk) {happening : Happening}
    (faithful : happening.Faithful index.root session.disk) :
    Tracked index names verdict regular (session.step index happening) := by
  cases happening with
  | change changed after => exact change_tracked named route tracked faithful
  | notice => exact notice_tracked named route tracked steady
  | flush now => exact flush_tracked named route tracked steady now

/-- When everything was noticed and applied, a file is recorded only if it would be discovered, and
its entry is current then. -/
theorem tracked_end {session : Session} (named : session.Named index) (route : Route names)
    (tracked : Tracked index names verdict regular session)
    (steady : Steady index names verdict regular session.disk) (noticed : session.events = [])
    (applied : session.watcher.pending = []) :
    ("/".intercalate names ∈ discover session.disk index.root index.settings →
      index.Current session.disk session.tables ("/".intercalate names)) ∧
    (session.tables.isRecorded ("/".intercalate names) = true →
      "/".intercalate names ∈ discover session.disk index.root index.settings) := by
  have settled (accepted : verdict = true) (is_regular : regular = true) :
      Settled index session.disk session.tables names := by
    rcases tracked.accepted accepted is_regular with queued | pending | settled
    · rw [noticed] at queued
      cases queued
    · rw [applied] at pending
      cases pending
    · exact settled
  rw [mem_discover_route index named.rooted route, steady.judged]
  constructor
  · rintro ⟨⟨content, found⟩, accepted⟩
    exact (settled accepted (steady.kind _ found).symm).current
  · intro recorded
    have both : verdict = true ∧ regular = true := by
      by_contra not_both
      rw [not_and_or, Bool.not_eq_true, Bool.not_eq_true] at not_both
      rw [tracked.unrecorded not_both] at recorded
      cases recorded
    refine ⟨?_, both.1⟩
    by_contra no_file
    rw [(settled both.1 both.2).absent fun content found => no_file ⟨content, found⟩] at recorded
    cases recorded

end Steady
/-! The beginning. -/
section Beginning
variable (index : Index) {disk : Disk} {names : List String}

def Session.indexed (disk : Disk) (now : Int64) (tables : Tables) : Session where
  disk := disk
  events := []
  watcher := ⟨FileFilter.load disk index.root index.settings, []⟩
  tables := (index.indexWorkspace disk now tables).2

theorem start_rooted (rooted : disk.Rooted index.root) (now : Int64) (tables : Tables) :
    Session.start index disk now tables = .ok (.indexed index disk now tables) := by
  obtain ⟨entry, there, -⟩ := rooted
  have here : disk.has index.root = true := by
    rw [Disk.has, there]
    rfl
  rw [Session.start, Watcher.start, if_pos here]
  rfl

theorem indexed_named (rooted : disk.Rooted index.root) (now : Int64) (tables : Tables) :
    (Session.indexed index disk now tables).Named index := by
  refine ⟨rooted, nofun, nofun, ?_⟩
  intro file recorded
  by_cases found : file ∈ discover disk index.root index.settings
  · exact discovered_route index rooted found
  · rw [Session.indexed, index_workspace_unrecorded index now tables found] at recorded
    cases recorded

/-- After a workspace was indexed, a file that can be read is recorded exactly if the filter accepts
it. -/
theorem index_workspace_recorded_eq (rooted : disk.Rooted index.root) (now : Int64)
    (tables : Tables) (route : Route names) {source : Source}
    (read : index.read? disk ("/".intercalate names) = some source) :
    (index.indexWorkspace disk now tables).2.isRecorded ("/".intercalate names) =
      (FileFilter.load disk index.root index.settings).accepts ("/".intercalate names) := by
  have discovered := mem_discover_route index rooted route
  cases verdict :
      (FileFilter.load disk index.root index.settings).accepts ("/".intercalate names) with
  | true =>
    have found := discovered.mpr ⟨file_of_read index rooted route read, verdict⟩
    exact index_workspace_recorded index now tables found read
  | false =>
    refine index_workspace_unrecorded index now tables fun found => ?_
    rw [(discovered.mp found).2] at verdict
    cases verdict

theorem indexed_tracked (rooted : disk.Rooted index.root) (now : Int64) (tables : Tables)
    (route : Route names) {verdict regular : Bool}
    (steady : Steady index names verdict regular disk) :
    Tracked index names verdict regular (.indexed index disk now tables) := by
  have discovered := mem_discover_route index rooted route
  rw [steady.judged] at discovered
  have undiscovered (absent : "/".intercalate names ∉ discover disk index.root index.settings) :=
    index_workspace_unrecorded index now tables absent
  refine ⟨steady.judged, ?_, fun _ => List.not_mem_nil, ?_⟩
  · intro accepted _
    refine .inr (.inr ⟨?_, ?_⟩)
    · intro source read
      have found := file_of_read index rooted route read
      exact index_workspace_current index now tables (discovered.mpr ⟨found, accepted⟩) source read
    · intro no_file
      exact undiscovered fun member => no_file _ (discovered.mp member).1.choose_spec
  · rintro (refused | not_regular)
    · refine undiscovered fun member => ?_
      rw [(discovered.mp member).2] at refused
      cases refused
    · refine undiscovered fun member => ?_
      exact steady.no_file not_regular _ (discovered.mp member).1.choose_spec

end Beginning

/-! A file that no change names. -/
section Untouched
variable {index : Index} {names : List String}

/-- Nothing was heard of the file, and nothing has happened to it. -/
structure Untouched (index : Index) (first : Session) (names : List String) (session : Session) :
    Prop where
  unheard : index.resolve ("/".intercalate names) ∉ session.events
  unapplied : "/".intercalate names ∉ session.watcher.pending
  entry : entryOf session.tables ("/".intercalate names) =
    entryOf first.tables ("/".intercalate names)
  file : ∀ content, session.disk.below? index.root names = some (.file content) ↔
    first.disk.below? index.root names = some (.file content)

theorem step_untouched {first session : Session} (named : session.Named index) (route : Route names)
    (untouched : Untouched index first names session) {happening : Happening}
    (faithful : happening.Faithful index.root session.disk)
    (other : ∀ after, happening ≠ .change names after) :
    Untouched index first names (session.step index happening) := by
  cases happening with
  | change changed after =>
    obtain ⟨changed_route, -, elsewhere⟩ := faithful
    have different : names ≠ changed := by
      rintro rfl
      exact other after rfl
    refine ⟨?_, untouched.unapplied, untouched.entry, ?_⟩
    · intro member
      rcases List.mem_append.mp member with old | new
      · exact untouched.unheard old
      · have same := List.mem_singleton.mp new
        exact different (resolve_injective named.rooted.some_root route changed_route same)
    · intro content
      exact (elsewhere names content different).trans (untouched.file content)
  | notice =>
    obtain ⟨disk, events, watcher, tables⟩ := session
    cases events with
    | nil => exact untouched
    | cons path rest =>
      obtain ⟨heard, heard_route, rfl⟩ := named.events path List.mem_cons_self
      have different : names ≠ heard := by
        rintro rfl
        exact untouched.unheard List.mem_cons_self
      refine ⟨fun member => untouched.unheard (List.mem_cons_of_mem _ member), ?_, untouched.entry,
        untouched.file⟩
      intro member
      rcases (mem_notice_pending index named.rooted.some_root disk watcher heard_route).mp member
          with old | ⟨new, -⟩
      · exact untouched.unapplied old
      · exact different (route.joined_injective heard_route new)
  | flush now =>
    refine ⟨untouched.unheard, List.not_mem_nil, ?_, untouched.file⟩
    exact (flush_other index session.disk now session.watcher session.tables
      untouched.unapplied).trans
      untouched.entry

end Untouched

/-! What is known of the files while they are watched. -/
section Knowledge
variable {index : Index} {sources : Set Source}

def Index.DrawsAll (index : Index) (sources : Set Source) (disk : Disk) : Prop :=
  ∀ file source, index.read? disk file = some source → source ∈ sources

theorem apply_change_knows (apart : ToldApart index.fingerprint sources) {disk : Disk}
    (draws : index.DrawsAll sources disk) (now : Int64) {tables : Tables}
    (knows : ∃ known, Knows index.fingerprint sources tables known) (file : String) :
    ∃ known, Knows index.fingerprint sources (Watcher.applyChange index disk now tables file)
      known := by
  obtain ⟨known, knows⟩ := knows
  rw [apply_change_eq]
  split
  · unfold Index.indexFile
    split
    · exact ⟨_, index_read_after index apart knows disk now file fun other _ => draws other⟩
    · exact ⟨known, knows⟩
  · exact ⟨_, forget_knows knows file⟩

theorem apply_all_knows (apart : ToldApart index.fingerprint sources) {disk : Disk}
    (draws : index.DrawsAll sources disk) (now : Int64) (files : List String) {tables : Tables}
    (knows : ∃ known, Knows index.fingerprint sources tables known) :
    ∃ known,
      Knows index.fingerprint sources (files.foldl (Watcher.applyChange index disk now) tables)
        known := by
  induction files generalizing tables with
  | nil => exact knows
  | cons file rest ih => exact ih (apply_change_knows apart draws now knows file)

theorem step_knows (apart : ToldApart index.fingerprint sources) {session : Session}
    (draws : index.DrawsAll sources session.disk)
    (knows : ∃ known, Knows index.fingerprint sources session.tables known)
    (happening : Happening) :
    ∃ known, Knows index.fingerprint sources (session.step index happening).tables known := by
  cases happening with
  | change names after => exact knows
  | notice =>
    unfold Session.step
    dsimp only
    split <;> exact knows
  | flush now => exact apply_all_knows apart draws now _ knows

end Knowledge

theorem discovered_texts (index : Index) {disk : Disk} (rooted : disk.Rooted index.root)
    (readable : ∀ file ∈ discover disk index.root index.settings, (index.read? disk file).isSome =
      true) :
    ∀ file ∈ discoveredFiles disk index.root index.settings, file.text?.isSome = true := by
  intro file found
  have read := readable file.key ((mem_discover index rooted.tree _).mpr ⟨file, found, rfl⟩)
  rw [read_key index rooted.tree found, Option.isSome_map] at read
  exact read

section Watched
variable (index : Index) {disk : Disk} (rooted : disk.Rooted index.root) (now : Int64)
  (tables : Tables) {happenings : List Happening}
  (faithful : FaithfulAll index.root disk happenings)
include rooted faithful

theorem watched_named :
    ((Session.indexed index disk now tables).run index happenings).Named index :=
  happenings_keep index (fun _ => True) (fun _ _ _ here _ named => step_named named here) faithful
    (fun _ _ => trivial) (indexed_named index rooted now tables)

theorem watched_tracked {names : List String} (route : Route names) {verdict regular : Bool}
    (steady : ∀ along ∈ disksAlong disk happenings, Steady index names verdict regular along) :
    Tracked index names verdict regular
      ((Session.indexed index disk now tables).run index happenings) := by
  have both : ∀ session, ∀ happening ∈ happenings, happening.Faithful index.root session.disk →
      Steady index names verdict regular session.disk →
      session.Named index ∧ Tracked index names verdict regular session →
      (session.step index happening).Named index ∧
        Tracked index names verdict regular (session.step index happening) := by
    rintro session happening - here steady ⟨named, tracked⟩
    exact ⟨step_named named here, step_tracked named route tracked steady here⟩
  have first : Steady index names verdict regular disk := steady disk (start_along disk happenings)
  exact (happenings_keep index _ both faithful steady
    ⟨indexed_named index rooted now tables, indexed_tracked index rooted now tables route first⟩).2

theorem watched_untouched {names : List String} (route : Route names)
    (unnamed : ∀ after, .change names after ∉ happenings) :
    Untouched index (.indexed index disk now tables) names
      ((Session.indexed index disk now tables).run index happenings) := by
  have both : ∀ session, ∀ happening ∈ happenings, happening.Faithful index.root session.disk →
      True →
      session.Named index ∧ Untouched index (.indexed index disk now tables) names session →
      (session.step index happening).Named index ∧
        Untouched index (.indexed index disk now tables) names (session.step index happening) := by
    rintro session happening member here - ⟨named, untouched⟩
    refine ⟨step_named named here, step_untouched named route untouched here ?_⟩
    intro after same
    exact unnamed after (same ▸ member)
  have first :
      Untouched index (.indexed index disk now tables) names (.indexed index disk now tables) :=
    ⟨List.not_mem_nil, List.not_mem_nil, rfl, fun _ => Iff.rfl⟩
  exact (happenings_keep index (fun _ => True) both faithful (fun _ _ => trivial)
    ⟨indexed_named index rooted now tables, first⟩).2

omit rooted in
theorem watched_knows {sources : Set Source} (apart : ToldApart index.fingerprint sources)
    (draws : ∀ along ∈ disksAlong disk happenings, index.DrawsAll sources along)
    {known : String → Option Source} (knows : Knows index.fingerprint sources tables known) :
    ∃ known, Knows index.fingerprint sources
      ((Session.indexed index disk now tables).run index happenings).tables known := by
  have first : index.DrawsAll sources disk := draws disk (start_along disk happenings)
  have indexed := index_workspace_mirrors index apart knows disk now fun file _ => first file
  exact happenings_keep index _ (fun _ happening _ _ draws knows =>
    step_knows apart draws knows happening) faithful
    draws ⟨_, indexed⟩

/-- What the tables hold of a workspace that was watched, when everything was noticed and applied. A
file on which the rules gave one verdict all the time, and which was never a directory, has the
entry that indexing the workspace again would leave. The record of a file that no change names
agrees with that exactly if the rules at the end say of it what they said at the beginning. If all
files are of the first kind, the tables are those that indexing the workspace again leaves, and
every look-up finds what it finds after indexing the workspace into new tables. -/
theorem watched_workspace (later : Int64) :
    ∃ first, Session.start index disk now tables = .ok first ∧
      let last := first.run index happenings
      let again := (index.indexWorkspace last.disk later last.tables).2
      (last.events = [] → last.watcher.pending = [] → ∀ names verdict regular, Route names →
        (∀ along ∈ disksAlong disk happenings, Steady index names verdict regular along) →
        entryOf again ("/".intercalate names) = entryOf last.tables ("/".intercalate names)) ∧
      (∀ names source, Route names → (∀ after, .change names after ∉ happenings) →
        index.read? last.disk ("/".intercalate names) = some source →
        (again.isRecorded ("/".intercalate names) = last.tables.isRecorded ("/".intercalate names) ↔
          (FileFilter.load last.disk index.root index.settings).accepts ("/".intercalate names) =
            (FileFilter.load disk index.root index.settings).accepts ("/".intercalate names))) ∧
      (last.events = [] → last.watcher.pending = [] →
        (∀ names, Route names → ∃ verdict regular, ∀ along ∈ disksAlong disk happenings,
          Steady index names verdict regular along) →
        again = last.tables ∧
        ((∀ file ∈ discover last.disk index.root index.settings,
          (index.read? last.disk file).isSome = true) →
          (∀ file, last.tables.isRecorded file = true ↔
            file ∈ discover last.disk index.root index.settings) ∧
          ∀ sources known, ToldApart index.fingerprint sources →
            Knows index.fingerprint sources tables known →
            (∀ along ∈ disksAlong disk happenings, index.DrawsAll sources along) → ∀ event,
            last.tables.lookup event =
              (index.indexWorkspace last.disk later Tables.empty.opened).2.lookup event)) := by
  refine ⟨_, start_rooted index rooted now tables, ?_⟩
  intro last again
  have named : last.Named index := watched_named index rooted now tables faithful
  have last_along : last.disk ∈ disksAlong disk happenings :=
    end_along index (.indexed index disk now tables) happenings
  have ended (noticed : last.events = []) (applied : last.watcher.pending = [])
      {names : List String}
      (route : Route names) {verdict regular : Bool}
      (steady : ∀ along ∈ disksAlong disk happenings, Steady index names verdict regular along) :=
    tracked_end named route (watched_tracked index rooted now tables faithful route steady)
      (steady last.disk last_along) noticed applied
  refine ⟨?_, ?_, ?_⟩
  · intro noticed applied names verdict regular route steady
    obtain ⟨current, recorded⟩ := ended noticed applied route steady
    exact index_workspace_kept index later current recorded
  · intro names source route unnamed read
    have untouched : Untouched index (.indexed index disk now tables) names last :=
      watched_untouched index rooted now tables faithful route unnamed
    have read_first : index.read? disk ("/".intercalate names) = some source :=
      read_of_same_file index rooted named.rooted route untouched.file read
    have recorded_first : last.tables.isRecorded ("/".intercalate names) = _ :=
      (recorded_congr untouched.entry).trans
        (index_workspace_recorded_eq index rooted now tables route read_first)
    rw [recorded_first, index_workspace_recorded_eq index named.rooted later last.tables route read]
  · intro noticed applied all_steady
    have current : ∀ file ∈ discover last.disk index.root index.settings,
        index.Current last.disk last.tables file := by
      intro file found
      obtain ⟨names, route, rfl⟩ := discovered_route index named.rooted found
      obtain ⟨verdict, regular, steady⟩ := all_steady names route
      exact (ended noticed applied route steady).1 found
    have recorded : ∀ file, last.tables.isRecorded file = true →
        file ∈ discover last.disk index.root index.settings := by
      intro file held
      obtain ⟨names, route, rfl⟩ := named.recorded file held
      obtain ⟨verdict, regular, steady⟩ := all_steady names route
      exact (ended noticed applied route steady).2 held
    have same : again = last.tables := index_workspace_idle index later current recorded
    refine ⟨same, fun readable => ⟨fun file => ⟨recorded file, fun found => ?_⟩, ?_⟩⟩
    · obtain ⟨source, read⟩ := Option.isSome_iff_exists.mp (readable file found)
      rw [← same]
      exact index_workspace_recorded index later last.tables found read
    · intro sources known apart knows draws event
      obtain ⟨known_last, knows_last⟩ := watched_knows index now tables faithful apart draws knows
      have last_draws : index.Draws last.disk (discover last.disk index.root index.settings)
          sources :=
        fun file _ => draws last.disk last_along file
      have mirrors := index_workspace_mirrors index apart knows_last last.disk later last_draws
      have fresh := index_workspace_mirrors index apart Knows.empty last.disk later last_draws
      have texts := discovered_texts index named.rooted readable
      rw [← mirrored_of_read index named.rooted.tree known_last texts] at fresh
      exact (congrArg (Tables.lookup · event) same.symm).trans
        (Store.represents_lookup_congr mirrors.held fresh.held event)

end Watched

/-! Workspaces with all files in one directory. -/
section Flat

def flatDisk (files : List (String × Text.Bytes)) : Disk :=
  ⟨.directory [("w", .directory (files.map fun file => (file.1, .file file.2)))]⟩

theorem find_flat (files : List (String × Text.Bytes)) :
    (flatDisk files).find "/w" =
      .ok (.directory (files.map fun file => (file.1, .file file.2))) := rfl

theorem flat_below (files : List (String × Text.Bytes)) (names : List String) (entry : Entry) :
    (flatDisk files).below? "/w" names = some entry ↔
      names = [] ∧ entry = .directory (files.map fun file => (file.1, .file file.2)) ∨
        ∃ name content, names = [name] ∧ files.lookup name = some content ∧
        entry = .file content := by
  have child (name : String) : Entry.child? (files.map fun file => (file.1, .file file.2)) name =
      (files.lookup name).map Entry.file := by
    induction files with
    | nil => rfl
    | cons file rest ih =>
      obtain ⟨first, held⟩ := file
      unfold Entry.child? at ih ⊢
      rw [List.map_cons, List.find?_cons, List.lookup_cons]
      by_cases same : name = first
      · simp [same]
      · simp only [beq_eq_false_iff_ne.mpr same, beq_eq_false_iff_ne.mpr (Ne.symm same), ih]
  rw [below_eq (find_flat files)]
  cases names with
  | nil => simp [Entry.at?, eq_comm]
  | cons name rest =>
    rw [Entry.at?, child]
    cases found : files.lookup name with
    | none => simp [found]
    | some content =>
      cases rest with
      | nil => simp [Entry.at?, found, eq_comm]
      | cons next more => simp [Entry.at?]

theorem flat_faithful {before after : List (String × Text.Bytes)} {name : String}
    (plain : PlainName name) (rooted : (flatDisk after).Rooted "/w")
    (elsewhere : ∀ other ≠ name, after.lookup other = before.lookup other) :
    (Happening.change [name] (flatDisk after)).Faithful "/w" (flatDisk before) := by
  refine ⟨⟨by simp, by simpa using plain⟩, rooted, ?_⟩
  intro others content different
  rw [flat_below, flat_below]
  have other (next : String) (same : others = [next]) : after.lookup next = before.lookup next := by
    refine elsewhere next fun equal => different ?_
    rw [same, equal]
  constructor
  · rintro (⟨-, wrong⟩ | ⟨next, held, same, found, equal⟩)
    · cases wrong
    · exact .inr ⟨next, held, same, (other next same).symm.trans found, equal⟩
  · rintro (⟨-, wrong⟩ | ⟨next, held, same, found, equal⟩)
    · cases wrong
    · exact .inr ⟨next, held, same, (other next same).trans found, equal⟩

theorem flat_rooted {files : List (String × Text.Bytes)}
    (looks : (Entry.directory (files.map fun file => (file.1, .file file.2))).looksPlain = true) :
    (flatDisk files).Rooted "/w" :=
  ⟨_, find_flat files, plain_of_looks _ looks⟩

theorem flat_kind {files : List (String × Text.Bytes)} {name : String} (entry : Entry)
    (found : (flatDisk files).below? "/w" [name] = some entry) : entry.isFile = true := by
  rcases (flat_below files [name] entry).mp found with ⟨wrong, -⟩ | ⟨_, content, -, -, rfl⟩
  · cases wrong
  · rfl

end Flat

def bareFiles : List (String × Text.Bytes) := [("a.php", [])]

def ignoringFiles (rules text : String) : List (String × Text.Bytes) :=
  [(".gitignore", Text.toBytes rules), ("a.php", Text.toBytes text)]

theorem bare_filter :
    FileFilter.load (flatDisk bareFiles) "/w" .standard =
      ⟨"/w", Settings.standard.ignoredDirectories, []⟩ := by
  have found : (walk (flatDisk bareFiles) "/w" .standard).filter FoundFile.isIgnoreFile = [] := rfl
  rw [load_sorted rfl found .nil]
  rfl

theorem ignoring_filter (rules text : String) :
    FileFilter.load (flatDisk (ignoringFiles rules text)) "/w" .standard =
      ⟨"/w", Settings.standard.ignoredDirectories,
        [⟨"/w", Ignore.readRules (Text.toBytes rules)⟩]⟩ := by
  have found : (walk (flatDisk (ignoringFiles rules text)) "/w" .standard).filter
      FoundFile.isIgnoreFile =
      [⟨[".gitignore"], Text.toBytes rules⟩] := rfl
  have base : String.ofList (Ignore.withoutDot (Path.directory
      (Path.join "/w" ("/".intercalate [".gitignore"])).toList)) = "/w" := by decide +kernel
  have no_exclusions : excludeRules (flatDisk (ignoringFiles rules text)) "/w" = [] := rfl
  rw [load_sorted rfl found (List.pairwise_singleton _ _), no_exclusions, List.map_singleton,
    ruleSetOf, Ignore.RuleSet.ofDirectory, FoundFile.pathIn, base, List.nil_append]

def otherIgnored : List Happening :=
  [.change [".gitignore"] (flatDisk (ignoringFiles "b.php" "")), .notice,
   .change ["a.php"] (flatDisk (ignoringFiles "b.php" "<?php")), .notice, .flush 1]

def nowIgnored : List Happening :=
  [.change [".gitignore"] (flatDisk (ignoringFiles "a.php" "")), .notice, .flush 1]

theorem other_ignored_watched :
    (flatDisk bareFiles).Rooted "/w" ∧ FaithfulAll "/w" (flatDisk bareFiles) otherIgnored ∧
    ∃ first, Session.start standardIndex (flatDisk bareFiles) 0 .empty = .ok first ∧
      let last := first.run standardIndex otherIgnored
      last.events = [] ∧ last.watcher.pending = [] ∧
        entryOf (standardIndex.indexWorkspace last.disk 2 last.tables).2 "a.php" =
          entryOf last.tables "a.php" := by
  have rooted : (flatDisk bareFiles).Rooted "/w" := flat_rooted (by decide +kernel)
  have faithful : FaithfulAll "/w" (flatDisk bareFiles) otherIgnored := by
    refine ⟨flat_faithful (by decide +kernel) (flat_rooted (by decide +kernel)) ?_, trivial,
      flat_faithful (by decide +kernel) (flat_rooted (by decide +kernel)) ?_, trivial, trivial,
      trivial⟩
    · intro other different
      simp only [ignoringFiles, bareFiles, List.lookup_cons, beq_eq_false_iff_ne.mpr different]
      rfl
    · intro other different
      simp only [ignoringFiles, List.lookup_cons, beq_eq_false_iff_ne.mpr different]
  have steady : ∀ along ∈ disksAlong (flatDisk bareFiles) otherIgnored,
      Steady standardIndex ["a.php"] true true along := by
    have bare : Steady standardIndex ["a.php"] true true (flatDisk bareFiles) := by
      refine ⟨?_, flat_kind⟩
      simp only [standardIndex, bare_filter]
      decide +kernel
    have ignoring (text : String) :
        Steady standardIndex ["a.php"] true true (flatDisk (ignoringFiles "b.php" text)) := by
      refine ⟨?_, flat_kind⟩
      simp only [standardIndex, ignoring_filter]
      decide +kernel
    intro along member
    simp only [otherIgnored, disksAlong, Happening.diskAfter, List.mem_cons, List.not_mem_nil,
      or_false, or_self]
      at member
    rcases member with rfl | changed
    · exact bare
    · rcases changed with rfl | rfl | rfl | rfl <;> exact ignoring _
  obtain ⟨first, started, steady_files, -⟩ :=
    watched_workspace standardIndex rooted 0 .empty faithful 2
  have same := started.symm.trans (start_rooted standardIndex rooted 0 .empty)
  cases same
  exact ⟨rooted, faithful, _, started, rfl, rfl,
    steady_files rfl rfl ["a.php"] true true ⟨by simp, by decide +kernel⟩ steady⟩

/-- A file that an ignore file names stays recorded, although indexing the workspace forgets it. -/
theorem now_ignored_kept :
    (flatDisk bareFiles).Rooted "/w" ∧ FaithfulAll "/w" (flatDisk bareFiles) nowIgnored ∧
    ∃ first, Session.start standardIndex (flatDisk bareFiles) 0 .empty = .ok first ∧
      let last := first.run standardIndex nowIgnored
      last.events = [] ∧ last.watcher.pending = [] ∧
        last.tables.isRecorded "a.php" = true ∧
        (standardIndex.indexWorkspace last.disk 2 last.tables).2.isRecorded "a.php" = false := by
  have rooted : (flatDisk bareFiles).Rooted "/w" := flat_rooted (by decide +kernel)
  have rooted_last : (flatDisk (ignoringFiles "a.php" "")).Rooted "/w" :=
    flat_rooted (by decide +kernel)
  have faithful : FaithfulAll "/w" (flatDisk bareFiles) nowIgnored := by
    refine ⟨flat_faithful (by decide +kernel) rooted_last ?_, trivial, trivial, trivial⟩
    intro other different
    simp only [ignoringFiles, bareFiles, List.lookup_cons, beq_eq_false_iff_ne.mpr different]
    rfl
  have route : Route ["a.php"] := ⟨by simp, by decide +kernel⟩
  have untouched :=
    watched_untouched standardIndex rooted 0 .empty faithful route (by simp [nowIgnored])
  have read : standardIndex.read? (flatDisk bareFiles) "a.php" =
      some (standardIndex.source "") := rfl
  have read_last : standardIndex.read? (flatDisk (ignoringFiles "a.php" "")) "a.php" =
      some (standardIndex.source "") := rfl
  have recorded := index_workspace_recorded_eq standardIndex rooted 0 .empty route read
  have forgotten := index_workspace_recorded_eq standardIndex rooted_last 2
    ((Session.indexed standardIndex (flatDisk bareFiles) 0 .empty).run standardIndex
      nowIgnored).tables route read_last
  refine ⟨rooted, faithful, _, start_rooted standardIndex rooted 0 .empty, rfl, rfl, ?_, ?_⟩
  · refine (recorded_congr untouched.entry).trans (recorded.trans ?_)
    simp only [standardIndex, bare_filter]
    decide +kernel
  · refine forgotten.trans ?_
    simp only [standardIndex, ignoring_filter]
    decide +kernel

end HandlerIndex.Workspace
