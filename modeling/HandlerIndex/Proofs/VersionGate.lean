import HandlerIndex.Proofs.TableUpdates
import Mathlib.Data.List.Induction

/-!
Opening the event store is a gate: what another version left does not come through. Between two
opens anything may happen to the recorded versions, also from outside, and the tables may be used in
the meantime. Whatever they were put through, they report only what was stored after the gate was
last closed. Left out are outside changes of the rows themselves.
-/
namespace HandlerIndex.Store

/-- What can happen to the tables: a use of them, or an outside change of the recorded versions. -/
inductive Incident where
  | use (operation : Operation)
  | meddle (versions : List VersionRecord)
  deriving DecidableEq

namespace Tables

def undergo (tables : Tables) : Incident → Tables
  | .use operation => (tables.perform operation).2
  | .meddle versions => { tables with versions := versions }

def undergoAll (tables : Tables) (incidents : List Incident) : Tables :=
  incidents.foldl undergo tables

def otherVersions (tables : Tables) : List VersionRecord :=
  tables.versions.filter (·.identity != identity)

end Tables

/-! Opening. -/
section Open
variable (tables : Tables)

theorem opened_of_current (current : tables.version? = some currentVersion) :
    tables.opened = tables := by
  rw [Tables.opened, opening, if_pos current]
  rfl

theorem opened_of_other (other : tables.version? ≠ some currentVersion) :
    tables.opened = tables.clearRows.clearFiles.recordVersion := by
  rw [Tables.opened, opening, if_neg other]
  rfl

@[simp] theorem record_version_found : tables.recordVersion.version? = some currentVersion := by
  have none_before : (tables.versions.filter (·.identity != identity)).find? (·.identity ==
      identity) = none := by
    rw [List.find?_eq_none]
    intro record member
    have other : record.identity ≠ identity := by simpa using (List.mem_filter.mp member).2
    simpa using other
  simp only [Tables.version?, Tables.recordVersion, List.find?_append, none_before]
  rfl

@[simp] theorem opened_version : tables.opened.version? = some currentVersion := by
  by_cases current : tables.version? = some currentVersion
  · rw [opened_of_current tables current]
    exact current
  · rw [opened_of_other tables current]
    exact record_version_found _

@[simp] theorem opened_other_versions : tables.opened.otherVersions = tables.otherVersions := by
  by_cases current : tables.version? = some currentVersion
  · rw [opened_of_current tables current]
  · rw [opened_of_other tables current]
    simp [Tables.otherVersions, Tables.recordVersion, Tables.clearFiles, Tables.clearRows]

@[simp] theorem opened_twice : tables.opened.opened = tables.opened :=
  opened_of_current _ (opened_version tables)

end Open

/-! What is reported of a file. -/
section Reported
variable (file : String)

/-- Whether an incident leaves what the tables report of a file. -/
def Spares (tables : Tables) : Incident → Prop
  | .use (.put _ other _ _) => other ≠ file
  | .use (.remove other) => other ≠ file
  | .use .invalidate => False
  | .use .reopen => tables.version? = some currentVersion
  | .meddle _ => True

def SparesAll : Tables → List Incident → Prop
  | _, [] => True
  | tables, incident :: rest =>
    Spares file tables incident ∧ SparesAll (tables.undergo incident) rest

-- Every open after the file was stored found the current version, so none of them closed the gate.
/-- The file was stored, and since then it was not stored again or removed, nothing was invalidated,
and every open found the current version. -/
def StoredSince (start : Tables) (incidents : List Incident) : Prop :=
  ∃ before now hash payload later,
    incidents = before ++ .use (.put now file hash payload) :: later ∧
      SparesAll file ((start.undergoAll before).put now file hash payload) later

theorem spares_all_append (tables : Tables) (first second : List Incident) :
    SparesAll file tables (first ++ second) ↔
      SparesAll file tables first ∧ SparesAll file (tables.undergoAll first) second := by
  induction first generalizing tables with
  | nil => simp [SparesAll, Tables.undergoAll]
  | cons incident rest ih =>
    simp only [List.cons_append, SparesAll, ih, and_assoc]
    rfl

theorem undergo_spared (tables : Tables) (incident : Incident)
    (spared : Spares file tables incident) :
    (tables.undergo incident).isRecorded file = tables.isRecorded file := by
  cases incident with
  | meddle versions => rfl
  | use operation =>
    cases operation with
    | put now other hash payload =>
      simp [Tables.undergo, Tables.perform, Tables.isRecorded, Ne.symm spared]
    | remove other =>
      simp [Tables.undergo, Tables.perform, Tables.isRecorded, Ne.symm spared]
    | invalidate => cases spared
    | reopen =>
      simp only [Tables.undergo, Tables.perform]
      rw [opened_of_current tables spared]

theorem undergo_not_spared (tables : Tables) (incident : Incident)
    (hit : ¬Spares file tables incident) :
    (∃ now hash payload, incident = .use (.put now file hash payload)) ∨
      (tables.undergo incident).isRecorded file = false := by
  cases incident with
  | meddle versions => exact absurd trivial hit
  | use operation =>
    cases operation with
    | put now other hash payload =>
      have same : other = file := not_not.mp hit
      exact .inl ⟨now, hash, payload, by rw [same]⟩
    | remove other =>
      have same : other = file := not_not.mp hit
      right
      simp [Tables.undergo, Tables.perform, Tables.isRecorded, same]
    | invalidate => exact .inr rfl
    | reopen =>
      right
      simp only [Tables.undergo, Tables.perform]
      rw [opened_of_other tables hit]
      rfl

theorem undergo_all_spared (tables : Tables) (incidents : List Incident)
    (spared : SparesAll file tables incidents) :
    (tables.undergoAll incidents).isRecorded file = tables.isRecorded file := by
  induction incidents generalizing tables with
  | nil => rfl
  | cons incident rest ih =>
    have step := undergo_spared file tables incident spared.1
    exact (ih (tables.undergo incident) spared.2).trans step

@[simp] theorem put_recorded (tables : Tables) (now : Int64) (hash : String) (payload : Payload) :
    (tables.put now file hash payload).isRecorded file = true := by
  simp [Tables.isRecorded]

theorem undergo_all_put (start : Tables) (before later : List Incident) (now : Int64)
    (hash : String) (payload : Payload) :
    start.undergoAll (before ++ .use (.put now file hash payload) :: later) =
      ((start.undergoAll before).put now file hash payload).undergoAll later := by
  simp only [Tables.undergoAll, List.foldl_append, List.foldl_cons]
  rfl

/-- From tables that hold no file, a file is reported exactly if it was stored since the gate was
last closed. -/
theorem reported_iff_stored_since (start : Tables) (none_held : start.files = [])
    (incidents : List Incident) :
    (start.undergoAll incidents).isRecorded file = true ↔ StoredSince file start incidents := by
  constructor
  · -- The last incident either stored the file, or spared what was reported before it.
    induction incidents using List.reverseRecOn with
    | nil =>
      intro reported
      simp [Tables.undergoAll, Tables.isRecorded, Tables.fileRecord?, none_held] at reported
    | append_singleton before incident ih =>
      intro reported
      have last : start.undergoAll (before ++ [incident]) =
          (start.undergoAll before).undergo incident := by
        simp [Tables.undergoAll]
      rw [last] at reported
      by_cases spared : Spares file (start.undergoAll before) incident
      · rw [undergo_spared file _ incident spared] at reported
        obtain ⟨earlier, now, hash, payload, later, rfl, kept⟩ := ih reported
        refine ⟨earlier, now, hash, payload, later ++ [incident], by simp, ?_⟩
        rw [undergo_all_put] at spared
        exact (spares_all_append file _ later [incident]).mpr ⟨kept, spared, trivial⟩
      · rcases undergo_not_spared file _ incident spared with ⟨now, hash, payload, rfl⟩ | gone
        · exact ⟨before, now, hash, payload, [], rfl, trivial⟩
        · rw [gone] at reported
          cases reported
  · rintro ⟨before, now, hash, payload, later, rfl, kept⟩
    rw [undergo_all_put, undergo_all_spared file _ later kept]
    exact put_recorded file _ now hash payload

end Reported

/-! The rows go where the records go. -/
section Rows

def Owned (tables : Tables) : Prop := ∀ row ∈ tables.rows, tables.isRecorded row.file = true

theorem undergo_owned (tables : Tables) (incident : Incident) (owned : Owned tables) :
    Owned (tables.undergo incident) := by
  cases incident with
  | meddle versions => exact owned
  | use operation =>
    cases operation with
    | put now file hash payload =>
      intro row member
      by_cases same : row.file = file
      · rw [same]
        exact put_recorded file tables now hash payload
      · have old : row ∈ tables.rows := by
          rcases List.mem_append.mp member with kept | added
          · exact (List.mem_filter.mp kept).1
          · exact absurd (Tables.payload_rows_file file payload added) same
        rw [undergo_spared row.file tables (.use (.put now file hash payload)) (Ne.symm same)]
        exact owned row old
    | remove file =>
      intro row member
      obtain ⟨old, other⟩ := List.mem_filter.mp member
      have different : row.file ≠ file := by simpa using other
      rw [undergo_spared row.file tables (.use (.remove file)) (Ne.symm different)]
      exact owned row old
    | invalidate =>
      intro row member
      cases member
    | reopen =>
      by_cases current : tables.version? = some currentVersion
      · simp only [Tables.undergo, Tables.perform]
        rw [opened_of_current tables current]
        exact owned
      · simp only [Tables.undergo, Tables.perform]
        rw [opened_of_other tables current]
        intro row member
        cases member

theorem undergo_all_owned (tables : Tables) (incidents : List Incident) (owned : Owned tables) :
    Owned (tables.undergoAll incidents) := by
  induction incidents generalizing tables with
  | nil => exact owned
  | cons incident rest ih => exact ih _ (undergo_owned tables incident owned)

end Rows

-- The first open finds nothing, so it closes the gate before everything else.
/-- After any uses and outside changes of the versions, an open records the current version, keeps
the tables if it found that version and empties them otherwise, leaves the versions of others alone,
and does nothing if it is repeated. At every point, the files that are reported and those with rows
were stored since an open last found another version. -/
theorem version_gate (incidents : List Incident) :
    ∃ start, Place.nothing.load = .ok start ∧
      start.version? = some currentVersion ∧ start.rows = [] ∧ start.files = [] ∧
      let tables := start.undergoAll incidents
      (∃ opened, (Place.database tables).load = .ok opened ∧
        tables.undergo (.use .reopen) = opened ∧
        opened.version? = some currentVersion ∧
        (tables.version? = some currentVersion → opened = tables) ∧
        (tables.version? ≠ some currentVersion → opened.rows = [] ∧ opened.files = []) ∧
        opened.otherVersions = tables.otherVersions ∧
        (Place.database opened).load = .ok opened) ∧
      (∀ file, tables.isRecorded file = true ↔ StoredSince file start incidents) ∧
      (∀ file, file ∈ tables.indexedFiles.map (·.file) ↔ StoredSince file start incidents) ∧
      ∀ row ∈ tables.rows, StoredSince row.file start incidents := by
  have reported := fun file => reported_iff_stored_since file Tables.empty.opened rfl incidents
  refine ⟨Tables.empty.opened, rfl, rfl, rfl, rfl, ?_, reported, ?_, ?_⟩
  · refine ⟨_, rfl, rfl, opened_version _, opened_of_current _, ?_, opened_other_versions _, ?_⟩
    · intro other
      rw [opened_of_other _ other]
      exact ⟨rfl, rfl⟩
    · exact congrArg Except.ok (opened_twice _)
  · intro file
    rw [Tables.mem_indexed_names]
    exact reported file
  · intro row member
    have start_owned : Owned Tables.empty.opened := by
      intro row absent
      cases absent
    exact (reported row.file).mp (undergo_all_owned _ incidents start_owned row member)

end HandlerIndex.Store
