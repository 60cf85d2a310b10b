import HandlerIndex.Proofs.TableUpdates
import HandlerIndex.Workspace.Workers
import Mathlib.Algebra.BigOperators.Group.List.Basic
import Mathlib.Data.List.Perm.Basic

/-!
What will come of a file when the index service gets to it: its outcome, and what the tables then
hold of it. Both depend on what the tables hold of that file now and on nothing else, so files that
are indexed one after another each come to what was to come of them at first. Left out are the times
at which files are stored.
-/
namespace HandlerIndex

/-! What the tables hold of a file, times apart. -/

namespace Store

abbrev Share := List (String × String × Int64) × List Row

def Tables.share (tables : Tables) (file : String) : Share :=
  ((tables.files.filter (·.file == file)).map FileRecord.untimed, tables.rowsOf file)

def storedShare (file hash : String) (payload : Payload) : Share :=
  ([(file, hash, Int64.ofNat payload.subscriptionCount)], payloadRows file payload)

/-- The same rows, and the same records but for the times, in any order. -/
structure SameButTimes (a b : Tables) : Prop where
  versions : a.versions = b.versions
  rows : a.rows.Perm b.rows
  records : (a.files.map FileRecord.untimed).Perm (b.files.map FileRecord.untimed)

section Shares
variable {a b : Tables} {file : String}

theorem records_of_put (tables : Tables) (now : Int64) (file hash : String) (payload : Payload)
    (other : String) :
    (tables.put now file hash payload).files.filter (·.file == other) =
      if other = file then [⟨file, hash, now, Int64.ofNat payload.subscriptionCount⟩]
      else tables.files.filter (·.file == other) := by
  simp only [Tables.put, Tables.eraseRecord, Tables.eraseRows, List.filter_append,
    List.filter_filter]
  by_cases same : other = file
  · simp [same]
  · have kept : tables.files.filter (fun record => record.file == other && record.file != file) =
        tables.files.filter (·.file == other) := by
      apply List.filter_congr
      intro record _
      by_cases here : record.file = other
      · simp [here, same]
      · simp [here]
    simp [same, Ne.symm same, kept]

theorem share_record (tables : Tables) (file : String) :
    (tables.fileRecord? file).map FileRecord.untimed = (tables.share file).1.head? := by
  simp [Tables.fileRecord?, Tables.share, List.head?_filter]

theorem record_congr (same : a.share file = b.share file) :
    (a.fileRecord? file).map FileRecord.untimed = (b.fileRecord? file).map FileRecord.untimed := by
  rw [share_record, share_record, same]

-- Two lists are the same up to order if each key has the same part of both.
theorem perm_of_parts {α : Type} [DecidableEq α] (key : α → String) {left right : List α}
    (parts : ∀ name, left.filter (key · == name) = right.filter (key · == name)) :
    left.Perm right := by
  rw [List.perm_iff_count]
  intro item
  have counted : ∀ items : List α, (items.filter (key · == key item)).count item =
      items.count item :=
    fun _ => List.count_filter (by simp)
  rw [← counted left, parts, counted]

theorem same_but_times (versions : a.versions = b.versions)
    (shares : ∀ file, a.share file = b.share file) :
    SameButTimes a b := by
  refine ⟨versions, ?_, ?_⟩
  · exact perm_of_parts Row.file fun name => congrArg Prod.snd (shares name)
  · apply perm_of_parts Prod.fst
    intro name
    rw [List.filter_map, List.filter_map]
    exact congrArg Prod.fst (shares name)

/-- Nothing has changed but what the tables hold of one file. -/
structure Replaces (file : String) (share : Share) (before after : Tables) : Prop where
  versions : after.versions = before.versions
  shares : ∀ other, after.share other = if other = file then share else before.share other

theorem replaces_nothing (tables : Tables) (file : String) :
    Replaces file (tables.share file) tables tables := by
  refine ⟨rfl, fun other => ?_⟩
  by_cases same : other = file
  · rw [if_pos same, same]
  · rw [if_neg same]

theorem replaces_put (tables : Tables) (now : Int64) (file hash : String) (payload : Payload) :
    Replaces file (storedShare file hash payload) tables (tables.put now file hash payload) := by
  refine ⟨rfl, fun other => ?_⟩
  rw [Tables.share, records_of_put, Tables.rows_of_put]
  by_cases same : other = file
  · rw [if_pos same, if_pos same, if_pos same]
    rfl
  · rw [if_neg same, if_neg same, if_neg same]
    rfl

theorem Replaces.here {share : Share} (replaces : Replaces file share a b) :
    b.share file = share := by
  rw [replaces.shares, if_pos rfl]

theorem Replaces.elsewhere {share : Share} (replaces : Replaces file share a b) {other : String}
    (apart : other ≠ file) : b.share other = a.share other := by
  rw [replaces.shares, if_neg apart]

end Shares
end Store

namespace Workspace
open Store (Tables Share storedShare Replaces SameButTimes)

/-! Statistics add up, part by part. -/

instance : Zero Stats := ⟨{}⟩

instance : Add Stats where
  add a b :=
    { discovered := a.discovered + b.discovered
      indexed := a.indexed + b.indexed
      unchanged := a.unchanged + b.unchanged
      failed := a.failed + b.failed
      removed := a.removed + b.removed
      subscriptions := a.subscriptions + b.subscriptions }

theorem stats_add (a b : Stats) : a + b = ⟨a.discovered + b.discovered, a.indexed + b.indexed,
    a.unchanged + b.unchanged, a.failed + b.failed, a.removed + b.removed, a.subscriptions +
      b.subscriptions⟩ := rfl

theorem stats_zero : (0 : Stats) = ⟨0, 0, 0, 0, 0, 0⟩ := rfl

instance : AddCommMonoid Stats where
  add_assoc a b c := by simp [stats_add, Nat.add_assoc]
  zero_add a := by simp [stats_add, stats_zero]
  add_zero a := by simp [stats_add, stats_zero]
  add_comm a b := by simp [stats_add, Nat.add_comm]
  nsmul := nsmulRec

def tally : Option Outcome → Stats
  | some outcome => Stats.addSubscriptions 0 outcome + Stats.countOutcome 0 outcome
  | none => Stats.countFailure 0

theorem add_subscriptions_eq (stats : Stats) (outcome : Outcome) :
    stats.addSubscriptions outcome = stats + Stats.addSubscriptions 0 outcome := by
  simp [Stats.addSubscriptions, stats_add, stats_zero]

theorem count_outcome_eq (stats : Stats) (outcome : Outcome) :
    stats.countOutcome outcome = stats + Stats.countOutcome 0 outcome := by
  cases outcome <;> simp [Stats.countOutcome, stats_add, stats_zero]

theorem count_failure_eq (stats : Stats) : stats.countFailure = stats + Stats.countFailure 0 := by
  simp [Stats.countFailure, stats_add, stats_zero]

/-! What will come of a file. -/

abbrev Prospect := Option Outcome × Share

section Prospects
variable (index : Index) (disk : Disk) (tables : Tables)

def Index.ifStored (file : String) (source : Source) : Prospect :=
  (some (.indexed source.payload), storedShare file (index.fingerprint source) source.payload)

def Index.ifLoaded (file : String) (source : Source) : Prospect :=
  match tables.filePayload file with
  | .ok (some payload) => (some (.unchanged payload), tables.share file)
  | .ok none => index.ifStored file source
  | .error _ => (none, tables.share file)

def Index.ifChecked (file : String) (source : Source) : Prospect :=
  if tables.needsReindex file (index.fingerprint source) then index.ifStored file source
  else index.ifLoaded tables file source

def Index.ifRead (file : String) : Prospect :=
  match disk.readText (index.resolve file) with
  | .ok content => index.ifChecked tables file (index.source content)
  | .error _ => (none, tables.share file)

def Task.prospect : Task → Prospect
  | .claim => (none, [], [])
  | .read file => index.ifRead disk tables file
  | .check file source => index.ifChecked tables file source
  | .load file source => index.ifLoaded tables file source
  | .store file source => index.ifStored file source
  | .addSubscriptions file outcome => (some outcome, tables.share file)
  | .countOutcome file outcome => (some outcome, tables.share file)
  | .countFailure file => (none, tables.share file)
  | .finished => (none, [], [])

variable {tables} {other : Tables} {file : String}

theorem if_loaded_congr (same : tables.share file = other.share file) (source : Source) :
    index.ifLoaded tables file source = index.ifLoaded other file source := by
  rw [Index.ifLoaded, Index.ifLoaded,
    Store.file_payload_congr (Store.record_congr same) (congrArg Prod.snd same), same]

theorem if_checked_congr (same : tables.share file = other.share file) (source : Source) :
    index.ifChecked tables file source = index.ifChecked other file source := by
  rw [Index.ifChecked, Index.ifChecked, Store.needs_reindex_congr (Store.record_congr same),
    if_loaded_congr index same]

theorem if_read_congr (same : tables.share file = other.share file) :
    index.ifRead disk tables file = index.ifRead disk other file := by
  unfold Index.ifRead
  rw [same]
  cases disk.readText (index.resolve file) with
  | ok content => exact if_checked_congr index same _
  | error fault => rfl

/-- Nothing but the tables' share of the claimed file counts. -/
theorem prospect_congr (same : tables.share file = other.share file) {task : Task}
    (here : task.file? = some file) :
    task.prospect index disk tables = task.prospect index disk other := by
  cases task with
  | claim => cases here
  | finished => cases here
  | read => cases here; exact if_read_congr index disk same
  | check => cases here; exact if_checked_congr index same _
  | load => cases here; exact if_loaded_congr index same _
  | store => rfl
  | addSubscriptions => cases here; exact congrArg _ same
  | countOutcome => cases here; exact congrArg _ same
  | countFailure => cases here; exact congrArg _ same

end Prospects

/-! The files one after another. -/

section Alone
variable (index : Index) (disk : Disk) (now : Int64)

theorem index_source_settles (tables : Tables) (file : String) (source : Source) :
    match index.indexSource now tables file source with
    | .ok (outcome, after) =>
      (index.ifChecked tables file source).1 = some outcome ∧
        Replaces file (index.ifChecked tables file source).2 tables after
    | .error _ => index.ifChecked tables file source = (none, tables.share file) := by
  unfold Index.indexSource Index.cached? Index.ifChecked
  by_cases changed : tables.needsReindex file (index.fingerprint source) = true
  · rw [if_pos changed, if_pos changed]
    exact ⟨rfl, Store.replaces_put ..⟩
  · rw [if_neg changed, if_neg changed]
    unfold Index.ifLoaded
    cases tables.filePayload file with
    | error fault => rfl
    | ok found =>
      cases found with
      | none => exact ⟨rfl, Store.replaces_put ..⟩
      | some payload => exact ⟨rfl, Store.replaces_nothing ..⟩

theorem index_next_settles (stats : Stats) (tables : Tables) (file : String) :
    (index.indexNext disk now (stats, tables) file).1 =
      stats + tally (index.ifRead disk tables file).1 ∧
    Replaces file (index.ifRead disk tables file).2 tables
      (index.indexNext disk now (stats, tables) file).2 := by
  unfold Index.indexNext Index.indexRead Index.ifRead
  cases disk.readText (index.resolve file) with
  | error fault => exact ⟨count_failure_eq stats, Store.replaces_nothing ..⟩
  | ok content =>
    have settles := index_source_settles index now tables file (index.source content)
    cases done : index.indexSource now tables file (index.source content) with
    | error fault =>
      rw [done] at settles
      simp only [done, settles]
      exact ⟨count_failure_eq stats, Store.replaces_nothing ..⟩
    | ok result =>
      obtain ⟨outcome, after⟩ := result
      rw [done] at settles
      obtain ⟨found, replaces⟩ := settles
      simp only [done, found, tally]
      rw [← add_assoc, ← add_subscriptions_eq, ← count_outcome_eq]
      cases outcome with
      | indexed payload => exact ⟨rfl, replaces⟩
      | unchanged payload => exact ⟨rfl, replaces⟩

/-- Each file comes to what was to come of it at first, as the files before it have left its share
alone. -/
theorem index_files_settle (files : List String) (distinct : files.Nodup) (stats : Stats)
    (tables : Tables) :
    let alone := files.foldl (index.indexNext disk now) (stats, tables)
    alone.1 = stats + (files.map fun file => tally (index.ifRead disk tables file).1).sum ∧
    alone.2.versions = tables.versions ∧
    ∀ file, alone.2.share file =
      if file ∈ files then (index.ifRead disk tables file).2 else tables.share file := by
  induction files generalizing stats tables with
  | nil => simp
  | cons first rest ih =>
    obtain ⟨first_apart, rest_distinct⟩ := List.nodup_cons.mp distinct
    obtain ⟨counted, replaces⟩ := index_next_settles index disk now stats tables first
    obtain ⟨total, versions, shares⟩ := ih rest_distinct
      (index.indexNext disk now (stats, tables) first).1
        (index.indexNext disk now (stats, tables) first).2
    have kept : ∀ file ∈ rest,
        index.ifRead disk (index.indexNext disk now (stats, tables) first).2 file =
          index.ifRead disk tables file := by
      intro file member
      exact if_read_congr index disk (replaces.elsewhere (ne_of_mem_of_not_mem member first_apart))
    have tallies : rest.map (fun file =>
          tally (index.ifRead disk (index.indexNext disk now (stats, tables) first).2 file).1) =
        rest.map fun file => tally (index.ifRead disk tables file).1 := by
      apply List.map_congr_left
      intro file member
      rw [kept file member]
    simp only [List.foldl_cons]
    refine ⟨?_, versions.trans replaces.versions, fun file => ?_⟩
    · rw [total, counted, tallies, List.map_cons, List.sum_cons, add_assoc]
    · rw [shares]
      by_cases later : file ∈ rest
      · rw [if_pos later, if_pos (List.mem_cons_of_mem first later), kept file later]
      · rw [if_neg later, replaces.shares]
        by_cases here : file = first
        · rw [if_pos here, here, if_pos List.mem_cons_self]
        · rw [if_neg here, if_neg (by simp [here, later])]

end Alone
end Workspace
end HandlerIndex
