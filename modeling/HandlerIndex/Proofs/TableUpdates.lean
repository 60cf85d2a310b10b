import HandlerIndex.Proofs.Ascending
import HandlerIndex.Store.Queries
import HandlerIndex.Store.Updates

/-!
What each update of the event store does to the tables, file by file. Storing a file replaces its
own record and rows, removing it takes them away, and neither touches another file. Every change
keeps the keys of the tables: one record for a file, one row for an event of a file. Left out is
what is asked of the tables in between.
-/
namespace HandlerIndex

/-! Runs of steps. -/
section Runs
variable {State Move : Type} {inv : State → List Move → Prop}

-- The invariant sees the moves still to come, so it can carry what is known of each of them.
theorem run_invariant {step : State → Move → Option State}
    (each : ∀ state move rest after, inv state (move :: rest) → step state move = some after →
      inv after rest) {moves : List Move} {state last : State} (start : inv state moves)
    (ran : moves.foldlM step state = some last) : inv last [] := by
  induction moves generalizing state with
  | nil =>
    cases ran
    exact start
  | cons move rest ih =>
    rw [List.foldlM_cons] at ran
    obtain ⟨after, stepped, ran⟩ := Option.bind_eq_some_iff.mp ran
    exact ih (each state move rest after start stepped) ran

theorem fold_invariant {step : State → Move → State}
    (each : ∀ state move rest, inv state (move :: rest) → inv (step state move) rest)
    {moves : List Move} {state : State} (start : inv state moves) :
    inv (moves.foldl step state) [] := by
  have ran : moves.foldlM (fun state move => some (step state move)) state =
      some (moves.foldl step state) :=
    List.foldlM_pure
  refine run_invariant ?_ start ran
  intro state move rest after here stepped
  cases stepped
  exact each state move rest here

end Runs
end HandlerIndex

namespace HandlerIndex.Store.Tables
variable (tables : Tables) (now : Int64) (file hash : String) (payload : Payload)

theorem payload_rows_file {row : Row} (member : row ∈ payloadRows file payload) :
    row.file = file := by
  obtain ⟨group, _, made⟩ := List.mem_map.mp member
  rw [← made]

theorem payload_rows_filter (other : String) :
    (payloadRows file payload).filter (·.file == other) =
      if other = file then payloadRows file payload else [] := by
  by_cases same : other = file
  · rw [if_pos same, List.filter_eq_self]
    intro row member
    simp [payload_rows_file file payload member, same]
  · rw [if_neg same, List.filter_eq_nil_iff]
    intro row member
    simp [payload_rows_file file payload member, Ne.symm same]

@[simp] theorem rows_of_remove (other : String) :
    (tables.remove file).rowsOf other = if other = file then [] else tables.rowsOf other := by
  simp only [remove, eraseRows, eraseRecord, rowsOf, List.filter_filter]
  by_cases same : other = file
  · rw [if_pos same, List.filter_eq_nil_iff]
    intro row _
    simp [same]
  · rw [if_neg same]
    apply List.filter_congr
    intro row _
    by_cases here : row.file = other
    · simp [here, same]
    · simp [here]

@[simp] theorem rows_of_put (other : String) :
    (tables.put now file hash payload).rowsOf other =
      if other = file then payloadRows file payload else tables.rowsOf other := by
  have split : (tables.put now file hash payload).rowsOf other =
      (tables.remove file).rowsOf other ++ (payloadRows file payload).filter (·.file == other) := by
    simp [put, remove, rowsOf, eraseRecord]
  rw [split, rows_of_remove, payload_rows_filter]
  by_cases same : other = file <;> simp [same]

@[simp] theorem file_record_remove (other : String) :
    (tables.remove file).fileRecord? other = if other = file then none
    else tables.fileRecord? other := by
  simp only [remove, eraseRows, eraseRecord, fileRecord?, List.find?_filter]
  by_cases same : other = file
  · rw [if_pos same, List.find?_eq_none]
    intro record _
    simp [same]
  · rw [if_neg same]
    congr 1
    funext record
    by_cases here : record.file = other
    · simp [here, same]
    · simp [here]

@[simp] theorem file_record_put (other : String) :
    (tables.put now file hash payload).fileRecord? other =
      if other = file then some ⟨file, hash, now, Int64.ofNat payload.subscriptionCount⟩
      else tables.fileRecord? other := by
  have split : (tables.put now file hash payload).fileRecord? other =
      ((tables.remove file).fileRecord? other).or
        ([(⟨file, hash, now, Int64.ofNat payload.subscriptionCount⟩ : FileRecord)].find?
          (·.file == other)) := by
    simp [put, remove, fileRecord?, eraseRecord]
  rw [split, file_record_remove]
  by_cases same : other = file
  · simp [same]
  · simp [same, Ne.symm same]

theorem is_recorded_iff :
    tables.isRecorded file = true ↔ ∃ record ∈ tables.files, record.file = file := by
  simp [isRecorded, fileRecord?]

/-! Keys. -/

/-- One record for a file, and one row for an event of a file. -/
structure Keyed (tables : Tables) : Prop where
  records : tables.files.Pairwise fun a b => a.file ≠ b.file
  rows : tables.rows.Pairwise fun a b => a.file = b.file → a.event ≠ b.event

theorem empty_keyed : Keyed empty.opened := by
  constructor
  · exact List.Pairwise.nil
  · exact List.Pairwise.nil

theorem payload_rows_keyed :
    (payloadRows file payload).Pairwise fun a b => a.file = b.file → a.event ≠ b.event := by
  refine List.pairwise_map.mpr (payload.ordered.imp ?_)
  intro a b before _
  exact String.ne_of_lt before

variable {tables}

theorem remove_keyed (keyed : Keyed tables) : Keyed (tables.remove file) := by
  constructor
  · exact keyed.records.filter _
  · exact keyed.rows.filter _

theorem put_keyed (keyed : Keyed tables) : Keyed (tables.put now file hash payload) := by
  have kept := remove_keyed file keyed
  constructor
  · refine List.pairwise_append.mpr ⟨kept.records, List.pairwise_singleton .., ?_⟩
    intro old member new added
    have other : old.file ≠ file := by simpa using (List.mem_filter.mp member).2
    rw [List.mem_singleton.mp added]
    exact other
  · refine List.pairwise_append.mpr ⟨kept.rows, payload_rows_keyed file payload, ?_⟩
    intro old member new added same
    have other : old.file ≠ file := by simpa using (List.mem_filter.mp member).2
    exact absurd (same.trans (payload_rows_file file payload added)) other

theorem invalidate_keyed : Keyed tables.invalidateAll := by
  constructor
  · exact List.Pairwise.nil
  · exact List.Pairwise.nil

theorem file_record_of_mem (keyed : Keyed tables) {record : FileRecord}
    (member : record ∈ tables.files) :
    tables.fileRecord? record.file = some record :=
  find_distinct FileRecord.file keyed.records member

/-! The list of the recorded files. -/

theorem mem_indexed_files {file : IndexedFile} :
    file ∈ tables.indexedFiles ↔ ∃ record ∈ tables.files, record.view = file := by
  simp [indexedFiles]

theorem indexed_files_ascending (keyed : Keyed tables) :
    Ascending (fun file => file) (tables.indexedFiles.map (·.file)) := by
  have sorted := merge_sort_ascending (·.file) tables.files keyed.records
  rw [indexedFiles, List.map_map]
  exact List.pairwise_map.mpr sorted

@[simp] theorem mem_indexed_names :
    file ∈ tables.indexedFiles.map (·.file) ↔ tables.isRecorded file = true := by
  rw [is_recorded_iff]
  simp [indexedFiles, FileRecord.view]

end HandlerIndex.Store.Tables

namespace HandlerIndex.Store

/-! Questions about a file are answered by its rows and its record, and the time in the record plays
no part. -/

def FileRecord.untimed (record : FileRecord) : String × String × Int64 :=
  (record.file, record.hash, record.subscriptionCount)

section Questions
variable {a b : Tables} {file : String}
  (records :
    (a.fileRecord? file).map FileRecord.untimed = (b.fileRecord? file).map FileRecord.untimed)
include records

theorem needs_reindex_congr (hash : String) :
    a.needsReindex file hash = b.needsReindex file hash := by
  unfold Tables.needsReindex
  cases left : a.fileRecord? file with
  | none =>
    rw [left, Option.map_none, eq_comm, Option.map_eq_none_iff] at records
    rw [records]
  | some record =>
    rw [left, Option.map_some, eq_comm, Option.map_eq_some_iff] at records
    obtain ⟨other, found, equal⟩ := records
    have hashes : other.hash = record.hash := congrArg (·.2.1) equal
    simp only [found, hashes]

theorem file_payload_congr (rows : a.rowsOf file = b.rowsOf file) :
    a.filePayload file = b.filePayload file := by
  have groups : a.storedGroups file = b.storedGroups file := by
    rw [Tables.storedGroups, Tables.storedGroups, Tables.fileRows, Tables.fileRows, rows]
  unfold Tables.filePayload Tables.filePayloadBetween
  cases left : a.fileRecord? file with
  | none =>
    rw [left, Option.map_none, eq_comm, Option.map_eq_none_iff] at records
    rw [records]
  | some record =>
    rw [left, Option.map_some, eq_comm, Option.map_eq_some_iff] at records
    obtain ⟨other, found, -⟩ := records
    simp only [found, groups]

end Questions
end HandlerIndex.Store
