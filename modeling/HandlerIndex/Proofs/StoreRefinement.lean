import HandlerIndex.Proofs.Ascending
import HandlerIndex.Proofs.BlobRoundTrip
import HandlerIndex.Proofs.Grouping
import HandlerIndex.Proofs.TableUpdates
import Mathlib.Data.List.Basic
import Mathlib.Logic.Function.Basic

/-!
The tables of the event store are a map from files to what is held of them. Each operation does to
the tables what a plain update does to the map, and every question to the tables is a question to
the map: records and rows, blobs and their grouping cannot be seen from outside. Left out are the
times in records, rows of another version, and changes from outside.
-/
namespace HandlerIndex

-- A payload is held in memory, where every length is a word. The tables count in words too.
structure Payload.Fits (payload : Payload) : Prop where
  count : payload.subscriptionCount < UInt64.size
  members : ∀ group ∈ payload.groups, ∀ s ∈ group.subscriptions, s.Fits

instance (payload : Payload) : Decidable payload.Fits :=
  decidable_of_iff (payload.subscriptionCount < UInt64.size ∧
      ∀ group ∈ payload.groups, ∀ s ∈ group.subscriptions, s.Fits)
    ⟨fun ⟨count, members⟩ => ⟨count, members⟩, fun fits => ⟨fits.count, fits.members⟩⟩

theorem group_length_le (groups : List Group) (group : Group) (member : group ∈ groups) :
    group.subscriptions.length ≤
      groups.foldr (fun group total => group.subscriptions.length + total) 0 := by
  induction groups with
  | nil => cases member
  | cons head rest ih =>
    rw [List.foldr_cons]
    rcases List.mem_cons.mp member with equal | inside
    · rw [equal]
      exact Nat.le_add_right _ _
    · exact Nat.le_trans (ih inside) (Nat.le_add_left _ _)

theorem Payload.Fits.decode {payload : Payload} (fits : payload.Fits) {group : Group}
    (member : group ∈ payload.groups) :
    Store.decodeBlob (Blob.encode group.subscriptions) = .ok group.subscriptions := by
  have few : group.subscriptions.length < UInt64.size :=
    Nat.lt_of_le_of_lt (group_length_le payload.groups group member) fits.count
  have decoded := Blob.decode_encode_append group.subscriptions few (fits.members group member) []
  rw [List.append_nil] at decoded
  rw [Store.decodeBlob, decoded]

namespace Store
open Text (Bytes)

structure Holding where
  hash : String
  payload : Payload

abbrev Contents := String → Option Holding

def Contents.perform (contents : Contents) : Operation → Answer × Contents
  | .put _ file hash payload =>
    (.stored payload.subscriptionCount, Function.update contents file (some ⟨hash, payload⟩))
  | .remove file => (.removed (contents file).isSome, Function.update contents file none)
  | .invalidate => (.done, fun _ => none)
  | .reopen => (.done, contents)

def performAll {State : Type} (perform : State → Operation → Answer × State) (start : State) :
    List Operation → List Answer × State
  | [] => ([], start)
  | operation :: rest =>
    let first := perform start operation
    let later := performAll perform first.2 rest
    (first.1 :: later.1, later.2)

def Operation.Fits : Operation → Prop
  | .put _ _ _ payload => payload.Fits
  | _ => True

instance : DecidablePred Operation.Fits
  | .put _ _ _ payload => inferInstanceAs (Decidable payload.Fits)
  | .remove _ => .isTrue trivial
  | .invalidate => .isTrue trivial
  | .reopen => .isTrue trivial

def Contents.fragments (contents : Contents) (files : List String) (event : String) :
    List (String × List Subscription) :=
  files.filterMap fun file =>
    ((contents file).bind fun holding => holding.payload.get? event).map fun found => (file, found)

/-- The tables hold exactly what the map says. -/
structure Represents (tables : Tables) (contents : Contents) : Prop where
  version : tables.version? = some currentVersion
  keyed : tables.Keyed
  record : ∀ file,
    (tables.fileRecord? file).map (fun record => (record.hash, record.subscriptionCount)) =
    (contents file).map fun holding => (holding.hash, Int64.ofNat holding.payload.subscriptionCount)
  rows : ∀ file, tables.rowsOf file =
    ((contents file).map fun holding => payloadRows file holding.payload).getD []
  fits : ∀ file holding, contents file = some holding → holding.payload.Fits

section Updates
variable {tables : Tables} {contents : Contents}

theorem represents_empty : Represents Tables.empty.opened fun _ => none where
  version := rfl
  keyed := Tables.empty_keyed
  record _ := rfl
  rows _ := rfl
  fits _ _ held := by cases held

theorem represents_put (held : Represents tables contents) (now : Int64) (file hash : String)
    (payload : Payload) (fits : payload.Fits) :
    Represents (tables.put now file hash payload)
      (Function.update contents file (some ⟨hash, payload⟩)) where
  version := held.version
  keyed := Tables.put_keyed now file hash payload held.keyed
  record other := by
    by_cases same : other = file
    · simp [same]
    · simpa [same] using held.record other
  rows other := by
    by_cases same : other = file
    · simp [same]
    · simpa [same] using held.rows other
  fits other holding found := by
    by_cases same : other = file
    · rw [same, Function.update_self] at found
      cases found
      exact fits
    · rw [Function.update_of_ne same] at found
      exact held.fits other holding found

theorem represents_remove (held : Represents tables contents) (file : String) :
    Represents (tables.remove file) (Function.update contents file none) where
  version := held.version
  keyed := Tables.remove_keyed file held.keyed
  record other := by
    by_cases same : other = file
    · simp [same]
    · simpa [same] using held.record other
  rows other := by
    by_cases same : other = file
    · simp [same]
    · simpa [same] using held.rows other
  fits other holding found := by
    by_cases same : other = file
    · rw [same, Function.update_self] at found
      cases found
    · rw [Function.update_of_ne same] at found
      exact held.fits other holding found

theorem represents_remove_all (files : List String) (held : Represents tables contents) :
    Represents (files.foldl Tables.remove tables) fun file => if file ∈ files then none
    else contents file := by
  induction files generalizing tables contents with
  | nil => simpa using held
  | cons file rest ih =>
    have next := ih (represents_remove held file)
    have same :
        (fun other => if other ∈ rest then none else Function.update contents file none other) =
        fun other => if other ∈ file :: rest then none else contents other := by
      funext other
      by_cases here : other = file
      · simp [here]
      · simp [here]
    rw [same] at next
    exact next

theorem represents_invalidate (held : Represents tables contents) :
    Represents tables.invalidateAll fun _ => none where
  version := held.version
  keyed := Tables.invalidate_keyed
  record _ := rfl
  rows _ := rfl
  fits _ _ found := by cases found

theorem represents_opened (held : Represents tables contents) :
    Represents tables.opened contents := by
  rw [Tables.opened, held.version]
  exact held

theorem represents_recorded (held : Represents tables contents) (file : String) :
    tables.isRecorded file = (contents file).isSome := by
  have same := congrArg Option.isSome (held.record file)
  simpa [Tables.isRecorded] using same

/-- One operation on the tables is one on the map, and answers the same. -/
theorem perform_refines (held : Represents tables contents) (operation : Operation)
    (fits : operation.Fits) :
    (tables.perform operation).1 = (contents.perform operation).1 ∧
      Represents (tables.perform operation).2 (contents.perform operation).2 := by
  cases operation with
  | put now file hash payload => exact ⟨rfl, represents_put held now file hash payload fits⟩
  | remove file =>
    refine ⟨?_, represents_remove held file⟩
    simp only [Tables.perform, Contents.perform, represents_recorded held file]
  | invalidate => exact ⟨rfl, represents_invalidate held⟩
  | reopen => exact ⟨rfl, represents_opened held⟩

theorem perform_all_refines (operations : List Operation) (held : Represents tables contents)
    (fits : ∀ operation ∈ operations, operation.Fits) :
    (performAll Tables.perform tables operations).1 =
      (performAll Contents.perform contents operations).1 ∧
      Represents (performAll Tables.perform tables operations).2
        (performAll Contents.perform contents operations).2 := by
  induction operations generalizing tables contents with
  | nil => exact ⟨rfl, held⟩
  | cons operation rest ih =>
    obtain ⟨answered, next⟩ := perform_refines held operation (fits operation List.mem_cons_self)
    obtain ⟨answers, last⟩ :=
      ih next fun other member => fits other (List.mem_cons_of_mem operation member)
    refine ⟨?_, last⟩
    simp only [performAll, answered, answers]

end Updates

/-! Questions. -/
section Questions
variable {tables : Tables} {contents : Contents}

def eventRow (event : String) (fragment : String × List Subscription) : Row where
  file := fragment.1
  event := event
  entryCount := Int64.ofNat fragment.2.length
  payload := .blob (Blob.encode fragment.2)

theorem stored_groups_of_rows (file : String) (payload : Payload) (fits : payload.Fits)
    (rows : tables.rowsOf file = payloadRows file payload) :
    tables.storedGroups file = .ok payload := by
  have sorted : tables.fileRows file = payloadRows file payload := by
    rw [Tables.fileRows, rows]
    apply List.mergeSort_of_pairwise
    refine List.pairwise_map.mpr (payload.ordered.imp ?_)
    intro a b before
    exact decide_eq_true (Std.le_of_lt before)
  have fetched : fetch (·.event) (payloadRows file payload) =
      .ok (payload.groups.map fun group => (group.event, Blob.encode group.subscriptions)) := by
    rw [fetch, payloadRows, List.mapM_map]
    exact map_m_ok _ _ payload.groups fun group _ => rfl
  have decoded :
      decodeEach (payload.groups.map fun group => (group.event, Blob.encode group.subscriptions)) =
      .ok (payload.groups.map fun group => (group.event, group.subscriptions)) := by
    rw [decodeEach, List.mapM_map]
    apply map_m_ok
    intro group member
    simp only [Function.comp_apply, fits.decode member]
    rfl
  rw [Tables.storedGroups, sorted, fetched]
  simp only [bind, Except.bind, decoded, List.map_map]
  refine congrArg Except.ok (Eq.trans (congrArg Payload.ofGroups ?_) payload.of_groups_groups)
  exact List.map_id payload.groups

theorem represents_file_payload (held : Represents tables contents) (file : String) :
    tables.filePayload file = .ok ((contents file).map (·.payload)) := by
  have record := held.record file
  have rows := held.rows file
  rw [Tables.filePayload, Tables.filePayloadBetween]
  cases found : contents file with
  | none =>
    rw [found, Option.map_none, Option.map_eq_none_iff] at record
    rw [record]
    rfl
  | some holding =>
    rw [found, Option.map_some, Option.map_eq_some_iff] at record
    obtain ⟨record, recorded, _⟩ := record
    rw [found, Option.map_some, Option.getD_some] at rows
    rw [recorded]
    simp only [stored_groups_of_rows file holding.payload (held.fits file holding found) rows]
    rfl

theorem represents_needs_reindex (held : Represents tables contents) (file hash : String) :
    tables.needsReindex file hash = false ↔ ∃ payload, contents file = some ⟨hash, payload⟩ := by
  have record := held.record file
  rw [Tables.needsReindex]
  cases found : contents file with
  | none =>
    rw [found, Option.map_none, Option.map_eq_none_iff] at record
    simp [record]
  | some holding =>
    rw [found, Option.map_some, Option.map_eq_some_iff] at record
    obtain ⟨record, recorded, same⟩ := record
    have hashes : record.hash = holding.hash := congrArg Prod.fst same
    cases holding
    simp [recorded, hashes]

theorem count_of_word (count : Nat) (small : count < UInt64.size) :
    (Int64.ofNat count).toUInt64.toNat = count := by
  have word : (Int64.ofNat count).toUInt64 = UInt64.ofNat count := rfl
  rw [word, UInt64.toNat_ofNat_of_lt' small]

theorem represents_indexed_files (held : Represents tables contents) :
    tables.indexedFiles.map (fun file => (file.file, file.hash, file.subscriptionCount.toNat)) =
      (tables.indexedFiles.map (·.file)).filterMap fun file =>
        (contents file).map fun holding =>
          (file, holding.hash, holding.payload.subscriptionCount) := by
  rw [List.filterMap_map, ← List.filterMap_eq_map]
  apply List.filterMap_congr
  intro file member
  obtain ⟨record, stored, rfl⟩ := Tables.mem_indexed_files.mp member
  have agreed := held.record record.file
  rw [Tables.file_record_of_mem held.keyed stored, Option.map_some] at agreed
  obtain ⟨holding, found, same⟩ := Option.map_eq_some_iff.mp agreed.symm
  have count := count_of_word _ (held.fits _ holding found).count
  obtain ⟨hashes, counts⟩ := Prod.mk.inj same
  simp only [Function.comp_apply, FileRecord.view, found, hashes, ← counts, count, Option.map_some]

theorem mem_payload_rows (file : String) (payload : Payload) (row : Row) :
    row ∈ payloadRows file payload ↔
      ∃ found, payload.get? row.event = some found ∧ row = eventRow row.event (file, found) := by
  simp only [payloadRows, List.mem_map, Payload.get_eq_some_iff]
  constructor
  · rintro ⟨group, member, rfl⟩
    exact ⟨group.subscriptions, member, rfl⟩
  · rintro ⟨found, member, made⟩
    exact ⟨_, member, made.symm⟩

theorem represents_mem_rows (held : Represents tables contents) (row : Row) :
    row ∈ tables.rows ↔
      ∃ holding, contents row.file = some holding ∧ row ∈ payloadRows row.file holding.payload := by
  have own : row ∈ tables.rows ↔ row ∈ tables.rowsOf row.file := by simp [Tables.rowsOf]
  rw [own, held.rows row.file]
  cases contents row.file with
  | none => simp
  | some holding => simp

theorem mem_fragments (files : List String) (event : String)
    (fragment : String × List Subscription) :
    fragment ∈ contents.fragments files event ↔ fragment.1 ∈ files ∧
      ∃ holding, contents fragment.1 = some holding ∧
        holding.payload.get? event = some fragment.2 := by
  simp only [Contents.fragments, List.mem_filterMap, Option.map_eq_some_iff,
    Option.bind_eq_some_iff]
  constructor
  · rintro ⟨file, member, found, ⟨holding, present, got⟩, rfl⟩
    exact ⟨member, holding, present, got⟩
  · rintro ⟨member, holding, present, got⟩
    exact ⟨fragment.1, member, fragment.2, ⟨holding, present, got⟩, rfl⟩

theorem fragments_ascending {files : List String} (ascending : Ascending (fun file => file) files)
    (event : String) : Ascending (·.1) (contents.fragments files event) := by
  apply ascending.filter_map
  intro file fragment made
  obtain ⟨found, _, rfl⟩ := Option.map_eq_some_iff.mp made
  rfl

-- Both lists stand in the order of the files and hold one row for a file, so comparing their
-- members is enough.
theorem represents_event_rows (held : Represents tables contents) (event : String) :
    tables.eventRows event =
      (contents.fragments (tables.indexedFiles.map (·.file)) event).map (eventRow event) := by
  apply ascending_ext (·.file)
  · apply merge_sort_ascending
    have keyed := held.keyed.rows.filter (·.event == event)
    refine keyed.imp_of_mem ?_
    intro a b first second differ same
    have firstEvent : a.event = event := by simpa using (List.mem_filter.mp first).2
    have secondEvent : b.event = event := by simpa using (List.mem_filter.mp second).2
    exact differ same (firstEvent.trans secondEvent.symm)
  · exact List.pairwise_map.mpr
      (fragments_ascending (Tables.indexed_files_ascending held.keyed) event)
  · intro row
    simp only [Tables.eventRows, List.mem_mergeSort, List.mem_filter, beq_iff_eq, List.mem_map]
    constructor
    · rintro ⟨member, rfl⟩
      obtain ⟨holding, present, stored⟩ := (represents_mem_rows held row).mp member
      obtain ⟨found, got, made⟩ := (mem_payload_rows _ _ row).mp stored
      have recorded : tables.isRecorded row.file = true := by
        rw [represents_recorded held, present]
        rfl
      refine ⟨(row.file, found), ?_, made.symm⟩
      exact (mem_fragments _ _ _).mpr ⟨(Tables.mem_indexed_names _).mpr recorded, holding,
        present, got⟩
    · rintro ⟨fragment, member, rfl⟩
      obtain ⟨_, holding, present, got⟩ := (mem_fragments _ _ _).mp member
      refine ⟨(represents_mem_rows held _).mpr ⟨holding, present, ?_⟩, rfl⟩
      exact (mem_payload_rows _ _ _).mpr ⟨fragment.2, got, rfl⟩

theorem represents_values_for (held : Represents tables contents) (event : String) :
    tables.valuesFor event = .ok (contents.fragments (tables.indexedFiles.map (·.file)) event) := by
  have fetched : fetch (·.file) (tables.eventRows event) =
      .ok ((contents.fragments (tables.indexedFiles.map (·.file)) event).map fun fragment =>
        (fragment.1, Blob.encode fragment.2)) := by
    rw [represents_event_rows held, fetch, List.mapM_map]
    exact map_m_ok _ _ _ fun fragment _ => rfl
  have decoded :
      decodeEach ((contents.fragments (tables.indexedFiles.map (·.file)) event).map fun fragment =>
      (fragment.1, Blob.encode fragment.2)) =
      .ok ((contents.fragments (tables.indexedFiles.map (·.file)) event).map fun fragment =>
        fragment) := by
    rw [decodeEach, List.mapM_map]
    apply map_m_ok
    intro fragment member
    obtain ⟨_, holding, present, got⟩ := (mem_fragments _ _ _).mp member
    have group := (holding.payload.get_eq_some_iff event fragment.2).mp got
    simp only [Function.comp_apply, (held.fits _ holding present).decode group]
    rfl
  rw [Tables.valuesFor, fetched]
  simp only [bind, Except.bind, decoded, List.map_id']

theorem represents_lookup (held : Represents tables contents) (event : String) :
    tables.lookup event =
      .ok ((contents.fragments (tables.indexedFiles.map (·.file)) event).flatMap fun fragment =>
        fragment.2.map fun s => (fragment.1, s)) := by
  rw [Tables.lookup, represents_values_for held event]
  rfl

/-- What a look-up finds depends on nothing but what the tables stand for. -/
theorem represents_lookup_congr {others : Tables} (held : Represents tables contents)
    (others_held : Represents others contents) (event : String) :
    tables.lookup event = others.lookup event := by
  have same : tables.indexedFiles.map (·.file) = others.indexedFiles.map (·.file) := by
    refine ascending_ext _ (Tables.indexed_files_ascending held.keyed)
      (Tables.indexed_files_ascending others_held.keyed) ?_
    intro file
    rw [Tables.mem_indexed_names, Tables.mem_indexed_names, represents_recorded held,
      represents_recorded others_held]
  rw [represents_lookup held, represents_lookup others_held, same]

end Questions

-- The files in order are one list for all questions: it is the order of the bytes of their names.
/-- Whatever was done to the tables, they answer as the map that was updated in the same way. -/
theorem tables_refine_contents (operations : List Operation)
    (fits : ∀ operation ∈ operations, operation.Fits) :
    let run := performAll Tables.perform Tables.empty.opened operations
    let plain := performAll Contents.perform (fun _ => none) operations
    run.1 = plain.1 ∧
    (∀ file, run.2.filePayload file = .ok ((plain.2 file).map (·.payload))) ∧
    (∀ file hash, run.2.needsReindex file hash = false ↔
      ∃ payload, plain.2 file = some ⟨hash, payload⟩) ∧
    ∃ files : List String,
      files.Pairwise (fun a b => Text.toBytes a < Text.toBytes b) ∧
      (∀ file, file ∈ files ↔ (plain.2 file).isSome = true) ∧
      run.2.indexedFiles.map (fun file => (file.file, file.hash, file.subscriptionCount.toNat)) =
        files.filterMap (fun file =>
          (plain.2 file).map fun holding =>
            (file, holding.hash, holding.payload.subscriptionCount)) ∧
      ∀ event, run.2.valuesFor event = .ok (plain.2.fragments files event) ∧
        run.2.lookup event = .ok ((plain.2.fragments files event).flatMap fun fragment =>
          fragment.2.map fun s => (fragment.1, s)) := by
  obtain ⟨answers, held⟩ := perform_all_refines operations represents_empty fits
  refine ⟨answers, represents_file_payload held, represents_needs_reindex held, _, ?_, ?_,
    represents_indexed_files held, fun event =>
      ⟨represents_values_for held event, represents_lookup held event⟩⟩
  · exact (Tables.indexed_files_ascending held.keyed).imp fun before =>
      (Text.to_bytes_lt_iff _ _).mpr before
  · intro file
    rw [Tables.mem_indexed_names, represents_recorded held]

def onePayload : Payload := .ofGroups [⟨"E", [⟨"E.s", "E", "s", "T.h"⟩]⟩]

def replacing : List Operation :=
  [.put 0 "a.php" "1" (.ofGroups [⟨"E", []⟩, ⟨"D", [⟨"E.s", "E", "s", "T.first"⟩]⟩]),
   .put 0 "b.php" "2" .empty,
   .reopen,
   .put 1 "a.php" "3" (.ofGroups [⟨"E", [⟨"E.s", "E", "s", "T.second"⟩]⟩]),
   .remove "b.php"]

theorem replacing_refines :
    (∀ operation ∈ replacing, operation.Fits) ∧
    (performAll Tables.perform Tables.empty.opened replacing).2.filePayload "a.php" =
      .ok (some (.ofGroups [⟨"E", [⟨"E.s", "E", "s", "T.second"⟩]⟩])) ∧
    (performAll Tables.perform Tables.empty.opened replacing).2.filePayload "b.php" = .ok none := by
  have fits : ∀ operation ∈ replacing, operation.Fits := by decide
  have refined := tables_refine_contents replacing fits
  exact ⟨fits, refined.2.1 "a.php", refined.2.1 "b.php"⟩

end Store
end HandlerIndex
