import HandlerIndex.Proofs.CaseFolding
import HandlerIndex.Proofs.StoreRefinement
import Mathlib.Algebra.BigOperators.Group.List.Basic
import Mathlib.Algebra.Ring.Nat

/-!
The counting queries of the event store, which give totals over all files. How many subscriptions
there are is kept with each file, with each row, and in the blobs themselves; the questions for
totals and for summaries of events read one or the other. All of them agree with what the files
hold, as the rows are divided among the files and among the events without anything left over. Left
out are totals beyond a word with a sign, where the database gives up.
-/
namespace HandlerIndex

def wordLimit : Nat := 9223372036854775808

-- Every value falls under one key, so the parts of the keys are the values again, in another order.
theorem parts_perm {α : Type} (key : α → String) (keys : List String) (distinct : keys.Nodup)
    (values : List α) (covered : ∀ value ∈ values, key value ∈ keys) :
    (keys.flatMap fun name => values.filter (key · == name)).Perm values := by
  induction keys generalizing values with
  | nil =>
    cases values with
    | nil => exact .nil
    | cons value rest => exact absurd (covered value List.mem_cons_self) List.not_mem_nil
  | cons name rest ih =>
    obtain ⟨fresh, distinct⟩ := List.nodup_cons.mp distinct
    have others : ∀ value ∈ values.filter (fun value => !(key value == name)),
        key value ∈ rest := by
      intro value member
      obtain ⟨inside, other⟩ := List.mem_filter.mp member
      exact (List.mem_cons.mp (covered value inside)).resolve_left (by simpa using other)
    have untouched : ∀ later ∈ rest, values.filter (key · == later) =
        (values.filter fun value => !(key value == name)).filter (key · == later) := by
      intro later member
      have different : later ≠ name := fun same => fresh (same ▸ member)
      rw [List.filter_filter]
      apply List.filter_congr
      intro value _
      by_cases here : key value = later
      · simp [here, different]
      · simp [here]
    have parts : (rest.flatMap fun later => values.filter (key · == later)) =
        rest.flatMap fun later =>
          (values.filter fun value => !(key value == name)).filter (key · == later) := by
      rw [List.flatMap_def, List.flatMap_def, List.map_congr_left untouched]
    rw [List.flatMap_cons, parts]
    exact ((ih distinct _ others).append_left _).trans (List.filter_append_perm _ values)

theorem sum_parts {α : Type} (key : α → String) {keys : List String} (distinct : keys.Nodup)
    {values : List α} (covered : ∀ value ∈ values, key value ∈ keys) (weight : α → Nat) :
    (keys.map fun name => ((values.filter (key · == name)).map weight).sum).sum =
      (values.map weight).sum := by
  have regrouped := ((parts_perm key keys distinct values covered).map weight).sum_eq
  rw [List.flatMap_def, List.map_flatten, List.sum_flatten, List.map_map, List.map_map] at regrouped
  exact regrouped

namespace Store

/-! Sums of words. -/
section Words

theorem to_int_small {word : Int64} (small : word.toUInt64.toNat < wordLimit) :
    word.toInt = word.toUInt64.toNat := by
  have bits : word.toInt = word.toBitVec.toInt := rfl
  have value : word.toUInt64.toNat = word.toBitVec.toNat := rfl
  rw [value, wordLimit] at small
  rw [bits, value, BitVec.toInt_eq_toNat_of_lt (by omega)]

theorem add_word_exact (total word : Int64)
    (small : total.toUInt64.toNat + word.toUInt64.toNat < wordLimit) :
    ∃ sum, addWord (some total) word = some sum ∧
      sum.toUInt64.toNat = total.toUInt64.toNat + word.toUInt64.toNat := by
  have exact_sum : total.toInt + word.toInt =
      (total.toUInt64.toNat + word.toUInt64.toNat : Nat) := by
    rw [to_int_small (by omega), to_int_small (by omega), Int.natCast_add]
  refine ⟨Int64.ofNat (total.toUInt64.toNat + word.toUInt64.toNat), ?_, ?_⟩
  · have least : Int64.minValue.toInt = -9223372036854775808 := rfl
    have most : Int64.maxValue.toInt = 9223372036854775807 := rfl
    simp only [addWord, Option.bind_eq_bind, Option.bind_some, exact_sum, least, most,
      Int64.ofInt_eq_ofNat]
    rw [if_pos]
    rw [wordLimit] at small
    omega
  · apply count_of_word
    rw [wordLimit] at small
    exact Nat.lt_trans small (by decide)

theorem add_words_exact (words : List Int64) (total : Int64)
    (small : total.toUInt64.toNat + (words.map (·.toUInt64.toNat)).sum < wordLimit) :
    ∃ sum, words.foldl addWord (some total) = some sum ∧
      sum.toUInt64.toNat = total.toUInt64.toNat + (words.map (·.toUInt64.toNat)).sum := by
  induction words generalizing total with
  | nil => exact ⟨total, rfl, rfl⟩
  | cons word rest ih =>
    rw [List.map_cons, List.sum_cons] at small ⊢
    obtain ⟨next, added, value⟩ := add_word_exact total word (by omega)
    obtain ⟨sum, later, whole⟩ := ih next (by omega)
    exact ⟨sum, by rw [List.foldl_cons, added, later], by omega⟩

/-- Words are added without a fault if their sum is a word. -/
theorem sum_words_exact (words : List Int64)
    (small : (words.map (·.toUInt64.toNat)).sum < wordLimit) :
    ∃ sum, sumWords words = .ok sum ∧ sum.toUInt64.toNat = (words.map (·.toUInt64.toNat)).sum := by
  have nothing : (0 : Int64).toUInt64.toNat = 0 := rfl
  obtain ⟨sum, added, value⟩ := add_words_exact words 0 (by rw [nothing, Nat.zero_add]; exact small)
  refine ⟨sum, ?_, by rw [value, nothing, Nat.zero_add]⟩
  rw [sumWords, sumWords?, added]

theorem word_le_iff {word : UInt64} {count : Nat} (least : word.toNat < wordLimit)
    (small : count < wordLimit) :
    word.toInt64 ≤ Int64.ofNat count ↔ word.toNat ≤ count := by
  have value : (Int64.ofNat count).toUInt64.toNat = count :=
    count_of_word count (Nat.lt_trans small (by decide))
  rw [Int64.le_iff_toInt_le, to_int_small (by rw [UInt64.toUInt64_toInt64]; exact least),
    to_int_small (by rw [value]; exact small), value, UInt64.toUInt64_toInt64, Int.ofNat_le]

end Words

/-! The distinct events of the tables. -/
section Events

theorem erase_dups_nodup (names : List String) : names.eraseDups.Nodup := by
  match names with
  | [] => exact List.nodup_nil
  | name :: rest =>
    rw [List.eraseDups_cons, List.nodup_cons]
    exact ⟨by simp, erase_dups_nodup _⟩
termination_by names.length
decreasing_by exact Nat.lt_succ_of_le (List.length_filter_le _ rest)

theorem mem_events_matching {tables : Tables} {pattern event : String} :
    event ∈ tables.eventsMatching pattern ↔
      Tables.nameMatches pattern event = true ∧ ∃ row ∈ tables.rows, row.event = event := by
  rw [Tables.eventsMatching, List.mem_mergeSort, List.mem_eraseDups, List.mem_filter, List.mem_map,
    and_comm]

theorem events_matching_ascending (tables : Tables) (pattern : String) :
    Ascending (fun event => event) (tables.eventsMatching pattern) :=
  merge_sort_ascending _ _ (erase_dups_nodup _)

theorem name_matches_iff (pattern event : String) : Tables.nameMatches pattern event = true ↔
    Text.foldAsciiChars pattern.toList <:+: Text.foldAsciiChars event.toList :=
  Text.occurs_in_iff _ _

@[simp] theorem empty_name_matches (event : String) : Tables.nameMatches "" event = true :=
  (name_matches_iff "" event).mpr (List.nil_infix)

theorem event_total_eq (tables : Tables) :
    tables.eventTotal = (tables.eventsMatching "").length := by
  have all : (tables.rows.map (·.event)).filter (Tables.nameMatches "") =
      tables.rows.map (·.event) :=
    List.filter_eq_self.mpr fun event _ => empty_name_matches event
  rw [Tables.eventTotal, Tables.eventsMatching, all, List.length_mergeSort]

end Events

/-! What rows and records count, against what the files hold. -/
section Counts
variable {tables : Tables} {contents : Contents}

def Row.entries (row : Row) : Nat := row.entryCount.toUInt64.toNat

def Contents.total (contents : Contents) (files : List String) : Nat :=
  (files.map fun file => ((contents file).map (·.payload.subscriptionCount)).getD 0).sum

def Contents.summary (contents : Contents) (files : List String) (event : String) :
    EventSummary where
  event := event
  subscriptionCount := .ofNat ((contents.fragments files event).map (·.2.length)).sum
  fileCount := .ofNat (contents.fragments files event).length

theorem subscription_count_eq_sum (payload : Payload) :
    payload.subscriptionCount = (payload.groups.map (·.subscriptions.length)).sum := by
  rw [Payload.subscriptionCount, List.sum_eq_foldr, List.foldr_map]

@[simp] theorem payload_rows_entries (file : String) {payload : Payload} (fits : payload.Fits) :
    ((payloadRows file payload).map Row.entries).sum = payload.subscriptionCount := by
  rw [subscription_count_eq_sum, payloadRows, List.map_map]
  refine congrArg List.sum (List.map_congr_left ?_)
  intro group member
  exact count_of_word _ (Nat.lt_of_le_of_lt (group_length_le _ group member) fits.count)

theorem event_row_entries (held : Represents tables contents) {files : List String} {event : String}
    {fragment : String × List Subscription} (member : fragment ∈ contents.fragments files event) :
    (eventRow event fragment).entries = fragment.2.length := by
  obtain ⟨-, holding, present, got⟩ := (mem_fragments _ _ _).mp member
  have fits := held.fits _ holding present
  have group := (holding.payload.get_eq_some_iff event fragment.2).mp got
  exact count_of_word _ (Nat.lt_of_le_of_lt (group_length_le _ _ group) fits.count)

theorem represents_entries_of_event (held : Represents tables contents) (event : String) :
    (tables.rows.filter (·.event == event)).length =
      (contents.fragments (tables.indexedFiles.map (·.file)) event).length ∧
    ((tables.rows.filter (·.event == event)).map Row.entries).sum =
      ((contents.fragments (tables.indexedFiles.map (·.file)) event).map (·.2.length)).sum := by
  have sorted : (tables.eventRows event).Perm (tables.rows.filter (·.event == event)) :=
    List.mergeSort_perm _ _
  rw [represents_event_rows held] at sorted
  constructor
  · rw [← sorted.length_eq, List.length_map]
  · rw [← (sorted.map Row.entries).sum_eq, List.map_map]
    exact congrArg List.sum (List.map_congr_left fun fragment member =>
      event_row_entries held member)

/-- The rows together count what the files hold together. -/
theorem represents_entries (held : Represents tables contents) :
    (tables.rows.map Row.entries).sum = contents.total (tables.indexedFiles.map (·.file)) := by
  have recorded : ∀ row ∈ tables.rows, row.file ∈ tables.indexedFiles.map (·.file) := by
    intro row member
    obtain ⟨holding, present, -⟩ := (represents_mem_rows held row).mp member
    simp [represents_recorded held, present]
  rw [← sum_parts Row.file (Tables.indexed_files_ascending held.keyed).nodup recorded Row.entries]
  refine congrArg List.sum (List.map_congr_left ?_)
  intro file _
  have rows : tables.rows.filter (·.file == file) = _ := held.rows file
  rw [rows]
  cases found : contents file with
  | none => rfl
  | some holding => exact payload_rows_entries file (held.fits file holding found)

/-- The records together count what the files hold together. -/
theorem represents_record_counts (held : Represents tables contents) :
    (tables.indexedFiles.map (·.subscriptionCount.toNat)).sum =
      contents.total (tables.indexedFiles.map (·.file)) := by
  rw [Contents.total, List.map_map]
  refine congrArg List.sum (List.map_congr_left ?_)
  intro file member
  obtain ⟨record, stored, rfl⟩ := Tables.mem_indexed_files.mp member
  have agreed := held.record record.file
  rw [Tables.file_record_of_mem held.keyed stored, Option.map_some] at agreed
  obtain ⟨holding, found, same⟩ := Option.map_eq_some_iff.mp agreed.symm
  have count := count_of_word _ (held.fits _ holding found).count
  rw [(Prod.mk.inj same).2] at count
  have present : contents record.view.file = some holding := found
  rw [Function.comp_apply, present]
  exact count

end Counts

/-! Summaries of events. -/
section Summaries
variable {tables : Tables} {contents : Contents} (held : Represents tables contents)
include held

theorem represents_event_iff (event : String) :
    (∃ row ∈ tables.rows, row.event = event) ↔
      contents.fragments (tables.indexedFiles.map (·.file)) event ≠ [] := by
  rw [← List.length_pos_iff, ← (represents_entries_of_event held event).1, List.length_pos_iff]
  simp [List.filter_eq_nil_iff]

theorem entries_of_event_le (event : String) :
    ((contents.fragments (tables.indexedFiles.map (·.file)) event).map (·.2.length)).sum ≤
      contents.total (tables.indexedFiles.map (·.file)) := by
  have divided := ((List.filter_append_perm (fun row : Row => row.event == event) tables.rows).map
    Row.entries).sum_eq
  rw [List.map_append, List.sum_append, represents_entries held,
    (represents_entries_of_event held event).2] at divided
  omega

variable (few : (tables.indexedFiles.map (·.file)).length < wordLimit)
  (room : contents.total (tables.indexedFiles.map (·.file)) < wordLimit)
include room

theorem represents_summary (event : String) :
    tables.summary event = .ok (contents.summary (tables.indexedFiles.map (·.file)) event,
      Int64.ofNat (contents.fragments (tables.indexedFiles.map (·.file)) event).length) := by
  obtain ⟨files, entries⟩ := represents_entries_of_event held event
  have small := Nat.lt_of_le_of_lt (entries_of_event_le held event) room
  obtain ⟨sum, added, value⟩ :=
    sum_words_exact ((tables.rows.filter (·.event == event)).map (·.entryCount))
    (by rw [List.map_map]; exact entries ▸ small)
  rw [List.map_map] at value
  have word : sum.toUInt64 = .ofNat
      ((contents.fragments (tables.indexedFiles.map (·.file)) event).map (·.2.length)).sum := by
    rw [← entries, ← UInt64.ofNat_toNat (x := sum.toUInt64)]
    exact congrArg UInt64.ofNat value
  rw [Tables.summary]
  simp only [added, bind, Except.bind, files, word]
  rfl

include few

theorem summary_counts (event : String) :
    (contents.summary (tables.indexedFiles.map (·.file)) event).fileCount.toNat =
      (contents.fragments (tables.indexedFiles.map (·.file)) event).length ∧
    (contents.summary (tables.indexedFiles.map (·.file)) event).subscriptionCount.toNat =
      ((contents.fragments (tables.indexedFiles.map (·.file)) event).map (·.2.length)).sum := by
  have words : wordLimit < UInt64.size := by decide
  have files : (contents.fragments (tables.indexedFiles.map (·.file)) event).length < wordLimit :=
    Nat.lt_of_le_of_lt (List.length_filterMap_le _ _) few
  have entries := Nat.lt_of_le_of_lt (entries_of_event_le held event) room
  exact ⟨UInt64.toNat_ofNat_of_lt' (Nat.lt_trans files words),
    UInt64.toNat_ofNat_of_lt' (Nat.lt_trans entries words)⟩

/-- The answer to a search is told by what the files hold. -/
theorem represents_search_events (pattern : String) (minFiles : UInt64)
    (least : minFiles.toNat < wordLimit) :
    tables.searchEvents pattern minFiles =
      .ok (((tables.eventsMatching pattern).filter fun event => decide (minFiles.toNat ≤
        (contents.fragments (tables.indexedFiles.map (·.file)) event).length)).map
          (contents.summary (tables.indexedFiles.map (·.file)))) := by
  have summaries := map_m_ok tables.summary _ (tables.eventsMatching pattern)
    fun event _ => represents_summary held room event
  have enough : ∀ event, (minFiles.toInt64 ≤
      Int64.ofNat (contents.fragments (tables.indexedFiles.map (·.file)) event).length) ↔
      minFiles.toNat ≤ (contents.fragments (tables.indexedFiles.map (·.file)) event).length := by
    intro event
    have files : (contents.fragments (tables.indexedFiles.map (·.file)) event).length < wordLimit :=
      Nat.lt_of_le_of_lt (List.length_filterMap_le _ _) few
    exact word_le_iff least files
  rw [Tables.searchEvents, summaries]
  simp only [bind, Except.bind, List.filter_map, List.map_map, Function.comp_def, enough]

/-- A search lists the events that are asked for, in order, with what the files have of each. -/
theorem represents_summaries (pattern : String) (minFiles : UInt64)
    (least : minFiles.toNat < wordLimit) :
    ∃ summaries, tables.searchEvents pattern minFiles = .ok summaries ∧
      (summaries.map (·.event)).Pairwise (fun a b => Text.toBytes a < Text.toBytes b) ∧
      (∀ event, event ∈ summaries.map (·.event) ↔
        contents.fragments (tables.indexedFiles.map (·.file)) event ≠ [] ∧
        minFiles.toNat ≤ (contents.fragments (tables.indexedFiles.map (·.file)) event).length ∧
        Text.foldAsciiChars pattern.toList <:+: Text.foldAsciiChars event.toList) ∧
      ∀ summary ∈ summaries,
        summary.fileCount.toNat =
          (contents.fragments (tables.indexedFiles.map (·.file)) summary.event).length ∧
        summary.subscriptionCount.toNat =
          ((contents.fragments (tables.indexedFiles.map (·.file)) summary.event).map
            (·.2.length)).sum ∧
        ∃ found, tables.lookup summary.event = .ok found ∧
        found.length = summary.subscriptionCount.toNat := by
  refine ⟨_, represents_search_events held few room pattern minFiles least, ?_, ?_, ?_⟩
  · rw [List.map_map]
    refine List.pairwise_map.mpr
      (List.Pairwise.imp ?_ ((events_matching_ascending tables pattern).filter _))
    intro a b before
    exact (Text.to_bytes_lt_iff a b).mpr before
  · intro event
    rw [List.map_map]
    have same : (fun event => (contents.summary (tables.indexedFiles.map (·.file)) event).event) =
        id := rfl
    simp only [Function.comp_def, same, List.map_id, List.mem_filter, decide_eq_true_eq,
      mem_events_matching, represents_event_iff held, name_matches_iff]
    constructor
    · rintro ⟨⟨named, some_file⟩, enough⟩
      exact ⟨some_file, enough, named⟩
    · rintro ⟨some_file, enough, named⟩
      exact ⟨⟨named, some_file⟩, enough⟩
  · intro summary member
    obtain ⟨event, -, rfl⟩ := List.mem_map.mp member
    obtain ⟨files, entries⟩ := summary_counts held few room event
    refine ⟨files, entries, _, represents_lookup held event, ?_⟩
    rw [entries, List.length_flatMap]
    simp only [List.length_map]

/-- What is counted by events, by records and in all is the same. -/
theorem represents_totals :
    ∃ all count, tables.searchEvents "" 0 = .ok all ∧ tables.subscriptionTotal = .ok count ∧
      count.toNat = (all.map (·.subscriptionCount.toNat)).sum ∧
      count.toNat = (tables.indexedFiles.map (·.subscriptionCount.toNat)).sum ∧
      tables.eventTotal = all.length ∧ tables.fileTotal = tables.indexedFiles.length := by
  have records : (tables.files.map (·.subscriptionCount.toUInt64.toNat)).sum =
      (tables.indexedFiles.map (·.subscriptionCount.toNat)).sum := by
    rw [Tables.indexedFiles, List.map_map]
    exact (((List.mergeSort_perm _ _).map _).sum_eq).symm
  have total := represents_record_counts held
  obtain ⟨sum, added, value⟩ := sum_words_exact (tables.files.map (·.subscriptionCount))
    (by rw [List.map_map]; exact (records.trans total) ▸ room)
  rw [List.map_map] at value
  have every : (tables.eventsMatching "").filter (fun event => decide ((0 : UInt64).toNat ≤
      (contents.fragments (tables.indexedFiles.map (·.file)) event).length)) =
        tables.eventsMatching "" :=
    List.filter_eq_self.mpr fun event _ => decide_eq_true (Nat.zero_le _)
  have answer := represents_search_events held few room "" 0 (by decide)
  rw [every] at answer
  refine ⟨_, _, answer, ?_, ?_, value.trans records, ?_, ?_⟩
  · rw [Tables.subscriptionTotal, added]
    rfl
  · have covered : ∀ row ∈ tables.rows, row.event ∈ tables.eventsMatching "" := fun row member =>
      mem_events_matching.mpr ⟨empty_name_matches _, row, member, rfl⟩
    have by_events :=
      sum_parts Row.event (events_matching_ascending tables "").nodup covered Row.entries
    rw [represents_entries held, ← total, ← records] at by_events
    refine (value.trans by_events.symm).trans (congrArg List.sum ?_)
    rw [List.map_map]
    refine List.map_congr_left ?_
    intro event _
    exact (represents_entries_of_event held event).2.trans
      (summary_counts held few room event).2.symm
  · rw [event_total_eq, List.length_map]
  · rw [Tables.fileTotal, Tables.indexedFiles, List.length_map, List.length_mergeSort]

end Summaries

/-- Totals and summaries of events agree with what the files hold, after whatever was done to the
tables. -/
theorem aggregates_agree (operations : List Operation)
    (fits : ∀ operation ∈ operations, operation.Fits) :
    let tables := (performAll Tables.perform Tables.empty.opened operations).2
    let contents := (performAll Contents.perform (fun _ => none) operations).2
    let files := tables.indexedFiles.map (·.file)
    (∀ file, (file ∈ files ↔ (contents file).isSome = true) ∧
      tables.filePayload file = .ok ((contents file).map (·.payload))) ∧
    (files.length < wordLimit → contents.total files < wordLimit →
      (∀ (pattern : String) (minFiles : UInt64), minFiles.toNat < wordLimit →
        ∃ summaries, tables.searchEvents pattern minFiles = .ok summaries ∧
          (summaries.map (·.event)).Pairwise (fun a b => Text.toBytes a < Text.toBytes b) ∧
          (∀ event, event ∈ summaries.map (·.event) ↔
            contents.fragments files event ≠ [] ∧
            minFiles.toNat ≤ (contents.fragments files event).length ∧
              Text.foldAsciiChars pattern.toList <:+: Text.foldAsciiChars event.toList) ∧
          ∀ summary ∈ summaries,
            summary.fileCount.toNat = (contents.fragments files summary.event).length ∧
            summary.subscriptionCount.toNat =
              ((contents.fragments files summary.event).map (·.2.length)).sum ∧
            ∃ found, tables.lookup summary.event = .ok found ∧
              found.length = summary.subscriptionCount.toNat) ∧
      ∃ all count, tables.searchEvents "" 0 = .ok all ∧ tables.subscriptionTotal = .ok count ∧
        count.toNat = (all.map (·.subscriptionCount.toNat)).sum ∧
        count.toNat = (tables.indexedFiles.map (·.subscriptionCount.toNat)).sum ∧
        tables.eventTotal = all.length ∧ tables.fileTotal = tables.indexedFiles.length) := by
  intro tables contents files
  obtain ⟨-, held⟩ := perform_all_refines operations represents_empty fits
  refine ⟨?_, ?_⟩
  · intro file
    rw [Tables.mem_indexed_names, represents_recorded held, represents_file_payload held]
    exact ⟨Iff.rfl, rfl⟩
  · intro few room
    exact ⟨represents_summaries held few room, represents_totals held few room⟩

def overlapping : List Operation :=
  [.put 0 "b.php" "1" (.ofGroups [⟨"D", [⟨"D.s", "D", "s", "T.first"⟩]⟩]),
   .put 0 "a.php" "2" (.ofGroups [⟨"E", [⟨"E.s", "E", "s", "T.second"⟩]⟩]),
   .put 1 "b.php" "3"
     (.ofGroups [⟨"E", [⟨"E.s", "E", "s", "T.third"⟩, ⟨"E.t", "E", "t", "T.fourth"⟩]⟩, ⟨"F", []⟩])]

theorem overlapping_aggregates :
    (∀ operation ∈ overlapping, operation.Fits) ∧
    let tables := (performAll Tables.perform Tables.empty.opened overlapping).2
    (∃ summaries, tables.searchEvents "e" 2 = .ok summaries ∧ "E" ∈ summaries.map (·.event) ∧
      "D" ∉ summaries.map (·.event)) ∧
    ∃ count, tables.subscriptionTotal = .ok count ∧ count.toNat = 3 := by
  have fits : ∀ operation ∈ overlapping, operation.Fits := by decide
  obtain ⟨-, agree⟩ := aggregates_agree overlapping fits
  have sorted : (performAll Tables.perform Tables.empty.opened overlapping).2.indexedFiles =
      [⟨"a.php", "2", 0, 1⟩, ⟨"b.php", "3", 1, 2⟩] := by
    have order : (performAll Tables.perform Tables.empty.opened overlapping).2.files.Pairwise
        fun a b => decide (a.file ≤ b.file) = true := by decide +kernel
    rw [Tables.indexedFiles, List.mergeSort_of_pairwise order]
    decide +kernel
  have files : (performAll Tables.perform Tables.empty.opened overlapping).2.indexedFiles.map
      (·.file) =
      ["a.php", "b.php"] := by rw [sorted]; rfl
  rw [files, sorted] at agree
  obtain ⟨searches, all, count, -, counted, -, total, -⟩ := agree (by decide) (by decide)
  obtain ⟨summaries, answer, -, listed, -⟩ := searches "e" 2 (by decide)
  refine ⟨fits, ⟨summaries, answer, ?_, ?_⟩, count, counted, total⟩
  · exact (listed "E").mpr ⟨by decide, by decide, [], [], rfl⟩
  · intro member
    exact ((listed "D").mp member).1 (by decide)

end Store
end HandlerIndex
