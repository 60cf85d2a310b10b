import HandlerIndex.CommandLine.Report
import HandlerIndex.Proofs.StoreRefinement
import HandlerIndex.Store.Handle
import Mathlib.Data.List.Forall2

/-!
A store whose tables were changed from outside. Whatever their rows and records say, a question
about an event or a file is answered if the rows that it has to read can all be decoded. Otherwise
the first that cannot decides how the call ends: with a decoding error, or, if it announces a text
for which there is no room, with a crash. Storing a file makes its own rows and its record right
again and leaves those of all other files as they are, damaged or not; a store whose lock a crash
has poisoned refuses to. Left out are calls that run at the same time.
-/
namespace HandlerIndex.Store

section Actions
variable {α β ε : Type}

theorem map_m_congr {action other : α → Except ε β} {values : List α}
    (same : ∀ value ∈ values, action value = other value) :
    values.mapM action = values.mapM other := by
  induction values with
  | nil => rfl
  | cons value rest ih =>
    rw [List.mapM_cons, List.mapM_cons, same value List.mem_cons_self,
      ih fun next member => same next (List.mem_cons_of_mem value member)]

theorem bind_ok_fails_iff {γ : Type} (answer : Except ε α) (use : α → γ) (fault : ε) :
    (answer.bind fun value => .ok (use value)) = .error fault ↔ answer = .error fault := by
  cases answer with
  | ok value =>
    constructor
    · intro equal
      cases equal
    · intro equal
      cases equal
  | error inner =>
    constructor
    · intro equal
      cases equal
      rfl
    · intro equal
      cases equal
      rfl

end Actions

namespace Row

def Typed (row : Row) : Prop := ∃ bytes, row.payload = .blob bytes

def subscriptions (row : Row) : Except Fault (List Subscription) :=
  row.payload.bytes.bind decodeBlob

def fault? (row : Row) : Option Blob.Fault :=
  match row.subscriptions with
  | .error (.undecodable fault) => some fault
  | _ => none

def Undecodable (row : Row) : Prop := ∃ fault, row.fault? = some fault

theorem fault_of_subscriptions {row : Row} {found : List Subscription}
    (read : row.subscriptions = .ok found) : row.fault? = none := by
  simp only [fault?, read]

theorem Typed.outcome {row : Row} (typed : row.Typed) :
    (∃ found, row.subscriptions = .ok found ∧ row.fault? = none) ∨
    ∃ fault, row.subscriptions = .error (.undecodable fault) ∧ row.fault? = some fault := by
  obtain ⟨bytes, held⟩ := typed
  have read : row.subscriptions = decodeBlob bytes := by
    rw [subscriptions, held]
    rfl
  unfold fault?
  rw [read, decodeBlob]
  cases Blob.decode bytes with
  | ok found => exact .inl ⟨found, rfl, rfl⟩
  | error fault => exact .inr ⟨fault, rfl, rfl⟩

end Row

/-! Rows that are read together. -/
section Rows
variable {name : Row → String} {rows : List Row}

def firstFault? (rows : List Row) : Option Blob.Fault := rows.findSome? Row.fault?

/-- The first row that cannot be decoded announces a text for which there is no room. -/
def Overasked (room : Nat) (rows : List Row) : Prop :=
  ∃ fault, firstFault? rows = some fault ∧ room < fault.wanted

theorem first_fault_iff :
    (∃ fault, firstFault? rows = some fault) ↔ ∃ row ∈ rows, row.Undecodable := by
  simp only [firstFault?, ← Option.isSome_iff_exists, List.findSome?_isSome_iff, Row.Undecodable]

def ReadAs (name : Row → String) : List Row → List (String × List Subscription) → Prop :=
  List.Forall₂ fun row item => item.1 = name row ∧ row.subscriptions = .ok item.2

/-- What is read under one name comes from the rows of that name. -/
theorem ReadAs.part {found : List (String × List Subscription)} (read : ReadAs name rows found)
    (part : String) :
    ReadAs name (rows.filter (name · == part)) (found.filter (·.1 == part)) := by
  refine List.rel_filter ?_ read
  rintro row item ⟨named, -⟩
  simp only [named]

theorem read_rows_eq (typed : ∀ row ∈ rows, row.Typed) :
    (fetch name rows).bind decodeEach = rows.mapM fun row => row.subscriptions.map fun found =>
      (name row, found) := by
  have fetched : fetch name rows =
      .ok (rows.map fun row => (name row, row.payload.bytes.toOption.getD [])) := by
    apply map_m_ok
    intro row member
    obtain ⟨bytes, held⟩ := typed row member
    rw [held]
    rfl
  rw [fetched]
  change decodeEach _ = _
  rw [decodeEach, List.mapM_map]
  apply map_m_congr
  intro row member
  obtain ⟨bytes, held⟩ := typed row member
  simp only [Function.comp_apply, Row.subscriptions, held]
  rfl

/-- Typed rows are all read, or reading them fails as the first does that cannot be decoded. -/
theorem read_rows_outcome (name : Row → String) (rows : List Row)
    (typed : ∀ row ∈ rows, row.Typed) :
    (∃ found, (fetch name rows).bind decodeEach = .ok found ∧ ReadAs name rows found ∧
      firstFault? rows = none) ∨
    ∃ fault, (fetch name rows).bind decodeEach = .error (.undecodable fault) ∧
      firstFault? rows = some fault := by
  rw [read_rows_eq typed]
  induction rows with
  | nil => exact .inl ⟨[], rfl, .nil, rfl⟩
  | cons row rest ih =>
    rw [List.mapM_cons, firstFault?, List.findSome?_cons]
    rcases (typed row List.mem_cons_self).outcome with ⟨own, read, sound⟩ | ⟨fault, failed, found⟩
    · rw [read, sound]
      rcases ih fun next member => typed next (List.mem_cons_of_mem row member) with
        ⟨found, done, each, none_later⟩ | ⟨fault, failed, first⟩
      · exact .inl ⟨(name row, own) :: found, by rw [done]; rfl, .cons ⟨rfl, read⟩ each, none_later⟩
      · exact .inr ⟨fault, by rw [failed]; rfl, first⟩
    · rw [failed, found]
      exact .inr ⟨fault, rfl, rfl⟩

theorem read_rows_fault_iff (name : Row → String) (rows : List Row)
    (typed : ∀ row ∈ rows, row.Typed) (fault : Blob.Fault) :
    (fetch name rows).bind decodeEach = .error (.undecodable fault) ↔
      firstFault? rows = some fault := by
  rcases read_rows_outcome name rows typed with ⟨found, done, -, sound⟩ | ⟨first, failed, found⟩
  · simp [done, sound]
  · simp [failed, found]

end Rows

namespace Tables
variable {tables : Tables}

def Typed (tables : Tables) : Prop := ∀ row ∈ tables.rows, row.Typed

theorem mem_event_rows {event : String} {row : Row} :
    row ∈ tables.eventRows event ↔ row ∈ tables.rows ∧ row.event = event := by
  simp [eventRows]

theorem mem_file_rows {file : String} {row : Row} :
    row ∈ tables.fileRows file ↔ row ∈ tables.rows ∧ row.file = file := by
  simp [fileRows, rowsOf]

theorem values_for_fault_iff (typed : tables.Typed) (event : String) (fault : Blob.Fault) :
    tables.valuesFor event = .error (.undecodable fault) ↔
      firstFault? (tables.eventRows event) = some fault :=
  read_rows_fault_iff (·.file) (tables.eventRows event)
    (fun row member => typed row (mem_event_rows.mp member).1) fault

theorem lookup_fault_iff (typed : tables.Typed) (event : String) (fault : Blob.Fault) :
    tables.lookup event = .error (.undecodable fault) ↔
      firstFault? (tables.eventRows event) = some fault :=
  (bind_ok_fails_iff (tables.valuesFor event) _ _).trans (values_for_fault_iff typed event fault)

theorem stored_groups_eq (tables : Tables) (file : String) :
    tables.storedGroups file =
      ((fetch (·.event) (tables.fileRows file)).bind decodeEach).bind fun groups =>
      .ok (Payload.ofGroups (groups.map fun (event, subscriptions) => ⟨event, subscriptions⟩)) := by
  unfold storedGroups
  cases fetch (·.event) (tables.fileRows file) with
  | ok blobs => rfl
  | error fault => rfl

theorem file_payload_fault_iff (typed : tables.Typed) (file : String) (fault : Blob.Fault) :
    tables.filePayload file = .error (.undecodable fault) ↔
      tables.isRecorded file = true ∧ firstFault? (tables.fileRows file) = some fault := by
  rw [filePayload, filePayloadBetween, isRecorded]
  cases tables.fileRecord? file with
  | none => simp
  | some record =>
    simp only [Option.isSome_some, true_and]
    refine (bind_ok_fails_iff (tables.storedGroups file) some (.undecodable fault)).trans ?_
    rw [stored_groups_eq]
    exact (bind_ok_fails_iff _ _ _).trans (read_rows_fault_iff (·.event) (tables.fileRows file)
      (fun row member => typed row (mem_file_rows.mp member).1) fault)

theorem file_payload_unrecorded {file : String} (unrecorded : tables.isRecorded file = false) :
    tables.filePayload file = .ok none := by
  rw [isRecorded, Option.isSome_eq_false_iff, Option.isNone_iff_eq_none] at unrecorded
  rw [filePayload, filePayloadBetween, unrecorded]

/-! A file that is stored. -/
section Put
variable (tables) (now : Int64) (file hash : String) (payload : Payload)

theorem put_rows_eq :
    (tables.put now file hash payload).rows = tables.rows.filter (·.file != file) ++
      payloadRows file payload := rfl

theorem put_files_eq :
    (tables.put now file hash payload).files = tables.files.filter (·.file != file) ++
      [⟨file, hash, now, Int64.ofNat payload.subscriptionCount⟩] := rfl

/-- The rows of all other files, in their order. -/
theorem put_other_rows :
    (tables.put now file hash payload).rows.filter (·.file != file) =
      tables.rows.filter (·.file != file) := by
  have own : (payloadRows file payload).filter (·.file != file) = [] := by
    rw [List.filter_eq_nil_iff]
    intro row member
    simp [payload_rows_file file payload member]
  rw [put_rows_eq, List.filter_append, own, List.append_nil, List.filter_filter]
  simp

theorem put_other_records :
    (tables.put now file hash payload).files.filter (·.file != file) =
      tables.files.filter (·.file != file) := by
  rw [put_files_eq, List.filter_append, List.filter_filter]
  simp

@[simp] theorem put_needs_reindex :
    (tables.put now file hash payload).needsReindex file hash = false := by
  simp [needsReindex]

@[simp] theorem put_file_payload (fits : payload.Fits) :
    (tables.put now file hash payload).filePayload file = .ok (some payload) := by
  have record := file_record_put tables now file hash payload file
  have rows := rows_of_put tables now file hash payload file
  rw [if_pos rfl] at record rows
  rw [filePayload, filePayloadBetween, record]
  simp only [stored_groups_of_rows file payload fits rows]
  rfl

/-- The row of an event among those of a payload, if it has the event. -/
theorem payload_rows_of_event (event : String) :
    (payloadRows file payload).filter (·.event == event) =
      ((payload.get? event).map fun found => eventRow event (file, found)).toList := by
  obtain ⟨groups, ordered⟩ := payload
  change (groups.map _).filter _ = ((groupOf? groups event).map _).toList
  induction groups with
  | nil => rfl
  | cons group rest ih =>
    obtain ⟨first, tail⟩ := List.pairwise_cons.mp ordered
    rw [List.map_cons, group_of_cons]
    by_cases same : group.event = event
    · have none_later : groupOf? rest event = none := group_of_later rest event fun other member =>
        same ▸ first other member
      have later := ih tail
      rw [none_later] at later
      rw [if_pos same, List.filter_cons_of_pos (by simpa using same), later]
      simp [eventRow, same]
    · rw [if_neg same, List.filter_cons_of_neg (by simpa using same)]
      exact ih tail

theorem put_event_rows (event : String) :
    ((tables.put now file hash payload).eventRows event).filter (·.file == file) =
      ((payload.get? event).map fun found => eventRow event (file, found)).toList := by
  have sorted : ((tables.put now file hash payload).eventRows event).Perm
      ((tables.put now file hash payload).rows.filter (·.event == event)) := List.mergeSort_perm _ _
  have own := rows_of_put tables now file hash payload file
  rw [if_pos rfl] at own
  have part := sorted.filter (·.file == file)
  rw [List.filter_comm] at part
  change (List.filter _ _).Perm (((tables.put now file hash payload).rowsOf file).filter _) at part
  rw [own, payload_rows_of_event] at part
  cases found : payload.get? event with
  | none =>
    rw [found] at part
    exact part.eq_nil
  | some subscriptions =>
    rw [found] at part
    exact List.perm_singleton.mp part

variable {tables} {payload}

theorem put_typed (typed : tables.Typed) : (tables.put now file hash payload).Typed := by
  intro row member
  rw [put_rows_eq, List.mem_append] at member
  rcases member with kept | added
  · exact typed row (List.mem_of_mem_filter kept)
  · obtain ⟨group, -, rfl⟩ := List.mem_map.mp added
    exact ⟨_, rfl⟩

theorem event_row_subscriptions (fits : payload.Fits) {event : String} {found : List Subscription}
    (held : payload.get? event = some found) :
    (eventRow event (file, found)).subscriptions = .ok found :=
  fits.decode ((payload.get_eq_some_iff event found).mp held)

/-- Of the rows of an event only those of other files can still fail. -/
theorem put_undecodable_iff (fits : payload.Fits) (event : String) :
    (∃ row ∈ (tables.put now file hash payload).eventRows event, row.Undecodable) ↔
      ∃ row ∈ tables.rows, row.file ≠ file ∧ row.event = event ∧ row.Undecodable := by
  simp only [mem_event_rows, put_rows_eq, List.mem_append, List.mem_filter]
  constructor
  · rintro ⟨row, ⟨kept | added, same⟩, undecodable⟩
    · exact ⟨row, kept.1, by simpa using kept.2, same, undecodable⟩
    · obtain ⟨found, held, made⟩ := (mem_payload_rows file payload row).mp added
      obtain ⟨fault, failed⟩ := undecodable
      rw [made, Row.fault_of_subscriptions (event_row_subscriptions file fits held)] at failed
      cases failed
  · rintro ⟨row, member, other, same, undecodable⟩
    exact ⟨row, ⟨.inl ⟨member, by simpa using other⟩, same⟩, undecodable⟩

/-- What an answer has of the file is the group of the event. -/
theorem put_fragment (typed : tables.Typed) (fits : payload.Fits) {event : String}
    {found : List (String × List Subscription)}
    (answered : (tables.put now file hash payload).valuesFor event = .ok found) :
    found.filter (·.1 == file) = ((payload.get? event).map fun group => (file, group)).toList := by
  have rows : ∀ row ∈ (tables.put now file hash payload).eventRows event, row.Typed :=
    fun row member =>
    put_typed now file hash typed row (mem_event_rows.mp member).1
  change (fetch (·.file) _).bind decodeEach = .ok found at answered
  rcases read_rows_outcome (·.file) _ rows with ⟨others, done, read, -⟩ | ⟨fault, failed, -⟩
  · rw [answered] at done
    cases done
    have part := read.part file
    rw [put_event_rows] at part
    cases held : payload.get? event with
    | none =>
      rw [held] at part
      exact List.forall₂_nil_left_iff.mp part
    | some group =>
      rw [held] at part
      obtain ⟨item, rest, ⟨named, decoded⟩, none, shape⟩ := List.forall₂_cons_left_iff.mp part
      rw [event_row_subscriptions file fits held] at decoded
      rw [shape, List.forall₂_nil_left_iff.mp none, ← Prod.eta item, named, ← Except.ok.inj decoded]
      rfl
  · rw [answered] at failed
    cases failed

end Put
end Tables

/-! How a call ends. -/
section Replies
variable {α : Type}

def Reply.FailsToDecode (reply : Reply α) : Prop :=
  ∃ fault, reply = .answer (.error (.undecodable fault))

def Reply.Crashes (reply : Reply α) : Prop := reply = .panicked ∨ reply = .aborted

theorem Reply.answer_not_crashes (result : Except Fault α) : ¬(Reply.answer result).Crashes := by
  simp [Crashes]

-- The rows decide in their order: what stands behind the first undecodable one is not looked at.
structure ReadsRows (room : Nat) (rows : List Row) (reply : Reply α) : Prop where
  fails : reply.FailsToDecode ↔ (∃ row ∈ rows, row.Undecodable) ∧ ¬Overasked room rows
  crashes : reply.Crashes ↔ Overasked room rows

namespace Handle

@[simp] theorem reply_ok (handle : Handle) (value : α) :
    handle.reply (.ok value) = .answer (.ok value) := rfl

theorem reply_within {handle : Handle} {fault : Fault} (within : fault.wanted ≤ handle.room) :
    handle.reply (.error fault : Except Fault α) = .answer (.error fault) := by
  have bounded := handle.bounded
  unfold reply
  dsimp only
  rw [if_neg (by omega), if_neg (by omega)]

theorem reply_beyond {handle : Handle} {fault : Fault} (beyond : handle.room < fault.wanted) :
    (handle.reply (.error fault : Except Fault α)).Crashes := by
  unfold reply
  dsimp only
  by_cases huge : capacity < fault.wanted
  · rw [if_pos huge]
    exact .inl rfl
  · rw [if_neg huge, if_pos beyond]
    exact .inr rfl

theorem reply_answered {handle : Handle} {result : Except Fault α} {value : α}
    (answered : handle.reply result = .answer (.ok value)) : result = .ok value := by
  cases result with
  | ok other =>
    cases answered
    rfl
  | error fault =>
    by_cases within : fault.wanted ≤ handle.room
    · rw [reply_within within] at answered
      cases answered
    · have crashed := reply_beyond (α := α) (Nat.lt_of_not_le within)
      rw [answered] at crashed
      exact absurd crashed (Reply.answer_not_crashes _)

theorem reply_fails_iff (handle : Handle) (result : Except Fault α) :
    (handle.reply result).FailsToDecode ↔
      ∃ fault, result = .error (.undecodable fault) ∧ fault.wanted ≤ handle.room := by
  cases result with
  | ok value => simp [Reply.FailsToDecode]
  | error fault =>
    by_cases within : fault.wanted ≤ handle.room
    · rw [reply_within within]
      constructor
      · rintro ⟨inner, equal⟩
        cases equal
        exact ⟨inner, rfl, within⟩
      · rintro ⟨inner, equal, -⟩
        cases equal
        exact ⟨inner, rfl⟩
    · have crashed := reply_beyond (α := α) (Nat.lt_of_not_le within)
      constructor
      · rintro ⟨inner, equal⟩
        rw [equal] at crashed
        exact absurd crashed (Reply.answer_not_crashes _)
      · rintro ⟨inner, equal, fitting⟩
        cases equal
        exact absurd fitting within

theorem reply_crashes_iff (handle : Handle) (result : Except Fault α) :
    (handle.reply result).Crashes ↔
      ∃ fault, result = .error (.undecodable fault) ∧ handle.room < fault.wanted := by
  cases result with
  | ok value => simp [Reply.Crashes]
  | error fault =>
    constructor
    · intro crashed
      have beyond : handle.room < fault.wanted := by
        by_contra within
        rw [reply_within (Nat.le_of_not_lt within)] at crashed
        exact Reply.answer_not_crashes _ crashed
      -- No other fault wants any room.
      cases fault with
      | undecodable inner => exact ⟨inner, rfl, beyond⟩
      | unreachable => exact absurd beyond (Nat.not_lt_zero _)
      | notADatabase => exact absurd beyond (Nat.not_lt_zero _)
      | sumTooLarge => exact absurd beyond (Nat.not_lt_zero _)
      | notABlob => exact absurd beyond (Nat.not_lt_zero _)
      | poisoned => exact absurd beyond (Nat.not_lt_zero _)
    · rintro ⟨inner, equal, beyond⟩
      cases equal
      exact reply_beyond beyond

theorem ask_sound {handle : Handle} (sound : handle.poisoned = false)
    (question : Tables → Except Fault α) :
    (handle.ask question).1 = handle.reply (question handle.tables) := by
  simp [ask, sound]

@[simp] theorem ask_tables (handle : Handle) (question : Tables → Except Fault α) :
    (handle.ask question).2.tables = handle.tables := by
  unfold ask
  by_cases poisoned : handle.poisoned = true
  · rw [if_pos poisoned]
  · rw [if_neg poisoned]

theorem panic_poisons {handle : Handle} {question : Tables → Except Fault α}
    (panicked : (handle.ask question).1 = .panicked) : (handle.ask question).2.poisoned = true := by
  unfold ask at panicked ⊢
  by_cases poisoned : handle.poisoned = true
  · rw [if_pos poisoned] at panicked
    cases panicked
  · rw [if_neg poisoned] at panicked ⊢
    exact congrArg Reply.isPanic panicked

theorem ask_poisoned {handle : Handle} (poisoned : handle.poisoned = true)
    (question : Tables → Except Fault α) :
    handle.ask question = (.answer (.error .poisoned), handle) := by
  simp [ask, poisoned]

theorem perform_poisoned {handle : Handle} (poisoned : handle.poisoned = true)
    {operation : Operation} (kept : operation ≠ .reopen) :
    handle.perform operation = (.answer (.error .poisoned), handle) := by
  simp [perform, poisoned, kept]

theorem perform_sound {handle : Handle} (sound : handle.poisoned = false) (operation : Operation) :
    handle.perform operation = (.answer (.ok (handle.tables.perform operation).1),
      { handle with tables := (handle.tables.perform operation).2, poisoned := false }) := by
  simp [perform, sound]

/-- A question whose faults are those of some rows ends as these rows say. -/
theorem reads_rows {handle : Handle} (sound : handle.poisoned = false)
    {question : Tables → Except Fault α} {rows : List Row}
    (faults : ∀ fault, question handle.tables = .error (.undecodable fault) ↔
      firstFault? rows = some fault) :
    ReadsRows handle.room rows (handle.ask question).1 := by
  rw [ask_sound sound]
  constructor
  · rw [reply_fails_iff, ← first_fault_iff]
    simp only [faults]
    constructor
    · rintro ⟨fault, first, within⟩
      refine ⟨⟨fault, first⟩, ?_⟩
      rintro ⟨other, same, beyond⟩
      rw [first, Option.some.injEq] at same
      exact absurd (same ▸ beyond) (Nat.not_lt_of_le within)
    · rintro ⟨⟨fault, first⟩, within⟩
      exact ⟨fault, first, Nat.le_of_not_lt fun beyond => within ⟨fault, first, beyond⟩⟩
  · rw [reply_crashes_iff]
    simp only [faults]
    rfl

end Handle
end Replies

/-- The commands that only ask leave the tables alone. -/
theorem questions_change_nothing {tables after : Tables} (disk : Disk) (now : Int64)
    (index : Workspace.Index) (database : String) {command : CommandLine.Command}
    {report : CommandLine.Report} (asks : command ∉ [.index, .watch, .clear])
    (done : CommandLine.execute disk now index database tables command = .ok (report, after)) :
    after = tables := by
  cases command with
  | index => exact absurd List.mem_cons_self asks
  | watch => exact absurd (by simp) asks
  | clear => exact absurd (by simp) asks
  | status =>
    cases done
    rfl
  | lookup event json =>
    unfold CommandLine.execute at done
    dsimp only at done
    generalize tables.lookup event = answer at done
    cases answer with
    | ok hits =>
      cases done
      rfl
    | error fault => cases done
  | events pattern limit minFiles =>
    unfold CommandLine.execute at done
    dsimp only at done
    generalize tables.search _ = answer at done
    cases answer with
    | ok found =>
      cases done
      rfl
    | error fault => cases done

/-- A store of whose tables nothing is known but the types of their columns. Asking changes nothing
in them. A question fails to decode exactly if a row that it reads is undecodable and the first such
row leaves room for the texts it announces; if it does not, the call crashes, and after a panic
every call but opening the store anew is refused. On a store that is not poisoned, a file that is
stored has the payload and the hash that were stored, all rows and records of other files are as
before, in the same order, and an answer about an event has the group of the payload and nothing
else of the file. -/
theorem storing_repairs_one_file (handle : Handle) (sound : handle.poisoned = false)
    (typed : handle.tables.Typed) :
    (∀ event, let rows := handle.tables.eventRows event
      (∀ row, row ∈ rows ↔ row ∈ handle.tables.rows ∧ row.event = event) ∧
      ReadsRows handle.room rows (handle.ask (·.valuesFor event)).1 ∧
      ReadsRows handle.room rows (handle.ask (·.lookup event)).1) ∧
    (∀ file, let rows := handle.tables.fileRows file
      (∀ row, row ∈ rows ↔ row ∈ handle.tables.rows ∧ row.file = file) ∧
      (handle.tables.isRecorded file = true →
        ReadsRows handle.room rows (handle.ask (·.filePayload file)).1) ∧
      (handle.tables.isRecorded file = false →
        (handle.ask (·.filePayload file)).1 = .answer (.ok none))) ∧
    (∀ (α : Type) (question : Tables → Except Fault α),
      let after := (handle.ask question).2
      after.tables = handle.tables ∧
      ((handle.ask question).1 = .panicked →
        (∀ (β : Type) (other : Tables → Except Fault β),
          after.ask other = (.answer (.error .poisoned), after)) ∧
        ∀ operation ≠ .reopen, after.perform operation = (.answer (.error .poisoned), after))) ∧
    (∀ disk now index database command report after, command ∉ [.index, .watch, .clear] →
      CommandLine.execute disk now index database handle.tables command = .ok (report, after) →
      after = handle.tables) ∧
    ∀ now file hash payload, payload.Fits →
      let stored := handle.perform (.put now file hash payload)
      let after := stored.2
      stored.1 = .answer (.ok (.stored payload.subscriptionCount)) ∧
      (after.ask (·.filePayload file)).1 = .answer (.ok (some payload)) ∧
      (after.ask fun tables => .ok (tables.needsReindex file hash)).1 = .answer (.ok false) ∧
      after.tables.versions = handle.tables.versions ∧
      after.tables.rows.filter (·.file != file) = handle.tables.rows.filter (·.file != file) ∧
      after.tables.files.filter (·.file != file) = handle.tables.files.filter (·.file != file) ∧
      ∀ event,
        (∀ found, (after.ask (·.valuesFor event)).1 = .answer (.ok found) →
          found.filter (·.1 == file) =
            ((payload.get? event).map fun group => (file, group)).toList) ∧
        ReadsRows handle.room (after.tables.eventRows event) (after.ask (·.valuesFor event)).1 ∧
        ((∃ row ∈ after.tables.eventRows event, row.Undecodable) ↔
          ∃ row ∈ handle.tables.rows, row.file ≠ file ∧ row.event = event ∧ row.Undecodable) := by
  refine ⟨fun event => ⟨fun row => Tables.mem_event_rows, ?_, ?_⟩,
    fun file => ⟨fun row => Tables.mem_file_rows, ?_, ?_⟩, ?_, ?_, ?_⟩
  · exact Handle.reads_rows sound (Tables.values_for_fault_iff typed event)
  · exact Handle.reads_rows sound (Tables.lookup_fault_iff typed event)
  · intro recorded
    refine Handle.reads_rows sound fun fault =>
      (Tables.file_payload_fault_iff typed file fault).trans ?_
    exact and_iff_right recorded
  · intro unrecorded
    rw [Handle.ask_sound sound, Tables.file_payload_unrecorded unrecorded, Handle.reply_ok]
  · intro α question after
    refine ⟨Handle.ask_tables handle question, fun panicked => ?_⟩
    have poisoned : after.poisoned = true := Handle.panic_poisons panicked
    exact ⟨fun β other => Handle.ask_poisoned poisoned other,
      fun operation kept => Handle.perform_poisoned poisoned kept⟩
  · intro disk now index database command report after asks done
    exact questions_change_nothing disk now index database asks done
  · intro now file hash payload fits
    rw [Handle.perform_sound sound]
    intro stored after
    have tables : after.tables = handle.tables.put now file hash payload := rfl
    have still : after.poisoned = false := rfl
    have typed_after : after.tables.Typed := Tables.put_typed now file hash typed
    refine ⟨rfl, ?_, ?_, rfl, ?_, ?_, ?_⟩
    · simp [Handle.ask_sound still, tables, fits]
    · simp [Handle.ask_sound still, tables]
    · rw [tables, Tables.put_other_rows]
    · rw [tables, Tables.put_other_records]
    · intro event
      refine ⟨?_, Handle.reads_rows still (Tables.values_for_fault_iff typed_after event), ?_⟩
      · intro found answered
        rw [Handle.ask_sound still, tables] at answered
        exact Tables.put_fragment now file hash typed fits (Handle.reply_answered answered)
      · rw [tables]
        exact Tables.put_undecodable_iff now file hash fits event

def damagedTables : Tables :=
  ⟨[],
    [⟨"a.php", "E", 7, .blob [0xff]⟩, ⟨"b.php", "E", 1, .blob [1]⟩, ⟨"c.php", "D", -1, .blob []⟩],
    [⟨"a.php", "1", 0, 9⟩]⟩

def damagedStore : Handle := ⟨damagedTables, 1000, false, by decide, by decide⟩

-- The file is repaired, but the event still has the row of another file.
theorem damaged_file_repaired :
    damagedStore.poisoned = false ∧ damagedStore.tables.Typed ∧
    onePayload.Fits ∧
    let repaired := (damagedStore.perform (.put 1 "a.php" "2" onePayload)).2
    (repaired.ask (·.filePayload "a.php")).1 =
      .answer (.ok (some onePayload)) ∧
    repaired.tables.rows.filter (·.file != "a.php") = damagedTables.rows.drop 1 ∧
    ∃ row ∈ repaired.tables.eventRows "E", row.Undecodable := by
  have typed : damagedStore.tables.Typed := by
    intro row member
    simp only [damagedStore, damagedTables, List.mem_cons, List.not_mem_nil, or_false] at member
    rcases member with rfl | rfl | rfl <;> exact ⟨_, rfl⟩
  have fits : onePayload.Fits := by decide +kernel
  obtain ⟨-, -, -, -, stored⟩ := storing_repairs_one_file damagedStore rfl typed
  obtain ⟨-, payload, -, -, others, -, events⟩ := stored 1 "a.php" "2" _ fits
  refine ⟨rfl, typed, fits, payload, others.trans (by decide +kernel), ?_⟩
  exact (events "E").2.2.mpr ⟨_, List.mem_cons_of_mem _ List.mem_cons_self, by decide +kernel,
    rfl, _, rfl⟩

def overlongTables : Tables :=
  ⟨[], [⟨"a.php", "E", 1, .blob [1, 0xfd, 0xff, 0xff, 0xff, 0xff, 0xff, 0xff, 0xff, 0xff]⟩,
      ⟨"a.php", "F", 1, .blob [1, 0xfd, 0, 0, 0, 0, 0, 0, 0, 1]⟩],
    [⟨"a.php", "1", 0, 2⟩]⟩

def overlongStore : Handle := ⟨overlongTables, 0x7fffffffffff, false, by decide, by decide⟩

-- Neither call is a decoding error, although the row is undecodable, and the file cannot be stored
-- any more.
theorem overlong_text_poisons :
    (∃ row ∈ overlongStore.tables.rows, row.event = "E" ∧ row.Undecodable) ∧
    (overlongStore.ask (·.valuesFor "E")).1 = .panicked ∧
    (overlongStore.ask (·.valuesFor "F")).1 = .aborted ∧
    ((overlongStore.ask (·.valuesFor "E")).2.perform (.put 1 "a.php" "2" .empty)).1 =
      .answer (.error .poisoned) := by
  have typed : overlongStore.tables.Typed := by
    intro row member
    simp only [overlongStore, overlongTables, List.mem_cons, List.not_mem_nil, or_false] at member
    rcases member with rfl | rfl <;> exact ⟨_, rfl⟩
  have longest : overlongStore.tables.valuesFor "E" =
      .error (.undecodable (.endsEarly 0xffffffffffffffff 0xffffffffffffffff)) :=
    (Tables.values_for_fault_iff typed "E" _).mpr (by decide +kernel)
  have long : overlongStore.tables.valuesFor "F" =
      .error (.undecodable (.endsEarly 0x100000000000000 0x100000000000000)) :=
    (Tables.values_for_fault_iff typed "F" _).mpr (by decide +kernel)
  have panicked : (overlongStore.ask (·.valuesFor "E")).1 = .panicked := by
    rw [Handle.ask_sound rfl, longest]
    rfl
  refine ⟨⟨_, List.mem_cons_self, rfl, _, rfl⟩, panicked, ?_, ?_⟩
  · rw [Handle.ask_sound rfl, long]
    rfl
  · rw [Handle.perform_poisoned (Handle.panic_poisons panicked) (by decide)]

end HandlerIndex.Store
