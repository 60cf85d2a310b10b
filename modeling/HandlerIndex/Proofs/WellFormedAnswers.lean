import HandlerIndex.Proofs.ExtractionMeaning
import HandlerIndex.Proofs.KeyGrammar
import HandlerIndex.Proofs.ServiceRuns

/-!
Every answer of the event store is well formed. A subscription is made from an entry whose key
follows the grammar and whose value names a handler, it is grouped by its event, and it comes back
from the tables as it went in. So whoever asks for the subscriptions to an event can rely on their
form, whatever was indexed and in which order. Left out are rows that were written by anyone else.
-/
namespace HandlerIndex

/-- The form of a subscription to an event, under a convention for keys. -/
structure Subscription.WellFormed (convention : Convention) (event : String) (s : Subscription) :
    Prop where
  filed : s.targetEvent = event
  some_key : s.rawKey ≠ ""
  some_event : s.targetEvent ≠ ""
  some_service : s.serviceName ≠ ""
  some_signature : s.signature ≠ ""
  parsed : convention.parse s.rawKey = some ⟨s.targetEvent, s.serviceName⟩
  begins : s.targetEvent.toList <+: s.rawKey.toList
  marked : ∃ marker ∈ convention.markers, marker ≠ "" ∧ marker.toList <+: s.targetEvent.toList
  service_trimmed : Text.Trimmed s.serviceName.toList
  signed : ∃ typeName handler : String, s.signature = typeName ++ "." ++ handler ∧ typeName ≠ "" ∧
    handler ≠ "" ∧
    '\\' ∉ typeName.toList ∧ Text.Trimmed handler.toList

/-- No group is empty, and what stands in a group is a subscription to its event. -/
def Payload.WellFormed (convention : Convention) (payload : Payload) : Prop :=
  ∀ group ∈ payload.groups, group.subscriptions ≠ [] ∧
    ∀ s ∈ group.subscriptions, s.WellFormed convention group.event

/-! What extraction makes. -/
section Extracted

theorem parsed_key_shape {convention : Convention} {raw : String} {key : EventKey}
    (parsed : convention.parse raw = some key) :
    key.targetEvent.toList <+: raw.toList ∧
      (∃ marker ∈ convention.markers, marker ≠ "" ∧ marker.toList <+: key.targetEvent.toList) ∧
      key.serviceName ≠ "" ∧ Text.Trimmed key.serviceName.toList := by
  obtain ⟨marker, rest, whole, longest, meaning⟩ := (convention.parse_iff raw key).mp parsed
  obtain ⟨listed, fits, -⟩ := longest
  obtain ⟨marker, member, rfl⟩ := List.mem_map.mp listed
  have some_marker : marker ≠ "" := fun empty => fits.1 (by rw [empty]; rfl)
  rw [whole]
  cases meaning with
  | undivided _ named =>
    simp only [String.toList_ofList]
    exact ⟨List.prefix_rfl, ⟨marker, member, some_marker, List.prefix_append _ _⟩, by
      simpa using named, Text.trim_chars_trimmed rest⟩
  | divided space service parts _ _ named =>
    simp only [String.toList_ofList]
    refine ⟨?_, ⟨marker, member, some_marker, List.prefix_append _ _⟩, by simpa using named,
      Text.trim_chars_trimmed service⟩
    rw [parts, ← List.append_assoc]
    exact List.prefix_append _ _

theorem signature_shape {typeName handler : String} (typed : stripBackslashes typeName.toList ≠ [])
    (named : Text.trim handler ≠ "") :
    ∃ dotted name : String, signatureText typeName (Text.trim handler) = dotted ++ "." ++ name ∧
    dotted ≠ "" ∧
      name ≠ "" ∧ '\\' ∉ dotted.toList ∧ Text.Trimmed name.toList := by
  refine ⟨String.ofList ((stripBackslashes typeName.toList).map fun c => if c = '\\' then '.'
    else c), Text.trim handler, ?_, ?_, named, ?_, ?_⟩
  · apply String.toList_injective
    simp [signatureText]
  · simpa using typed
  · rw [String.toList_ofList, List.mem_map]
    rintro ⟨c, -, made⟩
    by_cases slash : c = '\\'
    · rw [if_pos slash] at made
      cases made
    · rw [if_neg slash] at made
      exact slash made
  · rw [Text.trim, String.toList_ofList]
    exact Text.trim_chars_trimmed _

theorem denoted_well_formed {rules : ExtractionRules} {owner : Option String} {entry : SyntaxNode}
    {s : Subscription} (denotes : Denotes rules owner entry s) :
    s.WellFormed rules.convention s.targetEvent := by
  cases denotes with
  | subscription key value rawKey handler typeName event keyed keyKind keyText parsed valued
    valueKind valueText
      named owned typed =>
    obtain ⟨begins, marked, some_service, trimmed⟩ := parsed_key_shape parsed
    obtain ⟨dotted, name, signature, some_type, some_name, no_backslash, name_trimmed⟩ :=
      signature_shape typed named
    have some_event : event.targetEvent ≠ "" := by
      obtain ⟨marker, -, some_marker, marker_begins⟩ := marked
      intro empty
      rw [empty] at marker_begins
      exact some_marker (String.toList_eq_nil_iff.mp (List.prefix_nil.mp marker_begins))
    exact {
      filed := rfl
      some_key := by
        rintro rfl
        exact some_event (String.toList_eq_nil_iff.mp (List.prefix_nil.mp begins))
      some_event := some_event
      some_service := some_service
      some_signature := by
        rw [signature]
        intro empty
        simp [some_type] at empty
      parsed := parsed
      begins := begins
      marked := marked
      service_trimmed := trimmed
      signed := ⟨dotted, name, signature, some_type, some_name, no_backslash, name_trimmed⟩ }

theorem map_tree_well_formed (rules : ExtractionRules) (root : SyntaxNode) :
    (mapTree rules root).WellFormed rules.convention := by
  intro group member
  obtain ⟨event, subscriptions⟩ := group
  have found := ((mapTree rules root).get_eq_some_iff event subscriptions).mpr member
  rw [mapTree, Payload.aggregate_get, extracted_eq_sites, non_empty_eq_some_iff] at found
  obtain ⟨rfl, some_subscription⟩ := found
  refine ⟨some_subscription, ?_⟩
  intro s among
  obtain ⟨kept, filed⟩ := List.mem_filter.mp among
  obtain ⟨site, -, made⟩ := List.mem_filterMap.mp kept
  have formed := denoted_well_formed ((entry_subscription_iff _ _ _ s).mp made)
  rw [beq_iff_eq.mp filed] at formed
  exact formed

end Extracted

namespace Workspace
open Store (Tables Contents Represents)

theorem source_payload_well_formed (source : Source) :
    source.payload.WellFormed source.rules.convention := by
  unfold Source.payload runExtraction
  split
  · exact map_tree_well_formed source.rules _
  · nofun

/-! What the tables hold after any calls. Whether the fingerprints tell sources apart plays no
part. -/
section Runs
variable {property : Payload → Prop} {fingerprint : Source → String} {tables : Tables}

def Holds (property : Payload → Prop) (tables : Tables) : Prop :=
  ∃ contents : Contents, Represents tables contents ∧
    ∀ file holding, contents file = some holding → property holding.payload

def Source.Admits (property : Payload → Prop) (source : Source) : Prop :=
  source.payload.Fits ∧ property source.payload

theorem holds_empty : Holds property Tables.empty.opened :=
  ⟨fun _ => none, Store.represents_empty, nofun⟩

theorem holds_put (holds : Holds property tables) (now : Int64) (file hash : String)
    {payload : Payload} (fits : payload.Fits) (proper : property payload) :
    Holds property (tables.put now file hash payload) := by
  obtain ⟨contents, held, all⟩ := holds
  refine ⟨_, Store.represents_put held now file hash payload fits, ?_⟩
  intro other holding found
  rw [Function.update_apply] at found
  split at found
  · cases found
    exact proper
  · exact all other holding found

theorem holds_remove (holds : Holds property tables) (file : String) :
    Holds property (tables.remove file) := by
  obtain ⟨contents, held, all⟩ := holds
  refine ⟨_, Store.represents_remove held file, ?_⟩
  intro other holding found
  rw [Function.update_apply] at found
  split at found
  · cases found
  · exact all other holding found

theorem holds_remove_all (files : List String) (holds : Holds property tables) :
    Holds property (files.foldl Tables.remove tables) := by
  induction files generalizing tables with
  | nil => exact holds
  | cons file rest ih => exact ih (holds_remove holds file)

theorem holds_invalidate (holds : Holds property tables) : Holds property tables.invalidateAll := by
  obtain ⟨contents, held, -⟩ := holds
  exact ⟨_, Store.represents_invalidate held, nofun⟩

variable (index : Index)

theorem index_source_holds (holds : Holds property tables) (now : Int64) (file : String)
    {source : Source} (admits : source.Admits property) :
    Holds property (tablesAfter tables (index.indexSource now tables file source)) := by
  unfold Index.indexSource
  cases index.cached? tables file source with
  | error fault => exact holds
  | ok cached =>
    cases cached with
    | some payload => exact holds
    | none => exact holds_put holds now file _ admits.1 admits.2

theorem index_read_holds (holds : Holds property tables) (disk : Disk) (now : Int64) (file : String)
    (draws : index.Draws disk [file] {source | source.Admits property}) :
    Holds property (tablesAfter tables (index.indexRead disk now tables file)) := by
  cases read : index.read? disk file with
  | none =>
    obtain ⟨fault, failed⟩ : ∃ fault, index.indexRead disk now tables file = .error fault :=
      index_read_error index disk now file read
    rw [failed]
    exact holds
  | some source =>
    rw [index_read_eq index disk now file source read]
    exact index_source_holds index holds now file (draws file List.mem_cons_self source read)

theorem index_files_holds (disk : Disk) (now : Int64) (files : List String) (state : Stats × Tables)
    (holds : Holds property state.2)
    (draws : index.Draws disk files {source | source.Admits property}) :
    Holds property (files.foldl (index.indexNext disk now) state).2 := by
  induction files generalizing state with
  | nil => exact holds
  | cons file rest ih =>
    obtain ⟨here, later⟩ := (draws_cons index disk file rest).mp draws
    have next := index_read_holds index holds disk now file here
    rw [← index_next_after index disk now state.1 file] at next
    exact ih _ next later

/-- A call leaves the property with everything that the tables hold, if what it indexes has it. -/
theorem call_holds (holds : Holds property tables) (call : Call)
    (admits : ∀ entry ∈ call.indexed fingerprint, entry.2.Admits property) :
    Holds property (call.run fingerprint tables) := by
  unfold Call.indexed at admits
  unfold Call.run
  cases request : call.request with
  | indexContent file content =>
    simp only [request, Index.indexContent] at admits ⊢
    by_cases supported : isSupported file = true
    · rw [if_pos supported] at admits ⊢
      exact index_source_holds _ holds call.now file (admits _ List.mem_cons_self)
    · rw [if_neg supported]
      exact holds
  | indexFile file =>
    simp only [request, Index.indexFile] at admits ⊢
    by_cases supported : isSupported file = true
    · rw [if_pos supported] at admits ⊢
      exact index_read_holds _ holds call.disk call.now file
        ((draws_iff _ call.disk [file]).mpr admits)
    · rw [if_neg supported]
      exact holds
  | remove file => exact holds_remove holds file
  | indexWorkspace =>
    simp only [request] at admits ⊢
    exact index_files_holds _ call.disk call.now _ _ (holds_remove_all _ holds)
      ((draws_iff _ call.disk _).mpr admits)
  | invalidate => exact holds_invalidate holds

theorem calls_hold (calls : List Call) (holds : Holds property tables)
    (admits : ∀ entry ∈ history fingerprint calls, entry.2.Admits property) :
    Holds property (calls.foldl (Call.run fingerprint) tables) := by
  induction calls generalizing tables with
  | nil => exact holds
  | cons call rest ih =>
    simp only [history, List.flatMap_cons, List.mem_append] at admits ih
    have next := call_holds holds call fun entry member => admits entry (.inl member)
    exact ih next fun entry member => admits entry (.inr member)

theorem run_calls_hold (calls : List Call)
    (admits : ∀ entry ∈ history fingerprint calls, entry.2.Admits property) :
    Holds property (runCalls fingerprint calls) :=
  calls_hold calls holds_empty admits

end Runs

theorem indexed_rules {fingerprint : Source → String} {call : Call} {entry : String × Source}
    (member : entry ∈ call.indexed fingerprint) : entry.2.rules = call.settings.rules := by
  have read_rules : ∀ files, entry ∈ (call.index fingerprint).readAll call.disk files →
      entry.2.rules = call.settings.rules := by
    intro files among
    obtain ⟨file, -, made⟩ := List.mem_filterMap.mp among
    obtain ⟨source, read, rfl⟩ := Option.map_eq_some_iff.mp made
    unfold Index.read? at read
    split at read
    · cases read
      rfl
    · cases read
  unfold Call.indexed at member
  cases request : call.request with
  | indexContent file content =>
    simp only [request] at member
    split at member
    · rw [List.mem_singleton.mp member]
      rfl
    · cases member
  | indexFile file =>
    simp only [request] at member
    split at member
    · exact read_rules _ member
    · cases member
  | remove file => simp [request] at member
  | indexWorkspace =>
    simp only [request] at member
    exact read_rules _ member
  | invalidate => simp [request] at member

/-- Whatever was indexed under some settings, each answer to a question for an event has the form
that the settings give it, and no group is stored without members. -/
theorem answers_well_formed (fingerprint : Source → String) (settings : Settings)
    (calls : List Call) (own : ∀ call ∈ calls, call.settings = settings)
    (fits : ∀ entry ∈ history fingerprint calls, entry.2.payload.Fits) :
    let tables := runCalls fingerprint calls
    (∀ event, ∃ found, tables.lookup event = .ok found ∧
      ∀ answer ∈ found, answer.2.WellFormed settings.rules.convention event) ∧
    (∀ event, ∃ fragments, tables.valuesFor event = .ok fragments ∧
      ∀ fragment ∈ fragments, fragment.2 ≠ []) ∧
    ∀ file, ∃ stored, tables.filePayload file = .ok stored ∧
      ∀ payload ∈ stored, ∀ group ∈ payload.groups, group.subscriptions ≠ [] := by
  intro tables
  have admits : ∀ entry ∈ history fingerprint calls,
      entry.2.Admits (Payload.WellFormed settings.rules.convention) := by
    intro entry member
    obtain ⟨call, among, inside⟩ := List.mem_flatMap.mp member
    refine ⟨fits entry member, ?_⟩
    rw [← own call among, ← indexed_rules inside]
    exact source_payload_well_formed entry.2
  obtain ⟨contents, held, all⟩ := run_calls_hold calls admits
  have grouped : ∀ event, ∀ fragment ∈ contents.fragments (tables.indexedFiles.map (·.file)) event,
      fragment.2 ≠ [] ∧ ∀ s ∈ fragment.2, s.WellFormed settings.rules.convention event := by
    intro event fragment member
    obtain ⟨-, holding, present, got⟩ := (Store.mem_fragments _ _ _).mp member
    exact all _ holding present _ ((holding.payload.get_eq_some_iff event fragment.2).mp got)
  refine ⟨fun event => ⟨_, Store.represents_lookup held event, ?_⟩,
    fun event =>
      ⟨_, Store.represents_values_for held event, fun fragment member =>
        (grouped event fragment member).1⟩, fun file =>
          ⟨_, Store.represents_file_payload held file, ?_⟩⟩
  · intro answer member
    obtain ⟨fragment, among, inside⟩ := List.mem_flatMap.mp member
    obtain ⟨s, here, rfl⟩ := List.mem_map.mp inside
    exact (grouped event fragment among).2 s here
  · intro payload member group among
    obtain ⟨holding, present, rfl⟩ := Option.map_eq_some_iff.mp member
    exact (all file holding present group among).1

def spacedText : String :=
  "<?php class A \x7b function events() \x7b return ['on_a. s ' => ' h ', 'off' => 'h']; \x7d \x7d"

def spacedSettings : Settings :=
  { Settings.standard with methodName := "events", keyMarkers := ["", "on_"] }

def spacedCalls : List Call :=
  [⟨"/w", spacedSettings, .empty, 0, .indexContent "a.php" spacedText⟩,
   ⟨"/w", spacedSettings, .empty, 1, .indexContent "b.php" "<?php"⟩,
   ⟨"/w", spacedSettings, .empty, 2, .remove "b.php"⟩]

theorem spaced_answers_well_formed :
    (∀ call ∈ spacedCalls, call.settings = spacedSettings) ∧
    (∀ entry ∈ history Source.digest spacedCalls, entry.2.payload.Fits) ∧
    (runCalls Source.digest spacedCalls).lookup "on_a" =
      .ok [("a.php", ⟨"on_a. s ", "on_a", "s", "A.h"⟩)] ∧
    (⟨"on_a. s ", "on_a", "s", "A.h"⟩ : Subscription).WellFormed spacedSettings.rules.convention
      "on_a" := by
  have own : ∀ call ∈ spacedCalls, call.settings = spacedSettings := by decide
  have fits : ∀ entry ∈ history Source.digest spacedCalls, entry.2.payload.Fits := by decide +kernel
  have rows : (runCalls Source.digest spacedCalls).rows =
      [⟨"a.php", "on_a", 1, .blob (Blob.encode [⟨"on_a. s ", "on_a", "s", "A.h"⟩])⟩] := by
        decide +kernel
  have chosen : (runCalls Source.digest spacedCalls).eventRows "on_a" =
      [⟨"a.php", "on_a", 1, .blob (Blob.encode [⟨"on_a. s ", "on_a", "s", "A.h"⟩])⟩] := by
    rw [Tables.eventRows, rows]
    exact List.mergeSort_singleton _
  have answer : (runCalls Source.digest spacedCalls).lookup "on_a" =
      .ok [("a.php", ⟨"on_a. s ", "on_a", "s", "A.h"⟩)] := by
    rw [Tables.lookup, Tables.valuesFor, chosen]
    rfl
  obtain ⟨found, looked_up, formed⟩ :=
    (answers_well_formed Source.digest spacedSettings spacedCalls own fits).1 "on_a"
  rw [answer] at looked_up
  cases looked_up
  exact ⟨own, fits, answer, formed _ List.mem_cons_self⟩

end Workspace
end HandlerIndex
