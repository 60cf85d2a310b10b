import HandlerIndex.Proofs.ServiceRuns

/-!
The tables of the index service are a cache that cannot be seen. After any calls of any services,
what a service answers for a file is what it would have extracted itself, and the answer comes from
the tables exactly if the file was last indexed from the same source and not forgotten since. Left
out are fingerprints that do not tell sources apart, and stores that were changed from outside.
-/
namespace HandlerIndex.Workspace
open Store (Tables)

section Answers
variable {fingerprint : Source → String} {sources : Set Source} {tables : Tables}

theorem known_iff_recorded {known : String → Option Source} {log : List (String × Source)}
    (knows : Knows fingerprint sources tables known)
    (last : ∀ file source, known file = some source → lastSource? log file = some source)
    (file : String) (source : Source) :
    known file = some source ↔
      tables.isRecorded file = true ∧ lastSource? log file = some source := by
  rw [knows.recorded file]
  constructor
  · intro held
    exact ⟨by rw [held]; rfl, last file source held⟩
  · rintro ⟨recorded, latest⟩
    obtain ⟨old, held⟩ := Option.isSome_iff_exists.mp recorded
    rw [held, ← latest, last file old held]

/-- Indexing a source answers with its payload, and leaves the tables alone if it was the last
one. -/
theorem index_source_answer (index : Index) (apart : ToldApart index.fingerprint sources)
    {log : List (String × Source)} (traced : Traced index.fingerprint sources log tables)
    (now : Int64) (file : String) (source : Source) (drawn : source ∈ sources) :
    ∃ outcome after, index.indexSource now tables file source = .ok (outcome, after) ∧
      outcome.payload = source.payload ∧
      ((∃ payload, outcome = .unchanged payload) ↔
        tables.isRecorded file = true ∧ lastSource? log file = some source) := by
  obtain ⟨known, knows, last⟩ := traced
  rw [index_source_eq index apart knows now file source drawn,
    ← known_iff_recorded knows last file source]
  by_cases same : known file = some source
  · exact ⟨.unchanged source.payload, tables, by rw [if_pos same], rfl, fun _ => same,
      fun _ => ⟨_, rfl⟩⟩
  · refine ⟨.indexed source.payload, (index.store now tables file source).2,
      by rw [if_neg same]; rfl, rfl, ?_⟩
    constructor
    · rintro ⟨payload, impossible⟩
      cases impossible
    · exact fun held => absurd held same

end Answers

-- The calls before are of any services, which share nothing but the tables and the fingerprint.
/-- What a service answers is what it would extract, and the answer is from the tables exactly if
the file is still recorded and was last indexed from the same content under the same rules. -/
theorem cached_answers_exact {fingerprint : Source → String} {sources : Set Source}
    (apart : ToldApart fingerprint sources) (calls : List Call)
    (drawn : ∀ entry ∈ history fingerprint calls, entry.2 ∈ sources) (root : String)
    (settings : Settings) (now : Int64) (file content : String)
    (source_drawn : (⟨root, settings, fingerprint⟩ : Index).source content ∈ sources) :
    let index : Index := ⟨root, settings, fingerprint⟩
    let tables := runCalls fingerprint calls
    if isSupported file then
      ∃ outcome after, index.indexContent now tables file content = .ok (outcome, after) ∧
        outcome.payload =
          (runExtraction (fun text => some (Php.parse text)) settings.rules settings.enabled
          content).payload ∧
        ((∃ payload, outcome = .unchanged payload) ↔
          tables.isRecorded file = true ∧
          lastSource? (history fingerprint calls) file = some
            { content
              enabled := settings.enabled
              rules := ⟨settings.methodName, ⟨settings.keyMarkers, settings.keySeparator⟩⟩ }) ∧
        ∀ disk : Disk, disk.readText (index.resolve file) = .ok content →
          index.indexFile disk now tables file = .ok (outcome, after)
    else
      index.indexContent now tables file content = .error (.unsupported file) ∧
        ∀ disk : Disk, index.indexFile disk now tables file = .error (.unsupported file) := by
  intro index tables
  have traced := run_calls_traced apart calls drawn
  by_cases supported : isSupported file = true
  · rw [if_pos supported]
    obtain ⟨outcome, after, answered, payload, unchanged⟩ :=
      index_source_answer index apart traced now file (index.source content) source_drawn
    rw [source_payload] at payload
    refine ⟨outcome, after, ?_, payload, unchanged, ?_⟩
    · rw [Index.indexContent, if_pos supported]
      exact answered
    · intro disk read
      have read_source : index.read? disk file = some (index.source content) := by
        unfold Index.read?
        rw [read]
      rw [Index.indexFile, if_pos supported, index_read_eq index disk now file _ read_source]
      exact answered
  · rw [if_neg supported]
    refine ⟨?_, fun disk => ?_⟩
    · rw [Index.indexContent, if_neg supported]
    · rw [Index.indexFile, if_neg supported]


def subscriber : String :=
  "<?php class A \x7b function events() \x7b return ['on_a.s' => 'h']; \x7d \x7d"

def dividing (separator : Char) : Settings :=
  { Settings.standard with
    methodName := "events", keyMarkers := ["on_"], keySeparator := separator }

def dividedSources : List Source :=
  [⟨subscriber, true, (dividing '.').rules⟩, ⟨subscriber, true, (dividing '-').rules⟩]

def sharing : List Call :=
  [⟨"/v", dividing '.', .empty, 0, .indexContent "a.php" subscriber⟩,
   ⟨"/w", dividing '-', .empty, 1, .indexContent "a.php" subscriber⟩]

-- The second service finds its own payload in the tables, the first one extracts again.
theorem sharing_answers_exact :
    ToldApart Source.digest {source | source ∈ dividedSources} ∧
    (∀ entry ∈ history Source.digest sharing, entry.2 ∈ dividedSources) ∧
    (∃ after, (⟨"/v", dividing '.', Source.digest⟩ : Index).indexContent 2
        (runCalls Source.digest sharing) "a.php" subscriber =
      .ok (.indexed (.ofGroups [⟨"on_a", [⟨"on_a.s", "on_a", "s", "A.h"⟩]⟩]), after)) ∧
    ∃ after, (⟨"/w", dividing '-', Source.digest⟩ : Index).indexContent 2
        (runCalls Source.digest sharing) "a.php" subscriber =
      .ok (.unchanged (.ofGroups [⟨"on_a.s", [⟨"on_a.s", "on_a.s", "a.s", "A.h"⟩]⟩]), after) := by
  have apart : ToldApart Source.digest {source | source ∈ dividedSources} :=
    told_apart_list (by decide +kernel) (by decide +kernel)
  have drawn : ∀ entry ∈ history Source.digest sharing, entry.2 ∈ dividedSources := by
    decide +kernel
  have supported : isSupported "a.php" = true := by decide +kernel
  refine ⟨apart, drawn, ?_, ?_⟩
  · have answer := cached_answers_exact apart sharing drawn "/v" (dividing '.') 2 "a.php" subscriber
      (by change _ ∈ dividedSources; decide +kernel)
    rw [if_pos supported] at answer
    obtain ⟨outcome, after, answered, payload, unchanged, -⟩ := answer
    cases outcome with
    | indexed found =>
      have extracted : found = .ofGroups [⟨"on_a", [⟨"on_a.s", "on_a", "s", "A.h"⟩]⟩] :=
        payload.trans (by decide +kernel)
      exact ⟨after, extracted ▸ answered⟩
    | unchanged found => exact absurd (unchanged.mp ⟨found, rfl⟩).2 (by decide +kernel)
  · have answer := cached_answers_exact apart sharing drawn "/w" (dividing '-') 2 "a.php" subscriber
      (by change _ ∈ dividedSources; decide +kernel)
    rw [if_pos supported] at answer
    obtain ⟨outcome, after, answered, payload, unchanged, -⟩ := answer
    obtain ⟨found, rfl⟩ := unchanged.mpr (by decide +kernel)
    have cached : found = .ofGroups [⟨"on_a.s", [⟨"on_a.s", "on_a.s", "a.s", "A.h"⟩]⟩] :=
      payload.trans (by decide +kernel)
    exact ⟨after, cached ▸ answered⟩

end HandlerIndex.Workspace
