import HandlerIndex.Store.Search
import HandlerIndex.Proofs.EventTotals
import HandlerIndex.Proofs.SingleRounding
import Mathlib.Data.List.Nodup

/-!
What the event search keeps of the events that the tables propose. The tables fold the letters A to
Z, the score lowers all letters, so an event may be proposed and then get no score. It is kept
exactly if the lowered text occurs in its lowered name. Whether that ever loses an event is told by
the text alone: it does unless all capital sigmas of the text are settled. Left out is how high a
score is, as long as there is one.
-/
namespace HandlerIndex.Store

/-! Scores. -/
section Scores

theorem share_bounds {place length : Nat} (within : place ≤ length) :
    0 ≤ Single.round (Single.round place / Single.round length) ∧
      Single.round (Single.round place / Single.round length) ≤ 1 := by
  refine ⟨Single.round_nonneg _, ?_⟩
  have ordered : Single.round place ≤ Single.round length :=
    Single.round_mono (Nat.cast_le.mpr within)
  have one : Single.round 1 = 1 := by decide +kernel
  calc Single.round (Single.round place / Single.round length)
      ≤ Single.round 1 := Single.round_mono (div_le_one_of_le₀ ordered (Single.round_nonneg _))
    _ = 1 := one

theorem place_score_pos {place length : Nat} (within : place ≤ length) :
    0 < placeScore place length := by
  obtain ⟨nonneg, le_one⟩ := share_bounds within
  have malus : Single.round (Single.round (Single.round place / Single.round length) *
      Single.round (3 / 10)) ≤
      Single.round (Single.round (3 / 10)) :=
    Single.round_mono (mul_le_of_le_one_left (Single.round_nonneg _) le_one)
  have room : Single.round (Single.round (3 / 10)) < Single.round (7 / 10) := by decide +kernel
  exact Single.round_pos (sub_pos.mpr (malus.trans_lt room))

/-- An event has a score if the lowered text occurs in its lowered name. -/
theorem relevance_pos_iff (event query : String) : 0 < relevance event query ↔
    Text.occursIn (Text.lowercaseChars query.toList) (Text.lowercaseChars event.toList) = true := by
  rw [relevance]
  split_ifs with empty equal suffix
  · have nothing : query = "" := String.isEmpty_iff.mp empty
    rw [nothing, Text.occurs_in_iff]
    exact iff_of_true one_pos List.nil_infix
  · rw [equal, Text.occurs_in_iff]
    exact iff_of_true one_pos List.infix_rfl
  · rw [Text.occurs_in_iff]
    exact iff_of_true (by decide +kernel) (List.isSuffixOf_iff_suffix.mp suffix).isInfix
  · rw [Text.occursIn]
    cases found :
        Text.occurrence? (Text.lowercaseChars query.toList) (Text.lowercaseChars event.toList) with
    | none => simp
    | some place =>
      have bound := Text.occurrence_from_bound found
      exact iff_of_true (place_score_pos (by omega)) rfl

/-- Ranking keeps the candidates with a score and no others. -/
theorem rank_perm (query : String) (candidates : List EventSummary) :
    ((rank query candidates).map (·.summary)).Perm (candidates.filter fun summary =>
      Text.occursIn (Text.lowercaseChars query.toList)
        (Text.lowercaseChars summary.event.toList)) := by
  refine ((List.mergeSort_perm _ _).map _).trans (List.Perm.of_eq ?_)
  have kept : (fun found : Match => found.summary) ∘
      (fun summary => Match.mk summary (relevance summary.event query)) = id := rfl
  rw [List.filter_map, List.map_map, kept, List.map_id]
  refine List.filter_congr fun summary _ => ?_
  rw [Bool.eq_iff_iff, ← relevance_pos_iff]
  exact decide_eq_true_iff

end Scores

/-! Candidates. -/
section Candidates
variable {tables : Tables} {pattern : String} {minFiles : UInt64} {candidates : List EventSummary}

theorem summary_event {event : String} {found : EventSummary × Int64}
    (answer : tables.summary event = .ok found) : found.1.event = event := by
  rw [Tables.summary] at answer
  cases added : sumWords ((tables.rows.filter (·.event == event)).map (·.entryCount)) with
  | error fault =>
    rw [added] at answer
    cases answer
  | ok sum =>
    rw [added] at answer
    cases answer
    rfl

theorem candidates_sublist (answer : tables.searchEvents pattern minFiles = .ok candidates) :
    (candidates.map (·.event)).Sublist (tables.eventsMatching pattern) := by
  rw [Tables.searchEvents] at answer
  cases each : (tables.eventsMatching pattern).mapM tables.summary with
  | error fault =>
    rw [each] at answer
    cases answer
  | ok summaries =>
    rw [each] at answer
    cases answer
    have names :=
      map_m_keeps (fun found : EventSummary × Int64 => found.1.event) (fun _ _ => summary_event)
        each
    rw [← names, List.map_map]
    exact List.filter_sublist.map _

theorem candidates_few (answer : tables.searchEvents pattern minFiles = .ok candidates) :
    candidates.length ≤ tables.eventTotal := by
  have among : tables.eventsMatching pattern ⊆ tables.eventsMatching "" := by
    intro event member
    exact mem_events_matching.mpr ⟨empty_name_matches event, (mem_events_matching.mp member).2⟩
  calc candidates.length = (candidates.map (·.event)).length := (List.length_map _).symm
    _ ≤ (tables.eventsMatching pattern).length := (candidates_sublist answer).length_le
    _ ≤ (tables.eventsMatching "").length :=
      (List.subperm_of_subset (events_matching_ascending tables pattern).nodup among).length_le
    _ = tables.eventTotal := (event_total_eq tables).symm

theorem candidate_matches (answer : tables.searchEvents pattern minFiles = .ok candidates)
    {summary : EventSummary} (member : summary ∈ candidates) :
    Tables.nameMatches pattern summary.event = true :=
  (mem_events_matching.mp ((candidates_sublist answer).subset (List.mem_map_of_mem member))).1

end Candidates

/-! Searches. -/
section Searches
variable {tables : Tables} (query : Query)

theorem search_of_fault {fault : Fault}
    (answer : tables.searchEvents (query.text.getD "") (query.minFiles.getD 0) = .error fault) :
    tables.search query = .error fault := by
  rw [Tables.search, answer]
  rfl

theorem search_of_candidates {candidates : List EventSummary}
    (answer : tables.searchEvents (query.text.getD "") (query.minFiles.getD 0) = .ok candidates) :
    tables.search query =
      .ok ((rank (query.text.getD "") candidates).take (query.limit.getD Query.defaultLimit)) := by
  rw [Tables.search, answer]
  rfl

/-- With room for all events a search returns what it ranks. -/
theorem search_all (room : tables.eventTotal ≤ query.limit.getD Query.defaultLimit)
    {candidates : List EventSummary}
    (answer : tables.searchEvents (query.text.getD "") (query.minFiles.getD 0) = .ok candidates) :
    tables.search query = .ok (rank (query.text.getD "") candidates) := by
  rw [search_of_candidates query answer, List.take_of_length_le]
  have ranked : (rank (query.text.getD "") candidates).length ≤ candidates.length := by
    rw [← List.length_map (f := Match.summary), (rank_perm _ candidates).length_eq]
    exact List.length_filter_le _ _
  exact (ranked.trans (candidates_few answer)).trans room

/-- A settled text loses no candidate. -/
theorem settled_keeps {text : String} (settled : Text.Settled text.toList)
    {candidates : List EventSummary} {minFiles : UInt64}
    (answer : tables.searchEvents text minFiles = .ok candidates) :
    (candidates.filter fun summary =>
      Text.occursIn (Text.lowercaseChars text.toList) (Text.lowercaseChars summary.event.toList)) =
        candidates := by
  refine List.filter_eq_self.mpr fun summary member => ?_
  have found := (name_matches_iff text summary.event).mp (candidate_matches answer member)
  exact (Text.occurs_in_iff _ _).mpr (Text.settled_found settled found)

def lone (event : String) : Operation := .put 0 "a.php" "1" (.aggregate [⟨event, event, "", ""⟩])

theorem lone_candidates {text event : String} (found : Tables.nameMatches text event = true) :
    (Tables.empty.opened.perform (lone event)).2.searchEvents text 0 = .ok [⟨event, 1, 1⟩] := by
  obtain ⟨row, rows, named, counted⟩ : ∃ row : Row,
      (Tables.empty.opened.perform (lone event)).2.rows = [row] ∧ row.event = event ∧
        row.entryCount = 1 :=
    ⟨_, rfl, rfl, rfl⟩
  generalize (Tables.empty.opened.perform (lone event)).2 = tables at rows
  have events : tables.eventsMatching text = [event] := by
    rw [Tables.eventsMatching, rows, List.map_singleton, named, List.filter_cons_of_pos found,
      List.filter_nil, List.eraseDups_cons, List.filter_nil, List.eraseDups_nil,
      List.mergeSort_singleton]
  have summary : tables.summary event = .ok (⟨event, 1, 1⟩, 1) := by
    rw [Tables.summary, rows, List.filter_cons_of_pos (by simpa using named), List.filter_nil,
      List.map_singleton, counted]
    rfl
  rw [Tables.searchEvents, events, List.mapM_cons, List.mapM_nil, summary]
  rfl

theorem rank_of_missed {text : String} {candidates : List EventSummary}
    (missed : ∀ summary ∈ candidates,
      ¬ Text.lowercaseChars text.toList <:+: Text.lowercaseChars summary.event.toList) :
    rank text candidates = [] := by
  have kept := rank_perm text candidates
  rw [List.filter_eq_nil_iff.mpr fun summary member found =>
    missed summary member ((Text.occurs_in_iff _ _).mp found)] at kept
  exact List.map_eq_nil_iff.mp kept.eq_nil

theorem lone_lost (text : Option String) {event : String}
    (matched : Tables.nameMatches (text.getD "") event = true)
    (missed : ¬ Text.lowercaseChars (text.getD "").toList <:+: Text.lowercaseChars event.toList)
    (limit : Option Nat) :
    (Tables.empty.opened.perform (lone event)).2.search ⟨text, none, limit⟩ = .ok [] := by
  have lost : rank (text.getD "") [⟨event, 1, 1⟩] = [] := by
    apply rank_of_missed
    intro summary member
    rw [List.mem_singleton.mp member]
    exact missed
  rw [search_of_candidates ⟨text, none, limit⟩ (lone_candidates matched), lost, List.take_nil]

end Searches

/-- A search with room for all events answers with a fault if the tables do, and keeps the
candidates in whose lowered names the lowered text occurs. These are all of them if the capital
sigmas of the text are settled; if they are not, there are tables whose one candidate is lost. -/
theorem search_keeps_settled (text : Option String) :
    (∀ (tables : Tables) (minFiles : Option UInt64) (limit : Option Nat),
      tables.eventTotal ≤ limit.getD Query.defaultLimit →
      (∀ fault, tables.searchEvents (text.getD "") (minFiles.getD 0) = .error fault →
        tables.search ⟨text, minFiles, limit⟩ = .error fault) ∧
      ∀ candidates, tables.searchEvents (text.getD "") (minFiles.getD 0) = .ok candidates →
        ∃ found, tables.search ⟨text, minFiles, limit⟩ = .ok found ∧
          (found.map (·.summary)).Perm (candidates.filter fun summary => Text.occursIn
            (Text.lowercaseChars (text.getD "").toList)
              (Text.lowercaseChars summary.event.toList)) ∧
          (Text.Settled (text.getD "").toList → (found.map (·.summary)).Perm candidates)) ∧
    (¬ Text.Settled (text.getD "").toList → ∃ operation summary,
      let tables := (Tables.empty.opened.perform operation).2
      tables.searchEvents (text.getD "") 0 = .ok [summary] ∧
        ∀ limit, tables.search ⟨text, none, limit⟩ = .ok []) := by
  refine ⟨?_, ?_⟩
  · intro tables minFiles limit room
    refine ⟨fun fault answer => search_of_fault ⟨text, minFiles, limit⟩ answer, ?_⟩
    intro candidates answer
    refine ⟨_, search_all ⟨text, minFiles, limit⟩ room answer, rank_perm _ _, ?_⟩
    intro settled
    have kept := rank_perm (text.getD "") candidates
    rwa [settled_keeps settled answer] at kept
  · intro unsettled
    obtain ⟨whole, found, missed⟩ := Text.unsettled_missed unsettled
    have matched : Tables.nameMatches (text.getD "") (String.ofList whole) = true := by
      rw [name_matches_iff, String.toList_ofList]
      exact found
    refine ⟨lone (String.ofList whole), _, lone_candidates matched, lone_lost text matched ?_⟩
    rw [String.toList_ofList]
    exact missed

theorem inner_sigma_kept :
    Text.Settled "ΑΣα".toList ∧
    let tables := (Tables.empty.opened.perform (lone "ΒΑΣα")).2
    tables.searchEvents "ΑΣα" 0 = .ok [⟨"ΒΑΣα", 1, 1⟩] ∧
      ∃ found, tables.search ⟨some "ΑΣα", none, none⟩ = .ok found ∧
        (found.map (·.summary)).Perm [⟨"ΒΑΣα", 1, 1⟩] := by
  have settled : Text.Settled "ΑΣα".toList := by decide +kernel
  have matched : Tables.nameMatches "ΑΣα" "ΒΑΣα" = true := by decide +kernel
  have candidates := lone_candidates matched
  obtain ⟨found, answer, -, kept⟩ :=
    ((search_keeps_settled (some "ΑΣα")).1 _ none none (by decide +kernel)).2 _ candidates
  exact ⟨settled, candidates, found, answer, kept settled⟩

/-- A sigma ends the word in the name and stands alone in the text. -/
theorem final_sigma_lost :
    let tables := (Tables.empty.opened.perform (lone "ΑΣ")).2
    tables.eventTotal ≤ Query.defaultLimit ∧ tables.searchEvents "Σ" 0 = .ok [⟨"ΑΣ", 1, 1⟩] ∧
      tables.search ⟨some "Σ", none, none⟩ = .ok [] := by
  have matched : Tables.nameMatches "Σ" "ΑΣ" = true := by decide +kernel
  have missed : ¬ Text.lowercaseChars "Σ".toList <:+: Text.lowercaseChars "ΑΣ".toList := by
    decide +kernel
  exact ⟨by decide +kernel, lone_candidates matched, lone_lost (some "Σ") matched missed none⟩

end HandlerIndex.Store
