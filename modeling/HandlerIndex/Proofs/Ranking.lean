import HandlerIndex.Proofs.SearchCompleteness

/-!
What the event search returns is the top of a ranking. Candidates with a score are put into one
strict order, by score and then by the bytes of their names, and the limit cuts the list that is in
this order. How a name answers the text decides first: names that are the text, names that end with
it, names that contain it elsewhere. Left out are faults of the store, which end a search.
-/
namespace HandlerIndex.Store

/-- Whether a match stands before another: it has the higher score, or the smaller name at the same
score. -/
def Match.Before (a b : Match) : Prop :=
  b.score < a.score ∨ a.score = b.score ∧ Text.toBytes a.summary.event <
    Text.toBytes b.summary.event

instance (a b : Match) : Decidable (a.Before b) := inferInstanceAs (Decidable (_ ∨ _))

def EventSummary.matched (summary : EventSummary) (text : String) : Match :=
  ⟨summary, relevance summary.event text⟩

/-! The order of matches. -/
section Order

theorem Match.precedes_iff (a b : Match) : a.precedes b = true ↔
    b.score < a.score ∨ a.score = b.score ∧ a.summary.event ≤ b.summary.event := by
  rw [Match.precedes, decide_eq_true_eq]

theorem Match.precedes_trans (a b c : Match) (first : a.precedes b = true)
    (second : b.precedes c = true) :
    a.precedes c = true := by
  rw [precedes_iff] at first second ⊢
  rcases first with higher | ⟨same, named⟩
  · refine .inl ?_
    rcases second with further | ⟨still, -⟩
    · exact further.trans higher
    · exact still ▸ higher
  · rcases second with further | ⟨still, named_next⟩
    · exact .inl (same ▸ further)
    · exact .inr ⟨same.trans still, String.le_trans named named_next⟩

theorem Match.precedes_total (a b : Match) : (a.precedes b || b.precedes a) = true := by
  rw [Bool.or_eq_true, precedes_iff, precedes_iff]
  rcases lt_trichotomy a.score b.score with lower | same | higher
  · exact .inr (.inl lower)
  · rcases String.le_total a.summary.event b.summary.event with before | after
    · exact .inl (.inr ⟨same, before⟩)
    · exact .inr (.inr ⟨same.symm, after⟩)
  · exact .inl (.inl higher)

theorem Match.before_of_precedes {a b : Match} (precedes : a.precedes b = true)
    (different : a.summary.event ≠ b.summary.event) : a.Before b := by
  rcases (precedes_iff a b).mp precedes with higher | ⟨same, named⟩
  · exact .inl higher
  · exact .inr ⟨same, (Text.to_bytes_lt_iff _ _).mpr (Std.lt_of_le_of_ne named different)⟩

theorem Match.Before.asymm {a b : Match} (before : a.Before b) : ¬ b.Before a := by
  rintro (higher | ⟨same, named⟩)
  · rcases before with higher_first | ⟨same, -⟩
    · exact lt_asymm higher higher_first
    · exact higher.ne same
  · rcases before with higher | ⟨-, named_first⟩
    · exact higher.ne same
    · exact List.lt_asymm named named_first

end Order

/-! Lists in a strict order, and their beginnings. -/
section Tops
variable {ranked : List Match} (ordered : ranked.Pairwise Match.Before)
include ordered

theorem top_before_rest (limit : Nat) {a b : Match} (top : a ∈ ranked.take limit)
    (member : b ∈ ranked) (left_out : b ∉ ranked.take limit) : a.Before b := by
  rw [← List.take_append_drop limit ranked] at ordered member
  rcases List.mem_append.mp member with taken | dropped
  · exact absurd taken left_out
  · exact (List.pairwise_append.mp ordered).2.2 a top b dropped

theorem pair_of_before {a b : Match} (first : a ∈ ranked) (second : b ∈ ranked)
    (before : a.Before b) :
    [a, b].Sublist ranked := by
  induction ranked with
  | nil => cases first
  | cons head rest ih =>
    obtain ⟨ahead, later⟩ := List.pairwise_cons.mp ordered
    rcases List.mem_cons.mp first with rfl | first_later
    · rcases List.mem_cons.mp second with rfl | second_later
      · exact absurd before before.asymm
      · exact (List.singleton_sublist.mpr second_later).cons_cons a
    · rcases List.mem_cons.mp second with rfl | second_later
      · exact absurd (ahead a first_later) before.asymm
      · exact (ih later first_later second_later).cons head

/-- Whatever stands before a match of the top is in the top as well, before it. -/
theorem pair_of_top (limit : Nat) {a b : Match} (member : a ∈ ranked) (top : b ∈ ranked.take limit)
    (before : a.Before b) : [a, b].Sublist (ranked.take limit) := by
  have taken : a ∈ ranked.take limit := by
    by_contra left_out
    exact before.asymm (top_before_rest ordered limit top member left_out)
  exact pair_of_before (ordered.sublist (List.take_sublist limit ranked)) taken top before

end Tops

/-! The ranking of candidates. -/
section Ranked
variable (text : String) (candidates : List EventSummary)

theorem rank_eq_sort : rank text candidates =
    ((candidates.filter fun summary => decide (0 < relevance summary.event text)).map
      (·.matched text)).mergeSort Match.precedes := by
  rw [rank, List.filter_map]
  rfl

theorem mem_rank_iff {found : Match} : found ∈ rank text candidates ↔
    ∃ summary ∈ candidates, 0 < relevance summary.event text ∧ summary.matched text = found := by
  simp only [rank_eq_sort, List.mem_mergeSort, List.mem_map, List.mem_filter, decide_eq_true_eq,
    and_assoc]

theorem matched_mem_rank_iff {summary : EventSummary} :
    summary.matched text ∈ rank text candidates ↔
    summary ∈ candidates ∧ 0 < relevance summary.event text := by
  rw [mem_rank_iff]
  constructor
  · rintro ⟨other, among, positive, same⟩
    have equal : other = summary := congrArg Match.summary same
    exact equal ▸ ⟨among, positive⟩
  · rintro ⟨among, positive⟩
    exact ⟨summary, among, positive, rfl⟩

theorem rank_length : (rank text candidates).length =
    (candidates.filter fun summary => decide (0 < relevance summary.event text)).length := by
  rw [rank_eq_sort, List.length_mergeSort, List.length_map]

variable {candidates} (distinct : (candidates.map (·.event)).Nodup)
include distinct

theorem rank_events_nodup : ((rank text candidates).map (·.summary.event)).Nodup := by
  have scored :
      ((candidates.filter fun summary => decide (0 < relevance summary.event text)).map
        (·.event)).Nodup :=
    distinct.sublist (List.filter_sublist.map _)
  rw [rank_eq_sort]
  refine (((List.mergeSort_perm _ _).map _).nodup_iff).mpr ?_
  rw [List.map_map]
  exact scored

theorem rank_ordered : (rank text candidates).Pairwise Match.Before := by
  have sorted : (rank text candidates).Pairwise fun a b => a.precedes b = true := by
    rw [rank_eq_sort]
    exact List.pairwise_mergeSort Match.precedes_trans Match.precedes_total _
  have apart : (rank text candidates).Pairwise fun a b => a.summary.event ≠ b.summary.event :=
    List.pairwise_map.mp (rank_events_nodup text distinct)
  exact (sorted.and apart).imp fun ⟨precedes, different⟩ =>
    Match.before_of_precedes precedes different

end Ranked

/-! How closely a name answers a text. -/
section Closeness
variable {text event : String}

def IsText (text event : String) : Prop :=
  Text.lowercaseChars event.toList = Text.lowercaseChars text.toList

def OnlyEnds (text event : String) : Prop :=
  Text.lowercaseChars text.toList <:+ Text.lowercaseChars event.toList ∧ ¬ IsText text event

def OnlyContains (text event : String) : Prop :=
  Text.lowercaseChars text.toList <:+: Text.lowercaseChars event.toList ∧
    ¬ Text.lowercaseChars text.toList <:+ Text.lowercaseChars event.toList

def Closer (text a b : String) : Prop :=
  IsText text a ∧ (OnlyEnds text b ∨ OnlyContains text b) ∨ OnlyEnds text a ∧ OnlyContains text b

instance : Decidable (IsText text event) := inferInstanceAs (Decidable (_ = _))
instance : Decidable (OnlyEnds text event) := inferInstanceAs (Decidable (_ ∧ _))
instance : Decidable (OnlyContains text event) := inferInstanceAs (Decidable (_ ∧ _))
instance (a b : String) : Decidable (Closer text a b) := inferInstanceAs (Decidable (_ ∨ _))

theorem relevance_of_is_text (same : IsText text event) : relevance event text = 1 := by
  have equal : Text.lowercaseChars event.toList = Text.lowercaseChars text.toList := same
  rw [relevance, if_pos equal, ite_self]

theorem relevance_of_only_ends (filled : text ≠ "") (ends : OnlyEnds text event) :
    relevance event text = Single.round (9 / 10) := by
  have some_text : ¬ text.isEmpty = true := fun empty => filled (String.isEmpty_iff.mp empty)
  have other : ¬ Text.lowercaseChars event.toList = Text.lowercaseChars text.toList := ends.2
  rw [relevance, if_neg some_text, if_neg other, if_pos (List.isSuffixOf_iff_suffix.mpr ends.1)]

-- The place is before the end of the name, so the length that it is divided by is not zero.
theorem relevance_of_only_contains (filled : text ≠ "") (inside : OnlyContains text event) :
    ∃ place, place < Text.byteLength (Text.lowercaseChars event.toList) ∧
      relevance event text =
        placeScore place (Text.byteLength (Text.lowercaseChars event.toList)) := by
  have some_text : ¬ text.isEmpty = true := fun empty => filled (String.isEmpty_iff.mp empty)
  have other : ¬ Text.lowercaseChars event.toList = Text.lowercaseChars text.toList := fun same =>
    inside.2 (same ▸ List.suffix_rfl)
  have no_ending :
      ¬ (Text.lowercaseChars text.toList).isSuffixOf (Text.lowercaseChars event.toList) = true :=
    fun ends => inside.2 (List.isSuffixOf_iff_suffix.mp ends)
  have some_char : Text.lowercaseChars text.toList ≠ [] :=
    fun empty => inside.2 (empty ▸ List.nil_suffix)
  rw [relevance, if_neg some_text, if_neg other, if_neg no_ending]
  cases found :
      Text.occurrence? (Text.lowercaseChars text.toList) (Text.lowercaseChars event.toList) with
  | none =>
    have occurs := (Text.occurs_in_iff _ _).mpr inside.1
    rw [Text.occursIn, found] at occurs
    cases occurs
  | some place =>
    refine ⟨place, ?_, rfl⟩
    have bound := Text.occurrence_from_bound found
    have sought := Text.byte_length_pos some_char
    omega

theorem place_score_le (place length : Nat) : placeScore place length ≤ Single.round (7 / 10) := by
  have kept : Single.round (Single.round (7 / 10)) = Single.round (7 / 10) := by decide +kernel
  calc placeScore place length
      ≤ Single.round (Single.round (7 / 10)) :=
        Single.round_mono (sub_le_self _ (Single.round_nonneg _))
    _ = Single.round (7 / 10) := kept

theorem relevance_of_closer (filled : text ≠ "") {a b : String} (closer : Closer text a b) :
    relevance b text < relevance a text := by
  have contained {name : String} (inside : OnlyContains text name) : relevance name text ≤
      Single.round (7 / 10) := by
    obtain ⟨place, -, score⟩ := relevance_of_only_contains filled inside
    rw [score]
    exact place_score_le _ _
  have ending : Single.round (9 / 10) < 1 := by decide +kernel
  have elsewhere : Single.round (7 / 10) < Single.round (9 / 10) := by decide +kernel
  rcases closer with ⟨same, ends | inside⟩ | ⟨ends, inside⟩
  · rw [relevance_of_is_text same, relevance_of_only_ends filled ends]
    exact ending
  · rw [relevance_of_is_text same]
    exact ((contained inside).trans_lt elsewhere).trans ending
  · rw [relevance_of_only_ends filled ends]
    exact (contained inside).trans_lt elsewhere

theorem relevance_le_one (text event : String) : relevance event text ≤ 1 := by
  have ending : Single.round (9 / 10) ≤ 1 := by decide +kernel
  have elsewhere : Single.round (7 / 10) ≤ 1 := by decide +kernel
  rw [relevance]
  split_ifs
  · exact le_refl 1
  · exact le_refl 1
  · exact ending
  · cases Text.occurrence? (Text.lowercaseChars text.toList) (Text.lowercaseChars event.toList) with
    | none => exact zero_le_one
    | some place => exact (place_score_le _ _).trans elsewhere

end Closeness

/-- What a search may return of some candidates: the best ones, as many as there is room for. -/
structure TopRanked (text : String) (limit : Nat) (candidates : List EventSummary)
    (found : List Match) : Prop where
  count : found.length =
    min limit (candidates.filter fun summary => decide (0 < relevance summary.event text)).length
  scored : ∀ result ∈ found, result.summary ∈ candidates ∧ result = result.summary.matched text ∧
    0 < result.score ∧ result.score ≤ 1
  distinct : (found.map (·.summary.event)).Nodup
  ordered : found.Pairwise Match.Before
  best : ∀ summary ∈ candidates, summary.matched text ∉ found →
    ∀ result ∈ found, result.Before (summary.matched text)
  closer : text ≠ "" → ∀ a ∈ candidates, ∀ b ∈ candidates, Closer text a.event b.event →
    b.matched text ∈ found → [a.matched text, b.matched text].Sublist found

theorem take_rank_top (text : String) (limit : Nat) {candidates : List EventSummary}
    (distinct : (candidates.map (·.event)).Nodup) :
    TopRanked text limit candidates ((rank text candidates).take limit) where
  count := by rw [List.length_take, rank_length]
  scored result member := by
    obtain ⟨summary, among, positive, rfl⟩ :=
      (mem_rank_iff text candidates).mp (List.mem_of_mem_take member)
    exact ⟨among, rfl, positive, relevance_le_one text summary.event⟩
  distinct := (rank_events_nodup text distinct).sublist ((List.take_sublist limit _).map _)
  ordered := (rank_ordered text distinct).sublist (List.take_sublist limit _)
  best summary among left_out result top := by
    by_cases positive : 0 < relevance summary.event text
    · exact top_before_rest (rank_ordered text distinct) limit top
        ((matched_mem_rank_iff text candidates).mpr ⟨among, positive⟩) left_out
    · -- A candidate without a score is below everything that is returned.
      obtain ⟨other, -, other_positive, rfl⟩ :=
        (mem_rank_iff text candidates).mp (List.mem_of_mem_take top)
      exact .inl ((not_lt.mp positive).trans_lt other_positive)
  closer filled a a_among b b_among closer top := by
    have higher := relevance_of_closer filled closer
    have positive := ((matched_mem_rank_iff text candidates).mp (List.mem_of_mem_take top)).2
    exact pair_of_top (rank_ordered text distinct) limit
      ((matched_mem_rank_iff text candidates).mpr ⟨a_among, positive.trans higher⟩) top
        (.inl higher)

/-- As long as the counts are words, the tables have an answer to every search. -/
theorem represents_search_answers {tables : Tables} {contents : Contents}
    (held : Represents tables contents)
    (room : contents.total (tables.indexedFiles.map (·.file)) < wordLimit) (pattern : String)
    (minFiles : UInt64) :
    ∃ candidates, tables.searchEvents pattern minFiles = .ok candidates := by
  have summaries := map_m_ok tables.summary _ (tables.eventsMatching pattern)
    fun event _ => represents_summary held room event
  rw [Tables.searchEvents, summaries]
  exact ⟨_, rfl⟩

/-- A search returns the top of the ranking of its candidates, and more of the same ranking with a
larger limit. -/
theorem search_top_ranked (text : Option String) (minFiles : Option UInt64) (limit : Option Nat) :
    (∀ operations : List Operation, (∀ operation ∈ operations, operation.Fits) →
      let tables := (performAll Tables.perform Tables.empty.opened operations).2
      (performAll Contents.perform (fun _ => none) operations).2.total
        (tables.indexedFiles.map (·.file)) < wordLimit →
      ∃ candidates, tables.searchEvents (text.getD "") (minFiles.getD 0) = .ok candidates) ∧
    ∀ tables : Tables,
      (∀ fault, tables.searchEvents (text.getD "") (minFiles.getD 0) = .error fault →
        tables.search ⟨text, minFiles, limit⟩ = .error fault) ∧
      ∀ candidates, tables.searchEvents (text.getD "") (minFiles.getD 0) = .ok candidates →
        ∃ found, tables.search ⟨text, minFiles, limit⟩ = .ok found ∧
          TopRanked (text.getD "") (limit.getD 50) candidates found ∧
          ∀ larger, limit.getD 50 ≤ larger →
            ∃ more, tables.search ⟨text, minFiles, some larger⟩ = .ok more ∧ found <+: more := by
  refine ⟨?_, fun tables =>
    ⟨fun fault answer => search_of_fault ⟨text, minFiles, limit⟩ answer, ?_⟩⟩
  · intro operations fits tables room
    obtain ⟨-, held⟩ := perform_all_refines operations represents_empty fits
    exact represents_search_answers held room _ _
  · intro candidates answer
    have distinct : (candidates.map (·.event)).Nodup :=
      (events_matching_ascending tables _).nodup.sublist (candidates_sublist answer)
    refine ⟨_, search_of_candidates ⟨text, minFiles, limit⟩ answer, take_rank_top _ _ distinct, ?_⟩
    intro larger within
    exact ⟨_, search_of_candidates ⟨text, minFiles, some larger⟩ answer,
      List.take_prefix_take_left within⟩

def mailing : List Operation :=
  [.put 0 "a.php" "1" (.ofGroups [⟨"Amail_x", [⟨"Amail_x.s", "Amail_x", "s", "T.first"⟩]⟩,
    ⟨"Mail", [⟨"Mail.s", "Mail", "s", "T.second"⟩]⟩,
    ⟨"Zmail", [⟨"Zmail.s", "Zmail", "s", "T.third"⟩]⟩])]

theorem mailing_candidates :
    (performAll Tables.perform Tables.empty.opened mailing).2.searchEvents "MAIL" 0 =
    .ok [⟨"Amail_x", 1, 1⟩, ⟨"Mail", 1, 1⟩, ⟨"Zmail", 1, 1⟩] := by
  have matching : (performAll Tables.perform Tables.empty.opened mailing).2.eventsMatching "MAIL" =
      ["Amail_x", "Mail", "Zmail"] := by
    have listed :
        (((performAll Tables.perform Tables.empty.opened mailing).2.rows.map (·.event)).filter
        (Tables.nameMatches "MAIL")).eraseDups = ["Amail_x", "Mail", "Zmail"] := by decide +kernel
    rw [Tables.eventsMatching, listed]
    exact List.mergeSort_of_pairwise (by decide)
  rw [Tables.searchEvents, matching]
  rfl

theorem mailing_top_ranked : (∀ operation ∈ mailing, operation.Fits) ∧
    (performAll Tables.perform Tables.empty.opened mailing).2.search ⟨some "MAIL", none, some 2⟩ =
      .ok [⟨⟨"Mail", 1, 1⟩, 1⟩, ⟨⟨"Zmail", 1, 1⟩, Single.round (9 / 10)⟩] := by
  have fits : ∀ operation ∈ mailing, operation.Fits := by decide
  obtain ⟨-, searches⟩ := search_top_ranked (some "MAIL") none (some 2)
  obtain ⟨found, answer, top, -⟩ := (searches _).2 _ mailing_candidates
  have two : found.length = 2 := top.count.trans (by decide +kernel)
  -- If the second best were left out, only the best could be returned.
  have second : EventSummary.matched ⟨"Zmail", 1, 1⟩ "MAIL" ∈ found := by
    by_contra left_out
    have only : found ⊆ [EventSummary.matched ⟨"Mail", 1, 1⟩ "MAIL"] := by
      intro result member
      obtain ⟨among, scored, -⟩ := top.scored result member
      have before := top.best ⟨"Zmail", 1, 1⟩ (by decide) left_out result member
      rw [scored] at member before ⊢
      simp only [List.mem_cons, List.not_mem_nil, or_false] at among
      rcases among with same | same | same
      · rw [same] at before
        exact absurd before (by decide +kernel)
      · rw [same]
        exact List.mem_singleton_self _
      · rw [same] at member
        exact absurd member left_out
    have few := (List.subperm_of_subset (top.distinct.of_map _) only).length_le
    rw [two] at few
    exact absurd few (by decide)
  have closer : Closer "MAIL" "Mail" "Zmail" := by decide +kernel
  have pair :=
    top.closer (by decide) ⟨"Mail", 1, 1⟩ (by decide) ⟨"Zmail", 1, 1⟩ (by decide) closer second
  rw [answer, ← pair.eq_of_length two.symm]
  refine ⟨fits, ?_⟩
  decide +kernel

end HandlerIndex.Store
