import HandlerIndex.Proofs.StoreRefinement

/-!
Reading a file's payload from the event store while others use the tables. A reader asks whether the
file is recorded and then for its rows, and others may perform any number of operations between the
two questions. The answer is that of a single state, but for one case: a file that is recorded at
the first question and forgotten before the second is said to have an empty payload, which it may
never have had. Left out are readers that ask both questions at once; the store has none.
-/
namespace HandlerIndex.Store

-- The tables at each question are remembered, so that one can speak of them afterwards.
inductive Stage where
  | checking
  | fetching (first : Tables)
  | done (first second : Tables) (answer : Except Fault (Option Payload))

inductive Turn where
  | ask
  | perform (operation : Operation)

/-- A reader among others. All states of the tables since the reader began are kept. -/
structure Scene where
  tables : Tables
  seen : List Tables
  stage : Stage

def Stage.ask (file : String) (tables : Tables) : Stage → Stage
  | .checking =>
    match tables.fileRecord? file with
    | none => .done tables tables (.ok none)
    | some _ => .fetching tables
  | .fetching first => .done first tables (do return some (← tables.storedGroups file))
  | .done first second answer => .done first second answer

namespace Scene

def start (tables : Tables) : Scene := ⟨tables, [tables], .checking⟩

def turn (file : String) (scene : Scene) : Turn → Scene
  | .ask => { scene with stage := scene.stage.ask file scene.tables }
  | .perform operation =>
    let after := (scene.tables.perform operation).2
    { scene with tables := after, seen := scene.seen ++ [after] }

def run (file : String) (scene : Scene) (turns : List Turn) : Scene := turns.foldl (turn file) scene

end Scene

section Runs
variable {file : String}

theorem run_keeps {kept : Scene → Prop} {turns : List Turn}
    (step : ∀ scene, ∀ turn ∈ turns, kept scene → kept (scene.turn file turn)) {scene : Scene}
    (before : kept scene) :
    kept (scene.run file turns) := by
  let inv (scene : Scene) (rest : List Turn) : Prop := (∀ turn ∈ rest, turn ∈ turns) ∧ kept scene
  have each : ∀ scene turn rest, inv scene (turn :: rest) → inv (scene.turn file turn) rest := by
    rintro scene turn rest ⟨among, here⟩
    exact ⟨fun later member => among later (List.mem_cons_of_mem turn member),
      step scene turn (among turn List.mem_cons_self) here⟩
  exact (fold_invariant each ⟨fun _ member => member, before⟩).2

theorem recorded_iff (tables : Tables) :
    tables.isRecorded file = true ↔ ∃ record, tables.fileRecord? file = some record :=
  Option.isSome_iff_exists

/-- What the reader has so far came from states that were there. -/
def Stage.From (file : String) (seen : List Tables) : Stage → Prop
  | .checking => True
  | .fetching first => first ∈ seen ∧ first.isRecorded file = true
  | .done first second answer =>
    first ∈ seen ∧ second ∈ seen ∧ answer = Tables.filePayloadBetween first second file

structure Scene.Accounted (file : String) (scene : Scene) : Prop where
  current : scene.tables ∈ scene.seen
  represented : ∀ tables ∈ scene.seen, ∃ contents, Represents tables contents
  stage : scene.stage.From file scene.seen

theorem Stage.From.grow {stage : Stage} {seen : List Tables} (traced : stage.From file seen)
    (tables : Tables) :
    stage.From file (seen ++ [tables]) := by
  cases stage with
  | checking => trivial
  | fetching first => exact ⟨List.mem_append_left _ traced.1, traced.2⟩
  | done first second answer =>
    exact ⟨List.mem_append_left _ traced.1, List.mem_append_left _ traced.2.1, traced.2.2⟩

theorem Stage.From.ask {stage : Stage} {seen : List Tables} (traced : stage.From file seen)
    {tables : Tables} (current : tables ∈ seen) : (stage.ask file tables).From file seen := by
  cases stage with
  | checking =>
    unfold Stage.ask
    cases record : tables.fileRecord? file with
    | none => exact ⟨current, current, by simp only [Tables.filePayloadBetween, record]⟩
    | some found => exact ⟨current, (recorded_iff tables).mpr ⟨found, record⟩⟩
  | fetching first =>
    obtain ⟨member, recorded⟩ := traced
    obtain ⟨record, found⟩ := (recorded_iff first).mp recorded
    exact ⟨member, current, by simp only [Tables.filePayloadBetween, found]⟩
  | done first second answer => exact traced

theorem turn_accounted {scene : Scene} (accounted : scene.Accounted file) (turn : Turn)
    (fits : ∀ operation, turn = .perform operation → operation.Fits) :
    (scene.turn file turn).Accounted file := by
  cases turn with
  | ask => exact ⟨accounted.current, accounted.represented, accounted.stage.ask accounted.current⟩
  | perform operation =>
    obtain ⟨contents, held⟩ := accounted.represented _ accounted.current
    refine ⟨List.mem_append_right _ List.mem_cons_self, ?_, accounted.stage.grow _⟩
    intro tables member
    rcases List.mem_append.mp member with old | new
    · exact accounted.represented tables old
    · rw [List.mem_singleton.mp new]
      exact ⟨_, (perform_refines held operation (fits operation rfl)).2⟩

def Forgets (file : String) : Operation → Prop
  | .put .. => False
  | .remove other => other = file
  | .invalidate => True
  | .reopen => False

theorem recorded_kept {tables : Tables} {contents : Contents} (held : Represents tables contents)
    {operation : Operation} (kept : ¬Forgets file operation)
    (recorded : tables.isRecorded file = true) :
    (tables.perform operation).2.isRecorded file = true := by
  cases operation with
  | put now other hash payload =>
    by_cases same : file = other
    · simp [Tables.perform, Tables.isRecorded, same]
    · simpa [Tables.perform, Tables.isRecorded, same] using recorded
  | remove other =>
    have different : file ≠ other := Ne.symm kept
    simpa [Tables.perform, Tables.isRecorded, different] using recorded
  | invalidate => exact absurd trivial kept
  | reopen =>
    rw [Tables.perform, Tables.opened, held.version]
    exact recorded

def Scene.Steady (file : String) (scene : Scene) : Prop :=
  match scene.stage with
  | .checking => True
  | .fetching _ => scene.tables.isRecorded file = true
  | .done first second _ => first.isRecorded file = true → second.isRecorded file = true

theorem turn_steady {scene : Scene} (accounted : scene.Accounted file) (steady : scene.Steady file)
    (turn : Turn) (kept : ∀ operation, turn = .perform operation → ¬Forgets file operation) :
    (scene.turn file turn).Steady file := by
  obtain ⟨contents, held⟩ := accounted.represented _ accounted.current
  obtain ⟨tables, seen, stage⟩ := scene
  cases turn with
  | ask =>
    cases stage with
    | checking =>
      simp only [Scene.turn, Stage.ask, Scene.Steady]
      cases record : tables.fileRecord? file with
      | none => exact fun recorded => recorded
      | some found => exact (recorded_iff tables).mpr ⟨found, record⟩
    | fetching first => exact fun _ => steady
    | done first second answer => exact steady
  | perform operation =>
    cases stage with
    | checking => trivial
    | fetching first => exact recorded_kept held (kept operation rfl) steady
    | done first second answer => exact steady

end Runs

section Answers
variable {file : String} {tables first second : Tables} {contents : Contents}

theorem stored_groups_unrecorded (held : Represents tables contents)
    (unrecorded : tables.isRecorded file = false) :
    tables.storedGroups file = .ok .empty := by
  have absent : contents file = none := by
    rw [represents_recorded held, Option.isSome_eq_false_iff, Option.isNone_iff_eq_none]
      at unrecorded
    exact unrecorded
  refine stored_groups_of_rows file .empty ⟨by decide, nofun⟩ ?_
  rw [held.rows, absent]
  rfl

theorem answer_unrecorded (unrecorded : first.isRecorded file = false) :
    Tables.filePayloadBetween first second file = first.filePayload file := by
  have none_found : first.fileRecord? file = none := by
    simpa [Tables.isRecorded] using unrecorded
  rw [Tables.filePayload, Tables.filePayloadBetween, Tables.filePayloadBetween, none_found]

theorem answer_recorded (recorded : first.isRecorded file = true)
    (still : second.isRecorded file = true) :
    Tables.filePayloadBetween first second file = second.filePayload file := by
  obtain ⟨record, found⟩ := (recorded_iff first).mp recorded
  obtain ⟨other, found_again⟩ := (recorded_iff second).mp still
  simp only [Tables.filePayload, Tables.filePayloadBetween, found, found_again]

theorem answer_forgotten (held : Represents second contents)
    (recorded : first.isRecorded file = true) (forgotten : second.isRecorded file = false) :
    Tables.filePayloadBetween first second file = .ok (some .empty) := by
  obtain ⟨record, found⟩ := (recorded_iff first).mp recorded
  simp only [Tables.filePayloadBetween, found, stored_groups_unrecorded held forgotten]
  rfl

end Answers

section Reads
variable {operations : List Operation} {turns : List Turn}

def Scene.after (operations : List Operation) : Scene :=
  .start (performAll Tables.perform Tables.empty.opened operations).2

theorem after_accounted (file : String) (fits : ∀ operation ∈ operations, operation.Fits) :
    (Scene.after operations).Accounted file where
  current := List.mem_singleton_self _
  represented tables member := by
    rw [List.mem_singleton.mp member]
    exact ⟨_, (perform_all_refines operations represents_empty fits).2⟩
  stage := trivial

theorem read_accounted (file : String) (fits : ∀ operation ∈ operations, operation.Fits)
    (turns_fit : ∀ operation, .perform operation ∈ turns → operation.Fits) :
    ((Scene.after operations).run file turns).Accounted file := by
  refine run_keeps ?_ (after_accounted file fits)
  intro scene turn member accounted
  exact turn_accounted accounted turn fun operation same => turns_fit operation (same ▸ member)

theorem read_steady (file : String) (fits : ∀ operation ∈ operations, operation.Fits)
    (turns_fit : ∀ operation, .perform operation ∈ turns → operation.Fits)
    (kept : ∀ operation, .perform operation ∈ turns → ¬Forgets file operation) :
    ((Scene.after operations).run file turns).Steady file := by
  have both : ∀ scene, ∀ turn ∈ turns, Scene.Accounted file scene ∧ scene.Steady file →
      (scene.turn file turn).Accounted file ∧ (scene.turn file turn).Steady file := by
    rintro scene turn member ⟨accounted, steady⟩
    exact ⟨turn_accounted accounted turn fun operation same => turns_fit operation (same ▸ member),
      turn_steady accounted steady turn fun operation same => kept operation (same ▸ member)⟩
  exact (run_keeps both ⟨after_accounted file fits, trivial⟩).2

/-- What a read among other operations answers: the payload of the file in the state at one of its
two questions, or an empty one if the file was forgotten between them. It is the answer of a single
state unless the file was forgotten so and had no empty payload in any of the states, and it is
always if nobody forgets the file. -/
theorem read_among_operations (operations : List Operation) (turns : List Turn) (file : String)
    {first second : Tables} {answer : Except Fault (Option Payload)}
    (fits : ∀ operation ∈ operations, operation.Fits)
    (turns_fit : ∀ operation, .perform operation ∈ turns → operation.Fits)
    (finished : ((Scene.after operations).run file turns).stage = .done first second answer) :
    let seen := ((Scene.after operations).run file turns).seen
    first ∈ seen ∧ second ∈ seen ∧
    (first.isRecorded file = false → answer = first.filePayload file) ∧
    (first.isRecorded file = true → second.isRecorded file = true →
      answer = second.filePayload file) ∧
    (first.isRecorded file = true → second.isRecorded file = false → answer = .ok (some .empty)) ∧
    ((∃ tables ∈ seen, tables.filePayload file = answer) ↔
      ¬(first.isRecorded file = true ∧ second.isRecorded file = false ∧
        ∀ tables ∈ seen, tables.filePayload file ≠ .ok (some .empty))) ∧
    ((∀ operation, .perform operation ∈ turns → ¬Forgets file operation) →
      ∃ tables ∈ seen, tables.filePayload file = answer) := by
  intro seen
  have accounted := read_accounted file fits turns_fit
  obtain ⟨first_seen, second_seen, answered⟩ : first ∈ seen ∧ second ∈ seen ∧
      answer = Tables.filePayloadBetween first second file := by
    simpa only [finished, Stage.From] using accounted.stage
  obtain ⟨contents, held⟩ := accounted.represented second second_seen
  have at_first (unrecorded : first.isRecorded file = false) : answer = first.filePayload file :=
    answered.trans (answer_unrecorded unrecorded)
  have at_second (recorded : first.isRecorded file = true) (still : second.isRecorded file = true) :
      answer = second.filePayload file := answered.trans (answer_recorded recorded still)
  have torn (recorded : first.isRecorded file = true) (forgotten : second.isRecorded file = false) :
      answer = .ok (some .empty) := answered.trans (answer_forgotten held recorded forgotten)
  have explained (untorn : first.isRecorded file = true → second.isRecorded file = true) :
      ∃ tables ∈ seen, tables.filePayload file = answer := by
    cases recorded : first.isRecorded file with
    | false => exact ⟨first, first_seen, (at_first recorded).symm⟩
    | true => exact ⟨second, second_seen, (at_second recorded (untorn recorded)).symm⟩
  refine ⟨first_seen, second_seen, at_first, at_second, torn, ⟨?_, ?_⟩, ?_⟩
  · rintro ⟨tables, member, same⟩ ⟨recorded, forgotten, never_empty⟩
    exact never_empty tables member (same.trans (torn recorded forgotten))
  · intro possible
    by_cases untorn : first.isRecorded file = true → second.isRecorded file = true
    · exact explained untorn
    · obtain ⟨recorded, forgotten⟩ := Classical.not_imp.mp untorn
      rw [Bool.not_eq_true] at forgotten
      by_contra unexplained
      refine possible ⟨recorded, forgotten, fun tables member empty =>
        unexplained ⟨tables, member, ?_⟩⟩
      rw [empty, torn recorded forgotten]
  · intro kept
    have steady := read_steady file fits turns_fit kept
    rw [Scene.Steady, finished] at steady
    exact explained steady

end Reads

def replacedAmidst : List Turn := [.ask, .perform (.put 1 "a.php" "2" .empty), .ask]

def removedAmidst : List Turn := [.ask, .perform (.remove "a.php"), .ask]

theorem read_while_replaced :
    ∃ first second answer,
      ((Scene.after [.put 0 "a.php" "1" onePayload]).run "a.php" replacedAmidst).stage =
        .done first second answer ∧
      answer = second.filePayload "a.php" := by
  have turns_fit : ∀ operation, .perform operation ∈ replacedAmidst → operation.Fits := by
    simp only [replacedAmidst, List.mem_cons, reduceCtorEq, Turn.perform.injEq, List.not_mem_nil,
      or_false, false_or, forall_eq]
    decide
  have read :=
    read_among_operations [.put 0 "a.php" "1" onePayload] replacedAmidst "a.php" (by decide)
      turns_fit rfl
  exact ⟨_, _, _, rfl, read.2.2.2.1 rfl rfl⟩

/-- A file with a subscription that is removed while it is read has an empty payload for the reader,
although it had the subscription before and is not recorded after. -/
theorem read_while_removed :
    let scene := (Scene.after [.put 0 "a.php" "1" onePayload]).run "a.php" removedAmidst
    (∃ first second, scene.stage = .done first second (.ok (some .empty))) ∧
    ∀ tables ∈ scene.seen, tables.filePayload "a.php" ≠ .ok (some .empty) := by
  have put := represents_put represents_empty 0 "a.php" "1" onePayload (by decide)
  have removed := represents_remove put "a.php"
  constructor
  · let stored := Tables.empty.opened.put 0 "a.php" "1" onePayload
    have answered : Tables.filePayloadBetween stored (stored.remove "a.php") "a.php" =
        .ok (some .empty) :=
      answer_forgotten removed rfl rfl
    exact ⟨stored, stored.remove "a.php",
      congrArg (Stage.done stored (stored.remove "a.php")) answered⟩
  · intro tables member
    obtain same | same : tables = _ ∨ tables = _ := by
      simpa [Scene.after, Scene.start, Scene.run, removedAmidst, Scene.turn] using member
    · rw [same, performAll, performAll, Tables.perform, represents_file_payload put]
      decide
    · rw [same, performAll, performAll, Tables.perform, Tables.perform,
        represents_file_payload removed]
      decide

end HandlerIndex.Store
