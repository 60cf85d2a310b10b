import HandlerIndex.Proofs.EventTotals
import HandlerIndex.Proofs.VersionGate

/-!
Handles that share the tables of the event store. An operation is a list of commits, and the commits
of different handles fall between each other in any order; an operation may also stop after any of
its commits. The rows and the records agree on every file unless the two commits of an invalidation
were divided by storing the file, or one of them is missing. Left out are commits that fail halfway,
which the database takes back.
-/
namespace HandlerIndex.Store

-- Opening looks for the version first. What it has to commit depends on what it finds then.
inductive Work where
  | look
  | commit (left : List Commit)

def Operation.work : Operation → Work
  | .put now file hash payload => .commit [.put now file hash payload]
  | .remove file => .commit [.remove file]
  | .invalidate => .commit invalidation
  | .reopen => .look

inductive Move where
  | begin (handle : Nat) (operation : Operation)
  | go (handle : Nat)
  deriving DecidableEq

structure Shared where
  tables : Tables
  work : Nat → Work
  made : List Commit

namespace Shared

def new : Shared := ⟨.empty, fun _ => .commit [], []⟩

def goOn (shared : Shared) (handle : Nat) : Work → Shared
  | .look =>
    { shared with
      work := Function.update shared.work handle (.commit (opening shared.tables.version?)) }
  | .commit [] => shared
  | .commit (next :: left) =>
    { tables := shared.tables.apply next
      work := Function.update shared.work handle (.commit left)
      made := shared.made ++ [next] }

def move (shared : Shared) : Move → Shared
  | .begin handle operation =>
    { shared with work := Function.update shared.work handle operation.work }
  | .go handle => shared.goOn handle (shared.work handle)

def run (shared : Shared) (moves : List Move) : Shared := moves.foldl move shared

end Shared

/-- The rows and the records agree: every row belongs to a recorded file, and the count in a file's
record is the sum of the counts in its rows. -/
structure Tables.Agree (tables : Tables) : Prop where
  owned : Owned tables
  counted : ∀ file record, tables.fileRecord? file = some record →
    record.subscriptionCount.toUInt64.toNat = ((tables.rowsOf file).map Row.entries).sum

def Commit.Fits : Commit → Prop
  | .put _ _ _ payload => payload.Fits
  | _ => True

/-- Whether a commit decides alone what is stored of a file. -/
def Commit.Settles (file : String) : Commit → Prop
  | .put _ other _ _ => other = file
  | .remove other => other = file
  | .clearRows => False
  | .clearFiles => False
  | .startOver => True

/-- The file was stored, and since then just one of the tables was cleared, in which it had
something to lose. -/
def Torn (file : String) (made : List Commit) : Prop :=
  ∃ before now hash payload later,
    made = before ++ .put now file hash payload :: later ∧
      (∀ commit ∈ later, ¬commit.Settles file) ∧
      (.clearRows ∈ later ∧ .clearFiles ∉ later ∧ payload.subscriptionCount ≠ 0 ∨
        .clearFiles ∈ later ∧ .clearRows ∉ later ∧ payload.groups ≠ [])

/-- Commits in which nothing comes between the two of an invalidation. -/
inductive Undivided : List Commit → Prop
  | nothing : Undivided []
  | single {before : List Commit} (commit : Commit) : Undivided before → commit ≠ .clearRows →
    commit ≠ .clearFiles →
    Undivided (before ++ [commit])
  | invalidated {before : List Commit} : Undivided before → Undivided (before ++ invalidation)

/-! The tables, file by file. -/
section Files
variable {tables : Tables} {file : String} {commit : Commit}

def Tables.AgreeOn (tables : Tables) (file : String) : Prop :=
  match tables.fileRecord? file with
  | none => tables.rowsOf file = []
  | some record =>
    record.subscriptionCount.toUInt64.toNat = ((tables.rowsOf file).map Row.entries).sum

theorem agree_on_unrecorded (unrecorded : tables.fileRecord? file = none) :
    tables.AgreeOn file ↔ tables.rowsOf file = [] := by
  simp only [Tables.AgreeOn, unrecorded]

theorem agree_on_recorded {record : FileRecord} (recorded : tables.fileRecord? file = some record) :
    tables.AgreeOn file ↔ record.subscriptionCount.toUInt64.toNat =
      ((tables.rowsOf file).map Row.entries).sum := by
  simp only [Tables.AgreeOn, recorded]

theorem agree_iff (tables : Tables) : tables.Agree ↔ ∀ file, tables.AgreeOn file := by
  constructor
  · intro agree file
    cases found : tables.fileRecord? file with
    | none =>
      rw [agree_on_unrecorded found, Tables.rowsOf, List.filter_eq_nil_iff]
      intro row member here
      have recorded := agree.owned row member
      rw [Tables.isRecorded, beq_iff_eq.mp here, found] at recorded
      cases recorded
    | some record => exact (agree_on_recorded found).mpr (agree.counted file record found)
  · intro each
    refine ⟨?_, fun file record found => (agree_on_recorded found).mp (each file)⟩
    intro row member
    rw [Tables.isRecorded, Option.isSome_iff_ne_none]
    intro unrecorded
    have none_left := (agree_on_unrecorded unrecorded).mp (each row.file)
    exact List.filter_eq_nil_iff.mp none_left row member (beq_self_eq_true row.file)

/-- A part of the tables that storing and removing other files leave alone, and that one commit
clears. -/
theorem apply_view {View : Type} (view : Tables → View) {clearing : Commit} {blank : View}
    (put : ∀ now other hash payload, file ≠ other → clearing ≠ .put now other hash payload ∧
      view (tables.put now other hash payload) = view tables)
    (remove : ∀ other, file ≠ other →
      clearing ≠ .remove other ∧ view (tables.remove other) = view tables)
    (rows : view tables.clearRows = if .clearRows = clearing then blank else view tables)
    (files : view tables.clearFiles = if .clearFiles = clearing then blank else view tables)
    (spared : ¬commit.Settles file) :
    view (tables.apply commit) = if commit = clearing then blank else view tables := by
  cases commit with
  | put now other hash payload =>
    obtain ⟨different, kept⟩ := put now other hash payload (Ne.symm spared)
    rw [if_neg different.symm]
    exact kept
  | remove other =>
    obtain ⟨different, kept⟩ := remove other (Ne.symm spared)
    rw [if_neg different.symm]
    exact kept
  | clearRows => exact rows
  | clearFiles => exact files
  | startOver => exact absurd trivial spared

theorem apply_record (spared : ¬commit.Settles file) :
    (tables.apply commit).fileRecord? file = if commit = .clearFiles then none
    else tables.fileRecord? file :=
  apply_view (·.fileRecord? file)
    (fun now other hash payload different => ⟨by simp, by simp [different]⟩)
    (fun other different => ⟨by simp, by simp [different]⟩) rfl rfl spared

theorem apply_rows (spared : ¬commit.Settles file) :
    (tables.apply commit).rowsOf file = if commit = .clearRows then [] else tables.rowsOf file :=
  apply_view (·.rowsOf file)
    (fun now other hash payload different => ⟨by simp, by simp [different]⟩)
    (fun other different => ⟨by simp, by simp [different]⟩) rfl rfl spared

/-- What a commit clears is cleared by any commits among which it is. -/
theorem apply_all_view {View : Type} (view : Tables → View) {clearing : Commit} {blank : View}
    (step : ∀ tables commit, ¬commit.Settles file →
      view (tables.apply commit) = if commit = clearing then blank else view tables)
    {commits : List Commit} (spared : ∀ commit ∈ commits, ¬commit.Settles file) :
    view (tables.applyAll commits) = if clearing ∈ commits then blank else view tables := by
  induction commits generalizing tables with
  | nil => rfl
  | cons commit rest ih =>
    have later : view ((tables.apply commit).applyAll rest) = _ :=
      ih fun other member => spared other (List.mem_cons_of_mem _ member)
    rw [step tables commit (spared commit List.mem_cons_self)] at later
    rw [Tables.applyAll, List.foldl_cons, ← Tables.applyAll, later]
    by_cases here : commit = clearing
    · simp [here]
    · simp [here, Ne.symm here]

end Files

/-! One file in the course of the commits. -/
section Course
variable {tables : Tables} {file : String} {made : List Commit}

/-- Storing and removing files and starting over keep the agreement. -/
theorem apply_agrees (agree : tables.AgreeOn file) {commit : Commit} (fits : commit.Fits)
    (rows_kept : commit ≠ .clearRows) (files_kept : commit ≠ .clearFiles) :
    (tables.apply commit).AgreeOn file := by
  by_cases settled : commit.Settles file
  · cases commit with
    | put now other hash payload =>
      have same : other = file := settled
      have record : (tables.put now other hash payload).fileRecord? file =
          some ⟨file, hash, now, Int64.ofNat payload.subscriptionCount⟩ := by simp [same]
      rw [Tables.apply, agree_on_recorded record]
      simp only [Tables.rows_of_put, same, ↓reduceIte, payload_rows_entries file fits]
      exact count_of_word _ fits.count
    | remove other =>
      have same : other = file := settled
      rw [Tables.apply, agree_on_unrecorded (by simp [same])]
      simp [same]
    | clearRows => cases settled
    | clearFiles => cases settled
    | startOver => rfl
  · rw [Tables.AgreeOn, apply_record settled, apply_rows settled, if_neg files_kept,
      if_neg rows_kept]
    exact agree

@[simp] theorem apply_all_append (tables : Tables) (first second : List Commit) :
    tables.applyAll (first ++ second) = (tables.applyAll first).applyAll second :=
  List.foldl_append

theorem undivided_agrees (undivided : Undivided made) (fits : ∀ commit ∈ made, commit.Fits)
    (file : String) :
    (Tables.empty.applyAll made).AgreeOn file := by
  induction undivided with
  | nothing => rfl
  | single commit _ rows_kept files_kept ih =>
    rw [apply_all_append]
    exact apply_agrees (ih fun other member => fits other (List.mem_append_left _ member))
      (fits commit (by simp)) rows_kept files_kept
  | invalidated _ _ =>
    rw [apply_all_append]
    rfl

-- By induction on the commits from the last one backwards, up to the one that settled the file.
/-- A file of which anything is stored was put, and no commit has settled it since. -/
theorem absent_or_put (file : String) (made : List Commit) :
    (Tables.empty.applyAll made).fileRecord? file = none ∧
    (Tables.empty.applyAll made).rowsOf file = [] ∨
      ∃ before now hash payload later, made = before ++ .put now file hash payload :: later ∧
        ∀ commit ∈ later, ¬commit.Settles file := by
  induction made using List.reverseRecOn with
  | nil => exact .inl ⟨rfl, rfl⟩
  | append_singleton before commit ih =>
    have last : Tables.empty.applyAll (before ++ [commit]) =
        (Tables.empty.applyAll before).apply commit :=
      apply_all_append ..
    by_cases settled : commit.Settles file
    · cases commit with
      | put now other hash payload =>
        have same : other = file := settled
        exact .inr ⟨before, now, hash, payload, [], by rw [same], nofun⟩
      | remove other =>
        have same : other = file := settled
        left
        rw [last]
        simp [Tables.apply, same]
      | clearRows => cases settled
      | clearFiles => cases settled
      | startOver =>
        rw [last]
        exact .inl ⟨rfl, rfl⟩
    · rcases ih with ⟨record, rows⟩ | ⟨earlier, now, hash, payload, later, rfl, spared⟩
      · left
        rw [last, apply_record settled, apply_rows settled, record, rows, ite_self, ite_self]
        exact ⟨rfl, rfl⟩
      · refine .inr ⟨earlier, now, hash, payload, later ++ [commit], by simp, ?_⟩
        intro other member
        rcases List.mem_append.mp member with old | new
        · exact spared other old
        · rw [List.mem_singleton.mp new]
          exact settled

/-- What is left of a file that was put, after commits that did not settle it. -/
theorem put_course (before : List Commit) (now : Int64) (hash : String) (payload : Payload)
    {later : List Commit} (spared : ∀ commit ∈ later, ¬commit.Settles file) :
    let tables := Tables.empty.applyAll (before ++ .put now file hash payload :: later)
    (tables.fileRecord? file = if .clearFiles ∈ later then none
      else some ⟨file, hash, now, Int64.ofNat payload.subscriptionCount⟩) ∧
    tables.rowsOf file = if .clearRows ∈ later then [] else payloadRows file payload := by
  intro tables
  have stored : tables =
      ((Tables.empty.applyAll before).put now file hash payload).applyAll later :=
    apply_all_append ..
  have record := Tables.file_record_put (Tables.empty.applyAll before) now file hash payload file
  have rows := Tables.rows_of_put (Tables.empty.applyAll before) now file hash payload file
  rw [if_pos rfl] at record rows
  rw [stored, ← record, ← rows]
  exact ⟨apply_all_view (·.fileRecord? file) (fun _ _ => apply_record) spared,
    apply_all_view (·.rowsOf file) (fun _ _ => apply_rows) spared⟩

/-- A file that was put agrees unless one of the tables was cleared alone since then and the file
had something to lose in it. -/
theorem put_agrees_iff (before : List Commit) (now : Int64) (hash : String) {payload : Payload}
    (fits : payload.Fits) {later : List Commit} (spared : ∀ commit ∈ later, ¬commit.Settles file) :
    (Tables.empty.applyAll (before ++ .put now file hash payload :: later)).AgreeOn file ↔
      ¬(.clearRows ∈ later ∧ .clearFiles ∉ later ∧ payload.subscriptionCount ≠ 0 ∨
        .clearFiles ∈ later ∧ .clearRows ∉ later ∧ payload.groups ≠ []) := by
  obtain ⟨record, rows⟩ := put_course before now hash payload spared
  by_cases files_cleared : .clearFiles ∈ later
  · rw [if_pos files_cleared] at record
    rw [agree_on_unrecorded record, rows]
    by_cases rows_cleared : .clearRows ∈ later
    · simp [files_cleared, rows_cleared]
    · simp [files_cleared, rows_cleared, payloadRows]
  · rw [if_neg files_cleared] at record
    rw [agree_on_recorded record, rows, count_of_word _ fits.count]
    by_cases rows_cleared : .clearRows ∈ later
    · simp [files_cleared, rows_cleared]
    · simp [files_cleared, rows_cleared, fits]

theorem agree_on_iff_untorn (fits : ∀ commit ∈ made, commit.Fits) :
    (Tables.empty.applyAll made).AgreeOn file ↔ ¬Torn file made := by
  constructor
  · rintro agree ⟨before, now, hash, payload, later, rfl, spared, torn⟩
    have put_fits : payload.Fits := fits (.put now file hash payload) (by simp)
    exact (put_agrees_iff before now hash put_fits spared).mp agree torn
  · intro untorn
    rcases absent_or_put file made with ⟨record, rows⟩ |
        ⟨before, now, hash, payload, later, rfl, spared⟩
    · exact (agree_on_unrecorded record).mpr rows
    · have put_fits : payload.Fits := fits (.put now file hash payload) (by simp)
      refine (put_agrees_iff before now hash put_fits spared).mpr ?_
      exact fun torn => untorn ⟨before, now, hash, payload, later, rfl, spared, torn⟩

end Course

/-! What the handles do together. -/
section Moves

def Work.All (good : Commit → Prop) : Work → Prop
  | .look => True
  | .commit left => ∀ commit ∈ left, good commit

-- Starting over is what any open may come to, so it has to be good.
/-- The tables are what the commits made of them, and all commits are good, those to come as
well. -/
structure Shared.Traced (good : Commit → Prop) (shared : Shared) : Prop where
  tables : shared.tables = Tables.empty.applyAll shared.made
  made : ∀ commit ∈ shared.made, good commit
  work : ∀ handle, (shared.work handle).All good

variable {good : Commit → Prop} (start_over : good .startOver)
include start_over

theorem opening_good (found : Option Int64) : (Work.commit (opening found)).All good := by
  intro commit member
  rw [opening] at member
  split at member
  · cases member
  · rw [List.mem_singleton.mp member]
    exact start_over

theorem move_traced {shared : Shared} (traced : shared.Traced good) (move : Move)
    (begun : ∀ handle operation, move = .begin handle operation → operation.work.All good) :
    (shared.move move).Traced good := by
  have working (handle : Nat) (work : Work) (all : work.All good) (other : Nat) :
      (Function.update shared.work handle work other).All good := by
    by_cases same : other = handle
    · rw [same, Function.update_self]
      exact all
    · rw [Function.update_of_ne same]
      exact traced.work other
  cases move with
  | begin handle operation =>
    exact ⟨traced.tables, traced.made, working handle operation.work (begun handle operation rfl)⟩
  | go handle =>
    have work_good := traced.work handle
    rw [Shared.move]
    cases work : shared.work handle with
    | look => exact ⟨traced.tables, traced.made, working handle _ (opening_good start_over _)⟩
    | commit left =>
      rw [work] at work_good
      cases left with
      | nil => exact traced
      | cons next rest =>
        have rest_good : (Work.commit rest).All good := fun commit member =>
          work_good commit (List.mem_cons_of_mem next member)
        refine ⟨?_, ?_, working handle _ rest_good⟩
        · simp only [Shared.goOn, apply_all_append, ← traced.tables]
          rfl
        · intro commit member
          rcases List.mem_append.mp member with old | new
          · exact traced.made commit old
          · rw [List.mem_singleton.mp new]
            exact work_good next List.mem_cons_self

theorem run_traced (moves : List Move)
    (begun : ∀ handle operation, .begin handle operation ∈ moves → operation.work.All good) :
    (Shared.new.run moves).Traced good := by
  induction moves using List.reverseRecOn with
  | nil => exact ⟨rfl, nofun, fun _ => nofun⟩
  | append_singleton before move ih =>
    have last : Shared.new.run (before ++ [move]) = (Shared.new.run before).move move := by
      simp [Shared.run]
    rw [last]
    refine move_traced start_over (ih fun handle operation member =>
      begun handle operation (by simp [member])) move ?_
    exact fun handle operation same => begun handle operation (by simp [same])

end Moves

theorem undivided_of_all {made : List Commit}
    (kept : ∀ commit ∈ made, commit ≠ .clearRows ∧ commit ≠ .clearFiles) :
    Undivided made := by
  induction made using List.reverseRecOn with
  | nil => exact .nothing
  | append_singleton before commit ih =>
    obtain ⟨rows_kept, files_kept⟩ := kept commit (by simp)
    exact .single commit (ih fun other member => kept other (by simp [member])) rows_kept files_kept

theorem work_fits {operation : Operation} (fits : operation.Fits) :
    operation.work.All Commit.Fits := by
  cases operation with
  | put now file hash payload =>
    intro commit member
    rw [List.mem_singleton.mp member]
    exact fits
  | remove file => simp [Operation.work, Work.All, Commit.Fits]
  | invalidate => simp [Operation.work, Work.All, invalidation, Commit.Fits]
  | reopen => trivial

theorem work_kept {operation : Operation} (other : operation ≠ .invalidate) :
    operation.work.All fun commit => commit ≠ .clearRows ∧ commit ≠ .clearFiles := by
  cases operation with
  | put now file hash payload => simp [Operation.work, Work.All]
  | remove file => simp [Operation.work, Work.All]
  | invalidate => exact absurd rfl other
  | reopen => trivial

/-- Whatever handles do to the tables in turn, the rows and the records agree exactly if no file is
torn. They do if nothing came between the two commits of an invalidation, so in particular if there
was none. -/
theorem agreement_of_handles (moves : List Move)
    (fits : ∀ handle operation, .begin handle operation ∈ moves → operation.Fits) :
    let shared := Shared.new.run moves
    shared.tables = Tables.empty.applyAll shared.made ∧
    (shared.tables.Agree ↔ ∀ file, ¬Torn file shared.made) ∧
    (Undivided shared.made → shared.tables.Agree) ∧
    ((∀ handle, .begin handle .invalidate ∉ moves) → shared.tables.Agree) := by
  intro shared
  have traced : shared.Traced Commit.Fits :=
    run_traced trivial moves fun handle operation member => work_fits (fits handle operation member)
  have whole (undivided : Undivided shared.made) : shared.tables.Agree := by
    rw [agree_iff, traced.tables]
    exact undivided_agrees undivided traced.made
  refine ⟨traced.tables, ?_, whole, ?_⟩
  · rw [agree_iff, traced.tables]
    exact forall_congr' fun file => agree_on_iff_untorn traced.made
  · intro none_begun
    have kept : shared.Traced fun commit => commit ≠ .clearRows ∧ commit ≠ .clearFiles := by
      refine run_traced (by simp) moves fun handle operation member => work_kept ?_
      intro same
      exact none_begun handle (same ▸ member)
    exact whole (undivided_of_all kept.made)

def bothOpen : List Move := [.begin 0 .reopen, .begin 1 .reopen, .go 0, .go 1, .go 0, .go 1]

def storedAgain : List Move :=
  bothOpen ++ [.begin 0 (.put 0 "a.php" "1" onePayload), .go 0, .begin 0 .invalidate, .go 0, .go 0,
    .begin 1 (.put 1 "a.php" "1" onePayload), .go 1]

def cutOff : List Move :=
  bothOpen ++ [.begin 0 (.put 0 "a.php" "1" onePayload), .go 0, .begin 0 .invalidate, .go 0]

def cameBetween : List Move :=
  bothOpen ++ [.begin 0 .invalidate, .go 0, .begin 1 (.put 0 "a.php" "1" onePayload), .go 1, .go 0]

theorem stored_again_agrees :
    (∀ handle operation, .begin handle operation ∈ storedAgain → operation.Fits) ∧
      (Shared.new.run storedAgain).tables.Agree := by
  have fits : ∀ handle operation, .begin handle operation ∈ storedAgain → operation.Fits := by
    intro handle operation member
    simp only [storedAgain, bothOpen, List.cons_append, List.nil_append, List.mem_cons,
      List.not_mem_nil, or_false, reduceCtorEq, false_or, Move.begin.injEq] at member
    rcases member with ⟨_, rfl⟩ | ⟨_, rfl⟩ | ⟨_, rfl⟩ | ⟨_, rfl⟩ | ⟨_, rfl⟩ <;> decide
  have made : (Shared.new.run storedAgain).made = (([] ++ [.startOver] ++ [.startOver]) ++
      [.put 0 "a.php" "1" onePayload] ++ invalidation) ++ [.put 1 "a.php" "1" onePayload] := by
        decide
  refine ⟨fits, (agreement_of_handles storedAgain fits).2.2.1 ?_⟩
  rw [made]
  refine .single _
    (.invalidated (.single _ (.single _ (.single _ .nothing ?_ ?_) ?_ ?_) ?_ ?_)) ?_ ?_ <;> decide

/-- The rows and the records disagree if an invalidation is cut off, which leaves a record without
its rows, and if a file is stored in the midst of one, which leaves rows without a record. -/
theorem divided_invalidation_disagrees :
    (¬(Shared.new.run cutOff).tables.Agree ∧
      (Shared.new.run cutOff).tables.needsReindex "a.php" "1" = false ∧
      (Shared.new.run cutOff).tables.filePayload "a.php" = .ok (some .empty)) ∧
    ¬(Shared.new.run cameBetween).tables.Agree ∧
      (Shared.new.run cameBetween).tables.isRecorded "a.php" = false ∧
      (Shared.new.run cameBetween).tables.lookup "E" =
        .ok [("a.php", ⟨"E.s", "E", "s", "T.h"⟩)] := by
  refine ⟨⟨?_, by decide, ?_⟩, ?_, by decide, ?_⟩
  · intro agree
    have counted := agree.counted "a.php" ⟨"a.php", "1", 0, 1⟩ (by decide)
    revert counted
    decide
  · have no_rows : (Shared.new.run cutOff).tables.rowsOf "a.php" = [] := by decide
    have groups := stored_groups_of_rows "a.php" .empty ⟨by decide, nofun⟩ no_rows
    have found : (Shared.new.run cutOff).tables.fileRecord? "a.php" =
        some ⟨"a.php", "1", 0, 1⟩ := by decide
    simp only [Tables.filePayload, Tables.filePayloadBetween, found, groups]
    rfl
  · intro agree
    have recorded := agree.owned (eventRow "E" ("a.php", [⟨"E.s", "E", "s", "T.h"⟩])) (by decide)
    revert recorded
    decide
  · have rows : (Shared.new.run cameBetween).tables.rows.filter (·.event == "E") =
        [eventRow "E" ("a.php", [⟨"E.s", "E", "s", "T.h"⟩])] := by decide
    rw [Tables.lookup, Tables.valuesFor, Tables.eventRows, rows, List.mergeSort_singleton]
    decide +kernel

end HandlerIndex.Store
