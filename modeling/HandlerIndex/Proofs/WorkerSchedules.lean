import HandlerIndex.Proofs.FileProspects
import Mathlib.Tactic.Abel

/-!
Workers of the index service who index files together do what one worker does alone. No two of them
have claimed the same file, and a step changes neither what will come of the file that its worker
has claimed nor what the tables hold of another. So the order of the steps leaves no trace but the
times at which files were stored. Left out are workers that never start, and disks that change
during a run.
-/
namespace HandlerIndex.Workspace
open Store (Tables Share Replaces SameButTimes)

def Task.counted : Task → Stats
  | .countOutcome _ outcome => Stats.addSubscriptions 0 outcome
  | _ => 0

/-- A bound on the steps until the worker has finished its file and sees that there are no more. -/
def Task.rank : Task → Nat
  | .read _ => 7
  | .check _ _ => 6
  | .load _ _ => 5
  | .store _ _ => 4
  | .addSubscriptions _ _ => 3
  | .countOutcome _ _ => 2
  | .countFailure _ => 2
  | .claim => 1
  | .finished => 0

section Moves
variable (index : Index) (disk : Disk) (files : List String) (worker : Nat) (shared : Shared)

/-- All that a step can do: claim a file, find that none is left, work on a file or be done with
it. -/
inductive Move : Task → Task → Shared → Prop
  | claimed {file : String} (found : files[shared.next]? = some file) :
      Move .claim (.read file) { shared with next := shared.next + 1 }
  | ended (left : files[shared.next]? = none) :
    Move .claim .finished { shared with next := shared.next + 1 }
  | worked {task further : Task} {file : String} {share : Share} {tables : Tables} {gain : Stats}
      (here : task.file? = some file) (still : further.file? = some file)
      (replaces : Replaces file share shared.tables tables)
      (kept : further.prospect index disk tables = task.prospect index disk shared.tables)
      (counted : further.counted = task.counted + gain) (nearer : further.rank < task.rank) :
      Move task further { shared with tables := tables, stats := shared.stats + gain }
  | handled {task : Task} {file : String} {gain : Stats} (here : task.file? = some file)
      (settled : shared.tables.share file = (task.prospect index disk shared.tables).2)
      (counted : tally (task.prospect index disk shared.tables).1 = task.counted + gain)
      (nearer : Task.claim.rank < task.rank) :
      Move task .claim (shared.count (shared.stats + gain) worker file)

variable {index disk files worker shared}

theorem Move.looked {task further : Task} {file : String} (here : task.file? = some file)
    (still : further.file? = some file)
    (kept : further.prospect index disk shared.tables = task.prospect index disk shared.tables)
    (counted : further.counted = task.counted) (nearer : further.rank < task.rank) :
    Move index disk files worker shared task further shared := by
  have move : Move index disk files worker shared task further
      { shared with stats := shared.stats + 0 } :=
    .worked here still (Store.replaces_nothing shared.tables file) kept
      (by rw [counted, add_zero]) nearer
  rwa [add_zero] at move

def Task.Moves (index : Index) (disk : Disk) (files : List String) (worker : Nat) (now : Int64)
    (shared : Shared) (task : Task) : Prop :=
  ∃ further after, task.step index disk files worker now shared = some (further, after) ∧
    Move index disk files worker shared task further after

variable {now : Int64}

theorem claim_moves : Task.claim.Moves index disk files worker now shared := by
  cases found : files[shared.next]? with
  | some file =>
    refine ⟨.read file, { shared with next := shared.next + 1 }, ?_, .claimed found⟩
    unfold Task.step
    simp only [found]
  | none =>
    refine ⟨.finished, { shared with next := shared.next + 1 }, ?_, .ended found⟩
    unfold Task.step
    simp only [found]

/-- A task that only looks leaves everything shared as it was, and the next one promises the
same. -/
theorem moves_by_looking {task : Task} (further : Task) {file : String}
    (stepped : task.step index disk files worker now shared = some (further, shared))
    (kept : further.prospect index disk shared.tables = task.prospect index disk shared.tables)
    (here : task.file? = some file) (still : further.file? = some file)
    (counted : further.counted = task.counted) (nearer : further.rank < task.rank) :
    task.Moves index disk files worker now shared :=
  ⟨further, shared, stepped, .looked here still kept counted nearer⟩

theorem read_moves (file : String) : (Task.read file).Moves index disk files worker now shared := by
  cases read : disk.readText (index.resolve file) with
  | ok content =>
    refine moves_by_looking (.check file (index.source content)) ?_ ?_ rfl rfl rfl
      (by simp [Task.rank])
    · unfold Task.step
      simp only [read]
    · unfold Task.prospect Index.ifRead
      simp only [read]
  | error fault =>
    refine moves_by_looking (.countFailure file) ?_ ?_ rfl rfl rfl (by simp [Task.rank])
    · unfold Task.step
      simp only [read]
    · unfold Task.prospect Index.ifRead
      simp only [read]

theorem check_moves (file : String) (source : Source) :
    (Task.check file source).Moves index disk files worker now shared := by
  by_cases changed : shared.tables.needsReindex file (index.fingerprint source) = true
  · refine moves_by_looking (.store file source) ?_ ?_ rfl rfl rfl (by simp [Task.rank])
    · unfold Task.step
      simp only [if_pos changed]
    · simp only [Task.prospect, Index.ifChecked, if_pos changed]
  · refine moves_by_looking (.load file source) ?_ ?_ rfl rfl rfl (by simp [Task.rank])
    · unfold Task.step
      simp only [if_neg changed]
    · simp only [Task.prospect, Index.ifChecked, if_neg changed]

theorem load_moves (file : String) (source : Source) :
    (Task.load file source).Moves index disk files worker now shared := by
  cases loaded : shared.tables.filePayload file with
  | error fault =>
    refine moves_by_looking (.countFailure file) ?_ ?_ rfl rfl rfl (by simp [Task.rank])
    · unfold Task.step
      simp only [loaded]
    · unfold Task.prospect Index.ifLoaded
      simp only [loaded]
  | ok found =>
    cases found with
    | none =>
      refine moves_by_looking (.store file source) ?_ ?_ rfl rfl rfl (by simp [Task.rank])
      · unfold Task.step
        simp only [loaded]
      · unfold Task.prospect Index.ifLoaded
        simp only [loaded]
    | some payload =>
      refine moves_by_looking (.addSubscriptions file (.unchanged payload)) ?_ ?_ rfl rfl rfl
        (by simp [Task.rank])
      · unfold Task.step
        simp only [loaded]
      · unfold Task.prospect Index.ifLoaded
        simp only [loaded]

theorem store_moves (file : String) (source : Source) :
    (Task.store file source).Moves index disk files worker now shared := by
  have replaces :=
    Store.replaces_put shared.tables now file (index.fingerprint source) source.payload
  have move : Move index disk files worker shared (.store file source)
      (.addSubscriptions file (.indexed source.payload)) { shared with
        tables := shared.tables.put now file (index.fingerprint source) source.payload
        stats := shared.stats + 0 } :=
    .worked rfl rfl replaces (congrArg _ replaces.here) (add_zero _).symm (by simp [Task.rank])
  rw [add_zero] at move
  exact ⟨_, _, rfl, move⟩

theorem add_subscriptions_moves (file : String) (outcome : Outcome) :
    (Task.addSubscriptions file outcome).Moves index disk files worker now shared := by
  refine ⟨_, _, rfl, ?_⟩
  rw [add_subscriptions_eq]
  exact .worked rfl rfl (Store.replaces_nothing shared.tables file) rfl (zero_add _).symm
    (by simp [Task.rank])

theorem count_outcome_moves (file : String) (outcome : Outcome) :
    (Task.countOutcome file outcome).Moves index disk files worker now shared := by
  refine ⟨_, _, rfl, ?_⟩
  rw [count_outcome_eq]
  exact .handled rfl rfl rfl (by simp [Task.rank])

theorem count_failure_moves (file : String) :
    (Task.countFailure file).Moves index disk files worker now shared := by
  refine ⟨_, _, rfl, ?_⟩
  rw [count_failure_eq]
  exact .handled rfl rfl (zero_add _).symm (by simp [Task.rank])

theorem moves_of_unfinished {task : Task} (unfinished : task ≠ .finished) :
    task.Moves index disk files worker now shared := by
  cases task with
  | claim => exact claim_moves
  | read file => exact read_moves file
  | check file source => exact check_moves file source
  | load file source => exact load_moves file source
  | store file source => exact store_moves file source
  | addSubscriptions file outcome => exact add_subscriptions_moves file outcome
  | countOutcome file outcome => exact count_outcome_moves file outcome
  | countFailure file => exact count_failure_moves file
  | finished => exact absurd rfl unfinished

theorem step_moves {task further : Task} {after : Shared}
    (stepped : task.step index disk files worker now shared = some (further, after)) :
    Move index disk files worker shared task further after := by
  have unfinished : task ≠ .finished := by
    rintro rfl
    cases stepped
  obtain ⟨next, shared_after, same, move⟩ := moves_of_unfinished unfinished
  rw [stepped] at same
  cases same
  exact move

end Moves

/-! One step of a pool. -/

section Steps
variable {index : Index} {disk : Disk} {files : List String} {shared : Shared}
  {before rest : List Task} {task further : Task} {worker : Nat} {stats : Stats} {tables : Tables}

theorem split_at {items : List Task} {place : Nat} {item : Task}
    (found : items[place]? = some item) :
    ∃ before rest, items = before ++ item :: rest ∧ before.length = place ∧
      ∀ other, items.set place other = before ++ other :: rest := by
  induction items generalizing place with
  | nil => cases found
  | cons first items ih =>
    cases place with
    | zero =>
      obtain rfl : first = item := Option.some.inj found
      exact ⟨[], items, rfl, rfl, fun _ => rfl⟩
    | succ place =>
      obtain ⟨before, rest, rfl, length, set⟩ := ih found
      refine ⟨first :: before, rest, rfl, congrArg (· + 1) length, fun other => ?_⟩
      rw [List.set_cons_succ, set, List.cons_append]

theorem step_cases {pool after : Pool} {now : Int64}
    (stepped : pool.step? index disk files worker now = some after) :
    ∃ before task rest further, pool.tasks = before ++ task :: rest ∧ before.length = worker ∧
      Move index disk files worker pool.shared task further after.shared ∧
      after.tasks = before ++ further :: rest := by
  simp only [Pool.step?, Option.bind_eq_bind, Option.bind_eq_some_iff] at stepped
  obtain ⟨task, found, ⟨further, shared⟩, moved, made⟩ := stepped
  obtain ⟨before, rest, tasks, length, set⟩ := split_at found
  cases made
  exact ⟨before, task, rest, further, tasks, length, step_moves moved, set further⟩

theorem held_split : Pool.held ⟨shared, before ++ task :: rest⟩ =
    before.filterMap Task.file? ++ (task.file?.toList ++ rest.filterMap Task.file?) := by
  cases here : task.file? <;> simp [Pool.held, here]

/-- Every file is claimed, or handled, or still to be claimed, and only one of these, once. -/
def Pool.Places (files : List String) (pool : Pool) : Prop :=
  (pool.held ++ (pool.handled ++ files.drop pool.shared.next)).Perm files

theorem Move.places {after : Shared} (move : Move index disk files worker shared task further after)
    (places : Pool.Places files ⟨shared, before ++ task :: rest⟩) :
    Pool.Places files ⟨after, before ++ further :: rest⟩ := by
  unfold Pool.Places at places ⊢
  rw [held_split] at places ⊢
  refine List.Perm.trans ?_ places
  -- A step takes a file from one of the three lists to the next, so no file is counted more or less
  -- often.
  rw [List.perm_iff_count]
  intro name
  cases move with
  | claimed found =>
    obtain ⟨bound, found⟩ := List.getElem?_eq_some_iff.mp found
    rw [List.drop_eq_getElem_cons bound, found]
    simp only [Pool.handled, Task.file?, Option.toList, List.count_append, List.count_cons,
      List.count_nil]
    omega
  | ended left =>
    have bound := List.getElem?_eq_none_iff.mp left
    rw [List.drop_eq_nil_of_le bound, List.drop_eq_nil_of_le (Nat.le_succ_of_le bound)]
    rfl
  | worked here still =>
    rw [here, still]
    rfl
  | handled here =>
    rw [here, show Task.claim.file? = none from rfl]
    simp only [Pool.handled, Shared.count, Option.toList, List.map_append, List.map_cons,
      List.map_nil, List.count_append, List.count_cons, List.count_nil]
    omega

theorem claimed_once (distinct : files.Nodup)
    (places : Pool.Places files ⟨shared, before ++ task :: rest⟩) {file : String}
    (here : task.file? = some file) :
    file ∉ before.filterMap Task.file? ∧ file ∉ rest.filterMap Task.file? ∧
      file ∉ shared.handled.map Prod.snd := by
  have once := places.nodup_iff.mpr distinct
  rw [held_split, here] at once
  simp only [Pool.handled, Option.toList, List.nodup_append, List.nodup_cons, List.mem_append,
    List.mem_cons] at once
  grind

theorem unclaimed {pool : Pool} (distinct : files.Nodup) (places : pool.Places files)
    {file : String} (next : files[pool.shared.next]? = some file) :
    file ∉ pool.held ∧ file ∉ pool.handled := by
  obtain ⟨bound, found⟩ := List.getElem?_eq_some_iff.mp next
  have once := places.nodup_iff.mpr distinct
  rw [List.drop_eq_getElem_cons bound, found] at once
  simp only [List.nodup_append, List.nodup_cons, List.mem_append, List.mem_cons] at once
  grind

structure Pool.Accounted (index : Index) (disk : Disk) (files : List String) (stats : Stats)
    (tables : Tables) (pool : Pool) : Prop where
  places : pool.Places files
  versions : pool.shared.tables.versions = tables.versions
  pending : ∀ task ∈ pool.tasks, ∀ file, task.file? = some file →
    task.prospect index disk pool.shared.tables = index.ifRead disk tables file
  settled : ∀ file ∈ pool.handled, pool.shared.tables.share file = (index.ifRead disk tables file).2
  untouched : ∀ file, file ∉ pool.held → file ∉ pool.handled →
    pool.shared.tables.share file = tables.share file
  counted : pool.shared.stats =
    stats + (pool.handled.map fun file => tally (index.ifRead disk tables file).1).sum +
      (pool.tasks.map Task.counted).sum

/-- A step leaves alone what the tables hold of any file but the one that its worker has claimed. -/
theorem Move.elsewhere {after : Shared}
    (move : Move index disk files worker shared task further after) {other : String}
    (apart : task.file? ≠ some other) : after.tables.share other = shared.tables.share other := by
  cases move with
  | claimed => rfl
  | ended => rfl
  | worked here still replaces =>
    apply replaces.elsewhere
    rintro rfl
    exact apart here
  | handled => rfl

section Kept
variable {after : Shared} (move : Move index disk files worker shared task further after)
  (accounted : Pool.Accounted index disk files stats tables ⟨shared, before ++ task :: rest⟩)
include move accounted

-- No other worker has claimed the file of this step, so the step does not change what the others'
-- files depend on.
theorem Move.pending_others (distinct : files.Nodup) {other : Task}
    (member : other ∈ before ++ rest) {file : String} (claimed : other.file? = some file) :
    other.prospect index disk after.tables = index.ifRead disk tables file := by
  have apart : task.file? ≠ some file := by
    intro here
    obtain ⟨not_before, not_rest, -⟩ := claimed_once distinct accounted.places here
    rcases List.mem_append.mp member with early | late
    · exact not_before (List.mem_filterMap.mpr ⟨other, early, claimed⟩)
    · exact not_rest (List.mem_filterMap.mpr ⟨other, late, claimed⟩)
  rw [prospect_congr index disk (move.elsewhere apart) claimed]
  apply accounted.pending other _ file claimed
  rcases List.mem_append.mp member with early | late
  · exact List.mem_append_left _ early
  · exact List.mem_append_right _ (List.mem_cons_of_mem _ late)

theorem Move.pending (distinct : files.Nodup) {file : String}
    (claimed : further.file? = some file) :
    further.prospect index disk after.tables = index.ifRead disk tables file := by
  cases move with
  | claimed found =>
    obtain ⟨free, fresh⟩ := unclaimed distinct accounted.places found
    cases claimed
    exact if_read_congr index disk (accounted.untouched _ free fresh)
  | ended => cases claimed
  | worked here still replaces kept =>
    rw [kept]
    exact accounted.pending task (by simp) file (by rw [here, ← still, claimed])
  | handled => cases claimed

theorem Move.settled (distinct : files.Nodup) {file : String}
    (done : file ∈ after.handled.map Prod.snd) :
    after.tables.share file = (index.ifRead disk tables file).2 := by
  cases move with
  | claimed => exact accounted.settled file done
  | ended => exact accounted.settled file done
  | worked here still replaces =>
    rw [replaces.elsewhere]
    · exact accounted.settled file done
    · rintro rfl
      exact (claimed_once distinct accounted.places here).2.2 done
  | @handled _ name _ here settled =>
    simp only [Shared.count, List.map_append, List.mem_append, List.map_cons, List.map_nil,
      List.mem_singleton] at done
    rcases done with old | rfl
    · exact accounted.settled file old
    · rw [← accounted.pending task (by simp) file here, ← settled]
      rfl

theorem Move.untouched {file : String}
    (free : file ∉ Pool.held ⟨after, before ++ further :: rest⟩)
    (fresh : file ∉ after.handled.map Prod.snd) :
    after.tables.share file = tables.share file := by
  rw [held_split] at free
  have kept := accounted.untouched file
  rw [held_split] at kept
  cases move with
  | claimed found =>
    apply kept _ fresh
    intro held
    rcases List.mem_append.mp held with early | late
    · exact free (List.mem_append_left _ early)
    · exact free (List.mem_append_right _ (List.mem_cons_of_mem _ late))
  | ended => exact kept free fresh
  | worked here still replaces =>
    rw [still] at free
    rw [replaces.elsewhere (by rintro rfl; simp at free)]
    exact kept (by rwa [here]) fresh
  | handled here =>
    rw [here] at kept
    simp only [Shared.count, List.map_append, List.mem_append, not_or] at fresh
    apply kept _ fresh.1
    intro held
    rcases List.mem_append.mp held with early | late
    · exact free (List.mem_append_left _ early)
    · rcases List.mem_cons.mp late with same | late
      · exact fresh.2 (List.mem_singleton.mpr same)
      · exact free (List.mem_append_right _ late)

theorem Move.counted :
    after.stats = stats +
      ((after.handled.map Prod.snd).map fun file => tally (index.ifRead disk tables file).1).sum +
      ((before ++ further :: rest).map Task.counted).sum := by
  have counted := accounted.counted
  simp only [Pool.handled, List.map_append, List.map_cons, List.sum_append, List.sum_cons]
    at counted ⊢
  cases move with
  | claimed => exact counted
  | ended => exact counted
  | worked here still replaces kept gained =>
    simp only [counted, gained]
    abel
  | @handled _ file _ here settled gained =>
    rw [accounted.pending task (by simp) file here] at gained
    rw [show Task.claim.counted = 0 from rfl]
    simp only [Shared.count, counted, List.map_append, List.sum_append, List.map_cons, List.map_nil,
      List.sum_cons, List.sum_nil, gained]
    abel

end Kept

theorem step_accounted {pool after : Pool} {now : Int64} (distinct : files.Nodup)
    (accounted : pool.Accounted index disk files stats tables)
    (stepped : pool.step? index disk files worker now = some after) :
    after.Accounted index disk files stats tables := by
  obtain ⟨shared, tasks⟩ := pool
  obtain ⟨shared_after, tasks_after⟩ := after
  obtain ⟨before, task, rest, further, rfl, -, move, rfl⟩ := step_cases stepped
  refine ⟨move.places accounted.places, ?_, ?_, ?_, ?_, move.counted accounted⟩
  · cases move with
    | worked here still replaces => exact replaces.versions.trans accounted.versions
    | _ => exact accounted.versions
  · intro other member file claimed
    rcases List.mem_append.mp member with early | late
    · exact move.pending_others accounted distinct (List.mem_append_left _ early) claimed
    · rcases List.mem_cons.mp late with rfl | late
      · exact move.pending accounted distinct claimed
      · exact move.pending_others accounted distinct (List.mem_append_right _ late) claimed
  · exact fun file done => move.settled accounted distinct done
  · exact fun file free fresh => move.untouched accounted free fresh

/-- A bound on the steps that a pool can still take. -/
def Pool.remaining (files : List String) (pool : Pool) : Nat :=
  (pool.tasks.map Task.rank).sum + 7 * (files.length - pool.shared.next)

theorem step_remaining {pool after : Pool} {now : Int64}
    (stepped : pool.step? index disk files worker now = some after) :
    after.remaining files < pool.remaining files := by
  obtain ⟨before, task, rest, further, tasks, -, move, tasks_after⟩ := step_cases stepped
  simp only [Pool.remaining, tasks, tasks_after, List.map_append, List.map_cons, List.sum_append,
    List.sum_cons]
  generalize after.shared = shared_after at move
  cases move with
  | claimed found =>
    obtain ⟨bound, -⟩ := List.getElem?_eq_some_iff.mp found
    simp only [Task.rank]
    omega
  | ended =>
    simp only [Task.rank]
    omega
  | worked here still replaces kept counted nearer =>
    dsimp only
    omega
  | handled here settled counted nearer =>
    simp only [Shared.count]
    omega

/-- There are as many workers as at the start, those who have finished found no file left, and those
who have handled a file are among them. -/
structure Pool.Orderly (files : List String) (workers : Nat) (pool : Pool) : Prop where
  size : pool.tasks.length = workers
  ended : .finished ∈ pool.tasks → files.length ≤ pool.shared.next
  known : ∀ entry ∈ pool.shared.handled, entry.1 < workers

theorem finished_before (going : further ≠ .finished)
    (finished : .finished ∈ before ++ further :: rest) :
    .finished ∈ before ++ task :: rest := by
  rcases List.mem_append.mp finished with early | late
  · exact List.mem_append_left _ early
  · rcases List.mem_cons.mp late with rfl | late
    · exact absurd rfl going
    · exact List.mem_append_right _ (List.mem_cons_of_mem _ late)

theorem step_orderly {pool after : Pool} {workers : Nat} {now : Int64}
    (orderly : pool.Orderly files workers)
    (stepped : pool.step? index disk files worker now = some after) :
    after.Orderly files workers := by
  obtain ⟨shared, tasks⟩ := pool
  obtain ⟨shared_after, tasks_after⟩ := after
  obtain ⟨before, task, rest, further, rfl, place, move, rfl⟩ := step_cases stepped
  obtain ⟨size, ended, known⟩ := orderly
  simp only [List.length_append, List.length_cons] at size
  refine ⟨by simpa using size, ?_, ?_⟩
  · intro finished
    cases move with
    | claimed found => exact Nat.le_succ_of_le (ended (finished_before (by simp) finished))
    | ended left => exact Nat.le_succ_of_le (List.getElem?_eq_none_iff.mp left)
    | worked here still =>
      apply ended (finished_before _ finished)
      rintro rfl
      cases still
    | handled here => exact ended (finished_before (by simp) finished)
  · cases move with
    | handled here =>
      intro entry member
      rcases List.mem_append.mp member with old | new
      · exact known entry old
      · rw [List.mem_singleton.mp new]
        dsimp only
        omega
    | _ => exact known

end Steps

/-! Whole runs. -/

section Runs
variable {index : Index} {disk : Disk} {files : List String}

theorem run_keeps {Inv : Pool → Prop}
    (step : ∀ {pool after : Pool} {worker : Nat} {now : Int64}, Inv pool →
      pool.step? index disk files worker now = some after → Inv after)
    {schedule : List (Nat × Int64)} {pool after : Pool} (start : Inv pool)
    (ran : pool.run? index disk files schedule = some after) : Inv after := by
  let inv (pool : Pool) (_ : List (Nat × Int64)) : Prop := Inv pool
  have each : ∀ pool turn rest after, inv pool (turn :: rest) →
      pool.step? index disk files turn.1 turn.2 = some after → inv after rest :=
    fun _ _ _ _ here stepped => step here stepped
  exact run_invariant each start ran

theorem run_remaining {schedule : List (Nat × Int64)} {pool after : Pool}
    (ran : pool.run? index disk files schedule = some after) :
    schedule.length + after.remaining files ≤ pool.remaining files := by
  induction schedule generalizing pool with
  | nil =>
    cases ran
    simp
  | cons turn rest ih =>
    obtain ⟨middle, stepped, ran⟩ := Option.bind_eq_some_iff.mp ran
    have nearer := step_remaining stepped
    have further := ih ran
    rw [List.length_cons]
    omega

theorem start_accounted (workers : Nat) (stats : Stats) (tables : Tables) :
    (Pool.start workers stats tables).Accounted index disk files stats tables := by
  have idle : ∀ task ∈ (Pool.start workers stats tables).tasks, task = .claim :=
    fun task member => List.eq_of_mem_replicate member
  have held : (Pool.start workers stats tables).held = [] := by
    apply List.filterMap_eq_nil_iff.mpr
    intro task member
    rw [idle task member]
    rfl
  refine ⟨?_, rfl, ?_, ?_, fun _ _ _ => rfl, ?_⟩
  · rw [Pool.Places, held]
    exact List.Perm.refl files
  · intro task member file claimed
    rw [idle task member] at claimed
    cases claimed
  · intro file done
    cases done
  · simp [Pool.start, Pool.handled, Task.counted]

theorem start_orderly (workers : Nat) (stats : Stats) (tables : Tables) :
    (Pool.start workers stats tables).Orderly files workers := by
  refine ⟨List.length_replicate, ?_, ?_⟩
  · intro finished
    cases List.eq_of_mem_replicate finished
  · intro entry member
    cases member

theorem start_remaining (workers : Nat) (stats : Stats) (tables : Tables) :
    (Pool.start workers stats tables).remaining files = workers + 7 * files.length := by
  simp [Pool.remaining, Pool.start, Task.rank]

/-- A worker that has not finished can always take a step. -/
theorem can_step (index : Index) (disk : Disk) (files : List String) {task : Task}
    (going : task ≠ .finished) (worker : Nat) (now : Int64) (shared : Shared) :
    (task.step index disk files worker now shared).isSome = true := by
  unfold Task.step
  cases task with
  | claim =>
    dsimp only
    cases files[shared.next]? <;> rfl
  | read file =>
    dsimp only
    cases disk.readText (index.resolve file) <;> rfl
  | check file source =>
    dsimp only
    cases shared.tables.needsReindex file (index.fingerprint source) <;> rfl
  | load file source =>
    dsimp only
    rcases shared.tables.filePayload file with fault | (_ | payload) <;> rfl
  | store => rfl
  | addSubscriptions => rfl
  | countOutcome => rfl
  | countFailure => rfl
  | finished => exact absurd rfl going

theorem done_or_can_step (index : Index) (disk : Disk) (files : List String) (pool : Pool) :
    pool.Done ∨ ∃ worker < pool.tasks.length, ∀ now,
      (pool.step? index disk files worker now).isSome = true := by
  by_cases done : pool.Done
  · exact .inl done
  · right
    obtain ⟨task, member, going⟩ : ∃ task ∈ pool.tasks, task ≠ .finished := by
      simpa [Pool.Done] using done
    obtain ⟨worker, bound, found⟩ := List.mem_iff_getElem.mp member
    refine ⟨worker, bound, fun now => ?_⟩
    obtain ⟨result, stepped⟩ := Option.isSome_iff_exists.mp
      (can_step index disk files going worker now pool.shared)
    simp [Pool.step?, List.getElem?_eq_getElem bound, found, stepped]

theorem filter_once {handled : List (Nat × String)} (distinct : (handled.map Prod.snd).Nodup)
    {entry : Nat × String} (member : entry ∈ handled) :
    handled.filter (·.2 == entry.2) = [entry] := by
  induction handled with
  | nil => cases member
  | cons first rest ih =>
    obtain ⟨apart, distinct⟩ := List.nodup_cons.mp distinct
    rcases List.mem_cons.mp member with rfl | later
    · have none : rest.filter (·.2 == entry.2) = [] := by
        apply List.filter_eq_nil_iff.mpr
        intro other member same
        exact apart (List.mem_map.mpr ⟨other, member, by simpa using same⟩)
      simp [none]
    · have other : ¬first.2 = entry.2 := by
        intro same
        exact apart (List.mem_map.mpr ⟨entry, later, same.symm⟩)
      simp [other, ih distinct later]

end Runs

theorem held_of_done {pool : Pool} (done : pool.Done) : pool.held = [] := by
  apply List.filterMap_eq_nil_iff.mpr
  intro task member
  rw [done task member]
  rfl

theorem counted_of_done {pool : Pool} (done : pool.Done) :
    (pool.tasks.map Task.counted).sum = 0 := by
  apply List.sum_eq_zero
  intro part member
  obtain ⟨task, there, rfl⟩ := List.mem_map.mp member
  rw [done task there]
  rfl

/-- Whatever the order of the steps, no file is lost or claimed twice, the steps come to an end, and
then one worker has handled each file, once, and the statistics and the tables are those of the
files one after another. -/
theorem schedules_agree (index : Index) (disk : Disk) (files : List String) (distinct : files.Nodup)
    (workers : Nat) (staffed : 0 < workers) (stats : Stats) (tables : Tables)
    (schedule : List (Nat × Int64)) (pool : Pool)
    (ran : (Pool.start workers stats tables).run? index disk files schedule = some pool)
    (now : Int64) :
    let alone := files.foldl (index.indexNext disk now) (stats, tables)
    (pool.held ++ (pool.handled ++ files.drop pool.shared.next)).Perm files ∧
    schedule.length ≤ workers + 7 * files.length ∧
    (pool.Done ∨
      ∃ worker < workers, ∀ time, (pool.step? index disk files worker time).isSome = true) ∧
    (pool.Done →
      (∀ file ∈ files, ∃ worker < workers, pool.shared.handled.filter (·.2 == file) =
        [(worker, file)]) ∧
      pool.handled.Perm files ∧ pool.shared.stats = alone.1 ∧
      SameButTimes pool.shared.tables alone.2) := by
  intro alone
  have accounted := run_keeps (step_accounted distinct) (start_accounted workers stats tables) ran
  have orderly := run_keeps step_orderly (start_orderly workers stats tables) ran
  have bounded := run_remaining ran
  rw [start_remaining] at bounded
  have going := done_or_can_step index disk files pool
  rw [orderly.size] at going
  refine ⟨accounted.places, by omega, going, fun done => ?_⟩
  have idle := held_of_done done
  have all : files.length ≤ pool.shared.next := by
    apply orderly.ended
    obtain ⟨task, member⟩ := List.exists_mem_of_length_pos (orderly.size ▸ staffed)
    exact done task member ▸ member
  have handled : pool.handled.Perm files := by
    have places := accounted.places
    rwa [Pool.Places, idle, List.nil_append, List.drop_eq_nil_of_le all, List.append_nil] at places
  obtain ⟨total, versions, shares⟩ := index_files_settle index disk now files distinct stats tables
  refine ⟨?_, handled, ?_, ?_⟩
  · intro file member
    obtain ⟨entry, handled_here, rfl⟩ := List.mem_map.mp (handled.mem_iff.mpr member)
    exact ⟨entry.1, orderly.known entry handled_here,
      filter_once (handled.nodup_iff.mpr distinct) handled_here⟩
  · rw [accounted.counted, counted_of_done done, add_zero, total]
    congr 1
    exact (handled.map _).sum_eq
  · apply Store.same_but_times (accounted.versions.trans versions.symm)
    intro file
    rw [shares]
    by_cases member : file ∈ files
    · rw [if_pos member, accounted.settled file (handled.mem_iff.mpr member)]
    · rw [if_neg member, accounted.untouched file (by simp [idle]) (mt handled.mem_iff.mp member)]

def sharedDisk : Disk :=
  ⟨.directory [
    ("a.php", .file (Text.toBytes
      "<?php class A \x7b function events() \x7b return ['on_a.s' => 'h']; \x7d \x7d")),
    ("b.php", .file [0xff]),
    ("c.php", .file (Text.toBytes "<?php"))]⟩

def sharedIndex : Index :=
  ⟨"/", { Settings.standard with methodName := "events", keyMarkers := ["on_"] }, Source.digest⟩

-- The first worker is overtaken while it has the first file, and stores it when the others are
-- handled.
def overtaken : List (Nat × Int64) :=
  [(0, 0), (0, 1), (1, 2), (1, 3), (0, 4), (1, 5), (1, 6), (1, 7), (1, 8), (1, 9), (1, 10), (1, 11),
    (1, 12), (0, 13), (0, 14), (0, 15), (0, 16)]

theorem overtaken_agrees :
    ["a.php", "b.php", "c.php"].Nodup ∧
    ∃ pool, (Pool.start 2 {} Tables.empty.opened).run? sharedIndex sharedDisk ["a.php", "b.php",
      "c.php"] overtaken =
        some pool ∧
      pool.Done ∧ pool.shared.handled = [(1, "b.php"), (1, "c.php"), (0, "a.php")] ∧
      let alone :=
  ["a.php", "b.php", "c.php"].foldl (sharedIndex.indexNext sharedDisk 0) ({}, Tables.empty.opened)
      pool.shared.stats = alone.1 ∧ SameButTimes pool.shared.tables alone.2 := by
  have distinct : ["a.php", "b.php", "c.php"].Nodup := by decide
  have ends : ∃ pool ∈ (Pool.start 2 {} Tables.empty.opened).run? sharedIndex sharedDisk ["a.php",
      "b.php", "c.php"]
      overtaken, pool.Done ∧ pool.shared.handled = [(1, "b.php"), (1, "c.php"), (0, "a.php")] := by
    decide +kernel
  obtain ⟨pool, ran, done, handled⟩ := ends
  obtain ⟨-, -, -, agree⟩ :=
    schedules_agree sharedIndex sharedDisk _ distinct 2 (by decide) {} Tables.empty.opened
    overtaken pool ran 0
  exact ⟨distinct, pool, ran, done, handled, (agree done).2.2⟩

end HandlerIndex.Workspace
