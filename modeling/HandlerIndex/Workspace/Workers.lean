import HandlerIndex.Workspace.Index

/-!
The workers of the index service, who index the files of a workspace together. They share the number
of the next file, the tables and the statistics. Each use of what they share is one step, as is
reading a file, and between two steps of a worker the others may take any number of theirs. Left out
are workers that never start, and how many a machine has: any number may take part.
-/
namespace HandlerIndex.Workspace
open Store (Tables)

inductive Task where
  | claim
  | read (file : String)
  | check (file : String) (source : Source)
  | load (file : String) (source : Source)
  | store (file : String) (source : Source)
  | addSubscriptions (file : String) (outcome : Outcome)
  | countOutcome (file : String) (outcome : Outcome)
  | countFailure (file : String)
  | finished
  deriving DecidableEq

def Task.file? : Task → Option String
  | .claim => none
  | .read file => some file
  | .check file _ => some file
  | .load file _ => some file
  | .store file _ => some file
  | .addSubscriptions file _ => some file
  | .countOutcome file _ => some file
  | .countFailure file => some file
  | .finished => none

structure Shared where
  next : Nat
  tables : Tables
  stats : Stats
  handled : List (Nat × String)

def Stats.addSubscriptions (stats : Stats) (outcome : Outcome) : Stats :=
  { stats with subscriptions := stats.subscriptions + outcome.payload.subscriptionCount }

def Stats.countOutcome (stats : Stats) : Outcome → Stats
  | .indexed _ => { stats with indexed := stats.indexed + 1 }
  | .unchanged _ => { stats with unchanged := stats.unchanged + 1 }

def Stats.countFailure (stats : Stats) : Stats := { stats with failed := stats.failed + 1 }

namespace Shared

def count (shared : Shared) (stats : Stats) (worker : Nat) (file : String) : Shared :=
  { shared with stats := stats, handled := shared.handled ++ [(worker, file)] }

end Shared

section Steps
variable (index : Index) (disk : Disk) (files : List String)

/-- One step of a worker, and what it does after it. A worker that has finished takes no more
steps. -/
def Task.step (worker : Nat) (now : Int64) (shared : Shared) : Task → Option (Task × Shared)
  | .claim =>
    let claimed := { shared with next := shared.next + 1 }
    match files[shared.next]? with
    | some file => some (.read file, claimed)
    | none => some (.finished, claimed)
  | .read file =>
    match disk.readText (index.resolve file) with
    | .ok content => some (.check file (index.source content), shared)
    | .error _ => some (.countFailure file, shared)
  | .check file source =>
    if shared.tables.needsReindex file (index.fingerprint source) then
      some (.store file source, shared)
    else some (.load file source, shared)
  | .load file source =>
    match shared.tables.filePayload file with
    | .ok (some payload) => some (.addSubscriptions file (.unchanged payload), shared)
    | .ok none => some (.store file source, shared)
    | .error _ => some (.countFailure file, shared)
  | .store file source =>
    let (outcome, tables) := index.store now shared.tables file source
    some (.addSubscriptions file outcome, { shared with tables := tables })
  | .addSubscriptions file outcome =>
    some (.countOutcome file outcome,
      { shared with stats := shared.stats.addSubscriptions outcome })
  | .countOutcome file outcome =>
    some (.claim, shared.count (shared.stats.countOutcome outcome) worker file)
  | .countFailure file => some (.claim, shared.count shared.stats.countFailure worker file)
  | .finished => none

structure Pool where
  shared : Shared
  tasks : List Task

namespace Pool

def start (workers : Nat) (stats : Stats) (tables : Tables) : Pool where
  shared := { next := 0, tables := tables, stats := stats, handled := [] }
  tasks := List.replicate workers .claim

def step? (pool : Pool) (worker : Nat) (now : Int64) : Option Pool := do
  let (task, shared) ← (← pool.tasks[worker]?).step index disk files worker now pool.shared
  some ⟨shared, pool.tasks.set worker task⟩

/-- Steps of workers in the order of a schedule, which says who takes the next one, and when. -/
def run? (pool : Pool) (schedule : List (Nat × Int64)) : Option Pool :=
  schedule.foldlM (fun pool turn => pool.step? index disk files turn.1 turn.2) pool

def held (pool : Pool) : List String := pool.tasks.filterMap Task.file?

def handled (pool : Pool) : List String := pool.shared.handled.map Prod.snd

def Done (pool : Pool) : Prop := ∀ task ∈ pool.tasks, task = .finished

instance : DecidablePred Done :=
  fun pool => inferInstanceAs (Decidable (∀ task ∈ pool.tasks, task = .finished))

end Pool
end Steps
end HandlerIndex.Workspace
