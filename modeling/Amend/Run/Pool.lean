/-
Processing files by several workers. Each file is worked on in small steps: its document is loaded,
its entries go to the shared journal one by one, and its text is written. Once the work on some file
was given up, files that no worker has begun may be withdrawn. A schedule says whose turn comes next;
files that it leaves unfinished are finished in order.
-/
import Amend.Run

namespace Amend.Run

/-- How far the work on a file has come. -/
inductive Stage where
  | waiting
  | speaking (pending : Journal) (next : Next)
  | done (result : Except Failure FileResult)
  | withdrawn

/-- A file that is being worked on. -/
structure Task where
  path : String
  diagnostics : List Diagnostic
  stage : Stage

/-- The state shared by the workers. `finished` holds results in the order of their arrival. -/
structure Pool where
  workspace : Workspace
  journal : Journal
  finished : List (String × Except Failure FileResult)
  tasks : List Task

/-- A turn of a worker, who takes the next step of a task, or of the collector of the results, who
withdraws a task. -/
inductive Turn where
  | work (i : Nat)
  | withdraw (i : Nat)

namespace Pool

/-- The results among what arrived. -/
def results (arrived : List (String × Except Failure FileResult)) : List FileResult :=
  arrived.filterMap fun row => row.2.toOption

/-- The files whose work was given up. -/
def stopped (arrived : List (String × Except Failure FileResult)) : List String :=
  arrived.filterMap fun row => match row.2 with
    | .error _ => some row.1
    | .ok _ => none

/-- A pool with all files waiting. -/
def start (ws : Workspace) (groups : Table String (List Diagnostic)) : Pool :=
  ⟨ws, [], [], groups.map fun row => ⟨row.1, row.2, .waiting⟩⟩

/-- Puts a task into its stage. -/
def enter (pool : Pool) (i : Nat) (stage : Stage) : Pool :=
  { pool with tasks := pool.tasks.modify i fun task => { task with stage := stage } }

/-- Takes the result of a file in. -/
def deliver (pool : Pool) (path : String) (result : Except Failure FileResult) : Pool :=
  { pool with finished := pool.finished ++ [(path, result)] }

/-- The next step of task `i`. -/
def step (setup : Setup) (pool : Pool) (i : Nat) : Pool :=
  match pool.tasks[i]? with
  | none => pool
  | some task =>
    match task.stage with
    | .waiting =>
      let (document, ws) := pool.workspace.load task.path
      let p := planLoaded setup 0 task.path task.diagnostics document
      { pool with workspace := ws }.enter i (.speaking p.journal p.next)
    | .speaking (entry :: pending) next =>
      { pool with journal := pool.journal ++ [entry] }.enter i (.speaking pending next)
    | .speaking [] (.finish (.ok result)) =>
      (pool.deliver task.path (.ok result)).enter i (.done (.ok result))
    | .speaking [] (.finish (.error failure)) =>
      match guarded task.path ([], .error failure) with
      | (_, .error failure) =>
        (pool.deliver task.path (.error failure)).enter i (.done (.error failure))
      | (said, .ok result) => pool.enter i (.speaking said (.finish (.ok result)))
    | .speaking [] (.store content diff applied skipped) =>
      let (said, result, tree) :=
        perform setup pool.workspace.tree task.path (.store content diff applied skipped)
      { pool with workspace := { pool.workspace with tree := tree } }.enter i
        (.speaking said (.finish result))
    | .done _ | .withdrawn => pool

/-- Withdraws task `i`, if the work on some file was given up and no worker has begun this one. -/
def withdraw (pool : Pool) (i : Nat) : Pool :=
  match pool.tasks[i]? with
  | none => pool
  | some task =>
    match task.stage with
    | .waiting => if (stopped pool.finished).isEmpty then pool else pool.enter i .withdrawn
    | _ => pool

/-- Takes a turn. -/
def turn (setup : Setup) (pool : Pool) : Turn → Pool
  | .work i => pool.step setup i
  | .withdraw i => pool.withdraw i

end Pool

/-- How many steps a task can take before it has spoken. -/
def Stage.left : Stage → Nat
  | .waiting => 1
  | .speaking pending _ => pending.length + 1
  | .done _ | .withdrawn => 0

namespace Pool

/-- Takes `fuel` steps of task `i`. -/
def advance (setup : Setup) (i : Nat) : Nat → Pool → Pool
  | 0, pool => pool
  | fuel + 1, pool => advance setup i fuel (pool.step setup i)

/-- Takes steps of task `i` until it has gone through its stages: loading, speaking, writing and
speaking again, or speaking once more about a failure. -/
def finish (setup : Setup) (pool : Pool) (i : Nat) : Pool :=
  let round (pool : Pool) : Pool :=
    match pool.tasks[i]? with
    | some task => pool.advance setup i task.stage.left
    | none => pool
  round (round (round (round pool)))

/-- Runs all tasks: first by the schedule, then what is left in order. -/
def run (setup : Setup) (schedule : List Turn) (pool : Pool) : Pool :=
  let scheduled := schedule.foldl (Pool.turn setup) pool
  (List.range scheduled.tasks.length).foldl (Pool.finish setup) scheduled

end Pool

/-- Processes files by several workers, in the order of the schedule. -/
def pooled (setup : Setup) (schedule : List Turn) (ws : Workspace)
    (groups : Table String (List Diagnostic)) : FilesRun :=
  let pool := (Pool.start ws groups).run setup schedule
  let interrupted := Pool.stopped pool.finished
  ⟨pool.journal, Pool.results pool.finished, if interrupted.isEmpty then none else some interrupted, pool.workspace⟩

end Amend.Run
