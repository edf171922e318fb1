/-! Ways to run tasks in the background, and the pool of workers that run tasks from one queue. A
task ends by returning or by a panic, and signals its end in either case, also one that is thrown
away. -/
namespace TexturePack

inductive TaskOutcome where
  | returns
  | panics
  deriving DecidableEq

inductive Message where
  | run (task : Nat)
  | shutdown
  deriving DecidableEq

inductive Worker where
  | waiting
  | running (task : Nat)
  /-- The task has returned or panicked and not signalled yet. -/
  | ending (task : Nat)
  | stopped
  deriving DecidableEq

/-- Workers that take messages from one queue. Tasks are known by the order in which they
were submitted. -/
structure Pool where
  submitted : List TaskOutcome
  queue : List Message
  workers : List Worker
  /-- The tasks that workers have taken, in order. -/
  taken : List Nat
  /-- The tasks that have returned or panicked, in order. -/
  ended : List Nat
  /-- The tasks that have signalled their end, in order. -/
  signalled : List Nat
  /-- The workers that have taken a shutdown, in order. -/
  retired : List Nat
  /-- A pool that closes takes no further tasks. -/
  closing : Bool
  deriving DecidableEq

/-- What can happen next in a pool. -/
inductive PoolEvent where
  | submit (outcome : TaskOutcome)
  | close
  /-- A waiting worker takes the first message. -/
  | take (worker : Nat)
  /-- The task of a worker returns or panics. -/
  | finish (worker : Nat)
  /-- A worker whose task has ended signals it. -/
  | signal (worker : Nat)
  deriving DecidableEq

namespace Pool

/-- There is always a worker. -/
def create (threads : Nat) : Pool where
  submitted := []
  queue := []
  workers := List.replicate (max threads 1) .waiting
  taken := []
  ended := []
  signalled := []
  retired := []
  closing := false

def setWorker (p : Pool) (i : Nat) (w : Worker) : Pool := { p with workers := p.workers.set i w }

def submit? (p : Pool) (o : TaskOutcome) : Option Pool :=
  if p.closing then none
  else
    some { p with
      submitted := p.submitted ++ [o], queue := p.queue ++ [.run p.submitted.length] }

/-- Closing sends one shutdown for each worker behind the tasks in the queue. -/
def close? (p : Pool) : Option Pool :=
  if p.closing then none
  else some { p with
    queue := p.queue ++ List.replicate p.workers.length .shutdown
    closing := true }

def take? (p : Pool) (i : Nat) : Option Pool :=
  match p.workers[i]?, p.queue with
  | some .waiting, .run task :: rest =>
      some ({ p with queue := rest, taken := p.taken ++ [task] }.setWorker i (.running task))
  | some .waiting, .shutdown :: rest =>
      some ({ p with queue := rest, retired := p.retired ++ [i] }.setWorker i .stopped)
  | _, _ => none

def finish? (p : Pool) (i : Nat) : Option Pool :=
  match p.workers[i]? with
  | some (.running task) => some ({ p with ended := p.ended ++ [task] }.setWorker i (.ending task))
  | _ => none

/-- However its task ended, a worker signals and goes on. -/
def signal? (p : Pool) (i : Nat) : Option Pool :=
  match p.workers[i]? with
  | some (.ending task) => some ({ p with signalled := p.signalled ++ [task] }.setWorker i .waiting)
  | _ => none

/-- The pool after an event, if the event can happen. -/
def step? (p : Pool) : PoolEvent → Option Pool
  | .submit o => p.submit? o
  | .close => p.close?
  | .take i => p.take? i
  | .finish i => p.finish? i
  | .signal i => p.signal? i

/-- An event that cannot happen changes nothing. -/
def step (p : Pool) (e : PoolEvent) : Pool := (p.step? e).getD p

def run (p : Pool) (events : List PoolEvent) : Pool := events.foldl step p

/-- A closing pool is gone when the last worker has stopped. -/
def closed (p : Pool) : Bool := p.closing && p.workers.all (· = .stopped)

/-- Whether a task has ended. -/
def done (p : Pool) (task : Nat) : Bool := task ∈ p.signalled

/-- How many tasks ended by returning. -/
def returned (p : Pool) : Nat := p.signalled.countP fun task => p.submitted[task]? = some .returns

/-- One of the orders in which a pool can work: the first worker runs all tasks, and then
every worker stops. -/
def inOrder (tasks : List TaskOutcome) (workers : Nat) : List PoolEvent :=
  tasks.map .submit ++ [.close] ++ (tasks.flatMap fun _ => [.take 0, .finish 0, .signal 0]) ++
    (List.range workers).map .take

end Pool

inductive Executor where
  | pool (threads : Nat)
  | threadPerTask
  /-- Throws every task away. -/
  | discarding
  deriving DecidableEq

/-- The ends of a batch of tasks. -/
structure Batch where
  threads : Option Nat
  done : List Bool
  returned : Nat
  deriving DecidableEq

namespace Batch

def ofPool (p : Pool) : Batch :=
  ⟨some p.workers.length, (List.range p.submitted.length).map p.done, p.returned⟩

end Batch

/-- Runs tasks and waits for all of them. -/
def Executor.run (e : Executor) (tasks : List TaskOutcome) : Batch :=
  match e with
  | .pool threads =>
      let p := Pool.create threads
      .ofPool (p.run (Pool.inOrder tasks p.workers.length))
  | .threadPerTask => ⟨none, tasks.map fun _ => true, tasks.countP (· = .returns)⟩
  | .discarding => ⟨none, tasks.map fun _ => true, 0⟩

end TexturePack
