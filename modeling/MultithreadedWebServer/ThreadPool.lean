import MultithreadedWebServer.Run
import MultithreadedWebServer.Transitions

/-!
# ThreadPool.cc: a queue of tasks and the threads that run them

What a thread does while it holds `qlock_` is one step. The state has the fields of
`ThreadPool`, what each worker thread and the caller are in the middle of, and a history
of the tasks. The calls of the thread library succeed, `pthread_cond_wait` may return for
no reason, and `pthread_cond_signal` wakes a waiting thread if there is one.
-/

namespace MultithreadedWebServer

/-- What a worker thread is in the middle of. -/
inductive Worker (Task : Type) where
  /-- created, and about to lock for the first time -/
  | born
  /-- in `pthread_cond_wait` -/
  | waiting
  /-- about to have the lock back, from `pthread_cond_wait` or after a task -/
  | ready
  /-- in a task function -/
  | running (task : Task)
  /-- gone -/
  | exited
  deriving DecidableEq

/-- What the owner of the pool is in the middle of. -/
inductive Owner (Task : Type) where
  /-- in the loop of the constructor -/
  | constructing
  /-- outside -/
  | outside
  /-- in the destructor, in `pthread_join(thread_array_[i])` -/
  | joining (i numThreads : ℕ)
  /-- in the destructor, at the test of the last loop -/
  | emptying
  /-- in the destructor, in a task function -/
  | running (task : Task)
  /-- done with the destructor -/
  | destroyed
  deriving DecidableEq

/-- `ThreadPool`; there are at most `num_threads` threads to count. -/
structure ThreadPool (Task : Type) where
  /-- `work_queue_` -/
  workQueue : List Task
  /-- `killthreads_` -/
  killthreads : Bool
  /-- `num_threads_running_` -/
  numThreadsRunning : ℕ
  /-- the worker threads -/
  threads : List (Worker Task)
  /-- the owner -/
  owner : Owner Task
  /-- the tasks that have been dispatched, in order -/
  dispatched : List Task
  /-- the tasks that have been dequeued, in order -/
  dequeued : List Task
  /-- the tasks whose functions have returned -/
  finished : List Task
  deriving DecidableEq

section Pool

variable {Task : Type}

/-! ## ThreadLoop -/

/-- Another state of a worker thread. -/
def ThreadPool.setThread (pool : ThreadPool Task) (w : ℕ) (worker : Worker Task) :
    ThreadPool Task :=
  { pool with threads := pool.threads.set w worker }

/-- `ThreadLoop` from the test of the outer loop on, until it lets go of the lock. -/
def mainLoop (pool : ThreadPool Task) (w : ℕ) : ThreadPool Task :=
  if pool.killthreads = false then
    pool.setThread w .waiting
  else
    { pool.setThread w .exited with numThreadsRunning := pool.numThreadsRunning - 1 }

/-- `ThreadLoop` from the test of the inner loop on. -/
def dequeueLoop (pool : ThreadPool Task) (w : ℕ) : ThreadPool Task :=
  match pool.workQueue with
  | [] => mainLoop pool w
  | nextTask :: rest =>
    if pool.killthreads = false then
      { pool.setThread w (.running nextTask) with
        workQueue := rest, dequeued := pool.dequeued ++ [nextTask] }
    else
      mainLoop pool w

/-- `ThreadLoop` from its start on. -/
def threadLoop (pool : ThreadPool Task) (w : ℕ) : ThreadPool Task :=
  mainLoop { pool with numThreadsRunning := pool.numThreadsRunning + 1 } w

/-! ## The condition variable -/

/-- A thread that waits. -/
def Worker.isWaiting : Worker Task → Bool
  | .waiting => true
  | _ => false

/-- A thread that has been woken. -/
def Worker.wake : Worker Task → Worker Task
  | .waiting => .ready
  | worker => worker

/-- `pthread_cond_signal`, with the thread that it wakes; there is none only if no thread
waits. -/
def condSignal (pool : ThreadPool Task) : Option ℕ → Option (ThreadPool Task)
  | none => if pool.threads.any Worker.isWaiting then none else some pool
  | some w =>
    match pool.threads[w]? with
    | some .waiting => some (pool.setThread w .ready)
    | _ => none

/-- `pthread_cond_broadcast`. -/
def condBroadcast (pool : ThreadPool Task) : ThreadPool Task :=
  { pool with threads := pool.threads.map Worker.wake }

/-! ## Dispatch and the destructor -/

/-- `Dispatch`. -/
def dispatch (pool : ThreadPool Task) (t : Task) (signalled : Option ℕ) :
    Option (Except Stop (ThreadPool Task)) :=
  if pool.killthreads = false then
    (condSignal { pool with
      workQueue := pool.workQueue ++ [t], dispatched := pool.dispatched ++ [t] } signalled).map .ok
  else
    some (.error .verify333)

/-- `~ThreadPool` from the test of the loop over the threads on, until it lets go of the
lock. -/
def joinLoop (pool : ThreadPool Task) (i numThreads : ℕ) : Except Stop (ThreadPool Task) :=
  if i < numThreads then
    .ok { condBroadcast pool with owner := .joining i numThreads }
  else if pool.numThreadsRunning = 0 then
    .ok { pool with owner := .emptying }
  else
    .error .verify333

/-- The start of `~ThreadPool`. -/
def destroy (pool : ThreadPool Task) : Except Stop (ThreadPool Task) :=
  joinLoop { pool with killthreads := true } 0 pool.numThreadsRunning

/-- The test of the last loop of `~ThreadPool`. -/
def emptyQueue (pool : ThreadPool Task) : ThreadPool Task :=
  match pool.workQueue with
  | [] => { pool with owner := .destroyed }
  | nextTask :: rest =>
    { pool with
      workQueue := rest, owner := .running nextTask, dequeued := pool.dequeued ++ [nextTask] }

/-! ## What can happen -/

/-- An event. -/
inductive PoolEvent (Task : Type) where
  /-- a worker thread has the lock -/
  | locked (w : ℕ)
  /-- `pthread_cond_wait` returns for no reason -/
  | wakeUp (w : ℕ)
  /-- the task function of a worker thread returns -/
  | completed (w : ℕ)
  /-- the constructor has counted all threads -/
  | constructed
  /-- a call of `Dispatch`, and the thread it wakes -/
  | dispatched (t : Task) (signalled : Option ℕ)
  /-- a call of `~ThreadPool` -/
  | destroy
  /-- `pthread_join` returns in it -/
  | joined
  /-- its last loop goes on -/
  | emptyNext
  /-- the task function that it called returns -/
  | emptyCompleted
  deriving DecidableEq

/-- What an event leads to, if it can happen. `Dispatch` can be called as long as there is a
pool. -/
def poolStep (pool : ThreadPool Task) : PoolEvent Task → Option (Except Stop (ThreadPool Task))
  | .locked w =>
    match pool.threads[w]? with
    | some .born => some (.ok (threadLoop pool w))
    | some .ready => some (.ok (dequeueLoop pool w))
    | _ => none
  | .wakeUp w => (condSignal pool (some w)).map .ok
  | .completed w =>
    match pool.threads[w]? with
    | some (.running task) =>
      some (.ok { pool.setThread w .ready with finished := pool.finished ++ [task] })
    | _ => none
  | .constructed =>
    match pool.owner with
    | .constructing =>
      if pool.numThreadsRunning = pool.threads.length then
        some (.ok { pool with owner := .outside })
      else none
    | _ => none
  | .dispatched t signalled =>
    match pool.owner with
    | .constructing | .destroyed => none
    | _ => dispatch pool t signalled
  | .destroy =>
    match pool.owner with
    | .outside => some (destroy pool)
    | _ => none
  | .joined =>
    match pool.owner with
    | .joining i numThreads =>
      match pool.threads[i]? with
      | some .exited => some (joinLoop pool (i + 1) numThreads)
      | some _ => none
      | none => some (.error .fault)
    | _ => none
  | .emptyNext =>
    match pool.owner with
    | .emptying => some (.ok (emptyQueue pool))
    | _ => none
  | .emptyCompleted =>
    match pool.owner with
    | .running task =>
      some (.ok { pool with owner := .emptying, finished := pool.finished ++ [task] })
    | _ => none

/-- A pool with a number of worker threads. -/
def threadPool (Task : Type) (numThreads : ℕ) :
    Machine (ThreadPool Task) (PoolEvent Task) Stop where
  start := ⟨[], false, 0, List.replicate numThreads .born, .constructing, [], [], []⟩
  step := poolStep

end Pool

end MultithreadedWebServer
