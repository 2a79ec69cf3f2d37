import MultithreadedWebServer.ThreadPool

/-!
# The thread pool runs every task once

Two invariants. The tasks of a pool are a board: every step of the pool is a move on it.
And the threads are where the owner believes them to be: all counted when the constructor
returns, all gone when the destructor looks at the queue.
-/

namespace MultithreadedWebServer

section Pool

variable {Task : Type} {pool pool' : ThreadPool Task}

/-! ## The tasks are a board -/

/-- The task that a worker thread is in. -/
def Worker.task : Worker Task → Option Task
  | .running task => some task
  | _ => none

/-- The task that the owner is in. -/
def Owner.task : Owner Task → Option Task
  | .running task => some task
  | _ => none

/-- The tasks that are being executed. -/
def ThreadPool.executing (pool : ThreadPool Task) : Multiset Task :=
  pool.owner.task.toList + (pool.threads.filterMap Worker.task : List Task)

/-- The tasks of a pool. -/
def ThreadPool.board (pool : ThreadPool Task) : Board Task :=
  ⟨pool.dispatched, pool.workQueue, pool.dequeued, pool.executing, pool.finished⟩

/-- The tasks of some threads, around one of them. -/
theorem filterMap_task_set {threads : List (Worker Task)} {w : ℕ} (hw : w < threads.length)
    (new : Worker Task) : ((threads.set w new).filterMap Worker.task : Multiset Task) =
      new.task.toList + ((threads.take w).filterMap Worker.task ++
        (threads.drop (w + 1)).filterMap Worker.task : List Task) := by
  have hone : (new :: threads.drop (w + 1)).filterMap Worker.task =
      new.task.toList ++ (threads.drop (w + 1)).filterMap Worker.task := by
    cases new <;> rfl
  rw [List.set_eq_take_append_cons_drop, if_pos hw, List.filterMap_append, hone,
    Multiset.coe_add, Multiset.coe_eq_coe]
  exact List.perm_append_comm_assoc ..

/-- The tasks that are executed, around one thread. -/
theorem ThreadPool.executing_setThread {w : ℕ} {old : Worker Task}
    (h : pool.threads[w]? = some old) : ∃ others : Multiset Task,
    pool.executing = old.task.toList + others ∧
      ∀ new, (pool.setThread w new).executing = new.task.toList + others := by
  obtain ⟨hlt, hget⟩ := List.getElem?_eq_some_iff.mp h
  have hset : ∀ new, (pool.setThread w new).executing = new.task.toList +
      ((pool.owner.task.toList : Multiset Task) + ((pool.threads.take w).filterMap Worker.task ++
        (pool.threads.drop (w + 1)).filterMap Worker.task : List Task)) := by
    intro new
    rw [executing, setThread, filterMap_task_set hlt, ← Multiset.add_assoc, ← Multiset.add_assoc,
      Multiset.add_comm (pool.owner.task.toList : Multiset Task)]
  have hself : pool.setThread w old = pool := by
    rw [setThread, ← hget, List.set_getElem_self]
  refine ⟨_, ?_, hset⟩
  rw [← hset old, hself]

/-- A thread without a task that goes on without one is no matter for the board. -/
theorem ThreadPool.executing_idle {w : ℕ} {old new : Worker Task}
    (h : pool.threads[w]? = some old) (hold : old.task = none) (hnew : new.task = none) :
    (pool.setThread w new).executing = pool.executing := by
  obtain ⟨others, hpool, hset⟩ := ThreadPool.executing_setThread h
  rw [hset, hpool, hold, hnew]

theorem board_mainLoop {w : ℕ} {old : Worker Task} (h : pool.threads[w]? = some old)
    (hold : old.task = none) : (mainLoop pool w).board = pool.board := by
  have hwaiting := ThreadPool.executing_idle h hold (show (Worker.waiting).task = none from rfl)
  have hexited := ThreadPool.executing_idle h hold (show (Worker.exited).task = none from rfl)
  unfold mainLoop
  split
  · exact congrArg (Board.mk _ _ _ · _) hwaiting
  · exact congrArg (Board.mk _ _ _ · _) hexited

/-- A step that leaves the board alone. -/
theorem Board.Move.of_eq {b b' : Board Task} (h : b' = b) : Board.Move b b' := by
  rw [h]
  exact .idle b

/-- A worker thread that takes the next task. -/
theorem board_dequeueLoop {w : ℕ} {old : Worker Task} (h : pool.threads[w]? = some old)
    (hold : old.task = none) : Board.Move pool.board (dequeueLoop pool w).board := by
  have hmain := Board.Move.of_eq (board_mainLoop h hold)
  unfold dequeueLoop
  split
  · exact hmain
  · rename_i nextTask rest hqueue
    split
    · obtain ⟨others, hpool, hset⟩ := ThreadPool.executing_setThread h
      have hnew : (pool.setThread w (.running nextTask)).executing =
          nextTask ::ₘ pool.executing := by
        rw [hset, hpool, hold]
        simp [Worker.task]
      have htake := Board.Move.take (b := pool.board) hqueue
      rw [ThreadPool.board, ← hnew] at htake
      exact htake
    · exact hmain

theorem condSignal_eq {signalled : Option ℕ} (h : condSignal pool signalled = some pool') :
    pool' = pool ∨
      ∃ w, pool.threads[w]? = some .waiting ∧ pool' = pool.setThread w .ready := by
  cases signalled with
  | none =>
    rw [condSignal] at h
    split at h
    · cases h
    · exact .inl (Option.some.inj h).symm
  | some w =>
    rw [condSignal] at h
    split at h
    · rename_i hw
      exact .inr ⟨w, hw, (Option.some.inj h).symm⟩
    · cases h

theorem board_condSignal {signalled : Option ℕ} (h : condSignal pool signalled = some pool') :
    pool'.board = pool.board := by
  rcases condSignal_eq h with rfl | ⟨w, hw, rfl⟩
  · rfl
  · exact congrArg (Board.mk _ _ _ · _)
      (ThreadPool.executing_idle hw rfl (show (Worker.ready).task = none from rfl))

theorem task_wake (worker : Worker Task) : worker.wake.task = worker.task := by
  cases worker <;> rfl

theorem ThreadPool.executing_congr (howner : pool'.owner.task = pool.owner.task)
    (hthreads : pool'.threads.filterMap Worker.task = pool.threads.filterMap Worker.task) :
    pool'.executing = pool.executing := by
  rw [executing, executing, howner, hthreads]

theorem filterMap_task_wake (threads : List (Worker Task)) :
    (threads.map Worker.wake).filterMap Worker.task = threads.filterMap Worker.task := by
  rw [List.filterMap_map]
  exact List.filterMap_congr fun worker _ => task_wake worker

/-- The destructor leaves the board alone while it joins the threads. -/
theorem board_joinLoop {i numThreads : ℕ} (howner : pool.owner.task = none)
    (h : joinLoop pool i numThreads = .ok pool') : pool'.board = pool.board := by
  unfold joinLoop at h
  split at h
  · obtain rfl := Except.ok.inj h
    exact congrArg (Board.mk _ _ _ · _)
      (ThreadPool.executing_congr howner.symm (filterMap_task_wake pool.threads))
  · split at h
    · obtain rfl := Except.ok.inj h
      exact congrArg (Board.mk _ _ _ · _) (ThreadPool.executing_congr howner.symm rfl)
    · cases h

end Pool

/-! ## What a step can do -/

/-- The steps of a pool, with what each of them requires. -/
inductive PoolStep {Task : Type} (pool : ThreadPool Task) : ThreadPool Task → Prop where
  /-- a worker thread starts -/
  | start {w : ℕ} (hw : pool.threads[w]? = some .born) : PoolStep pool (threadLoop pool w)
  /-- a worker thread looks for a task -/
  | look {w : ℕ} (hw : pool.threads[w]? = some .ready) : PoolStep pool (dequeueLoop pool w)
  /-- a worker thread is woken -/
  | wake {w : ℕ} (hw : pool.threads[w]? = some .waiting) : PoolStep pool (pool.setThread w .ready)
  /-- a worker thread completes a task -/
  | complete {w : ℕ} {task : Task} (hw : pool.threads[w]? = some (.running task)) :
    PoolStep pool { pool.setThread w .ready with finished := pool.finished ++ [task] }
  /-- the constructor returns -/
  | constructed (howner : pool.owner = .constructing)
    (hcount : pool.numThreadsRunning = pool.threads.length) :
    PoolStep pool { pool with owner := .outside }
  /-- a task is dispatched -/
  | dispatch {pool' : ThreadPool Task} (t : Task) {signalled : Option ℕ}
    (hkill : pool.killthreads = false)
    (hsignal : condSignal { pool with
      workQueue := pool.workQueue ++ [t], dispatched := pool.dispatched ++ [t] } signalled =
        some pool') : PoolStep pool pool'
  /-- the destructor starts -/
  | destroy {pool' : ThreadPool Task} (howner : pool.owner = .outside)
    (hjoin : destroy pool = .ok pool') : PoolStep pool pool'
  /-- the destructor has joined a thread -/
  | join {pool' : ThreadPool Task} {i numThreads : ℕ} (howner : pool.owner = .joining i numThreads)
    (hexited : pool.threads[i]? = some .exited)
    (hjoin : joinLoop pool (i + 1) numThreads = .ok pool') : PoolStep pool pool'
  /-- the destructor looks at the queue -/
  | empty (howner : pool.owner = .emptying) : PoolStep pool (emptyQueue pool)
  /-- the destructor has completed a task -/
  | emptied {task : Task} (howner : pool.owner = .running task) :
    PoolStep pool { pool with owner := .emptying, finished := pool.finished ++ [task] }

section Pool

variable {Task : Type} {pool pool' : ThreadPool Task}

theorem PoolStep.of_step {e : PoolEvent Task} (h : poolStep pool e = some (.ok pool')) :
    PoolStep pool pool' := by
  cases e with
  | locked w =>
    rw [poolStep] at h
    split at h
    · rename_i hw
      obtain rfl := Except.ok.inj (Option.some.inj h)
      exact .start hw
    · rename_i hw
      obtain rfl := Except.ok.inj (Option.some.inj h)
      exact .look hw
    · cases h
  | wakeUp w =>
    rw [poolStep, Option.map_eq_some_iff] at h
    obtain ⟨pool₁, hsignal, heq⟩ := h
    obtain rfl := Except.ok.inj heq
    rw [condSignal] at hsignal
    split at hsignal
    · rename_i hw
      obtain rfl := Option.some.inj hsignal
      exact .wake hw
    · cases hsignal
  | completed w =>
    rw [poolStep] at h
    split at h
    · rename_i task hw
      obtain rfl := Except.ok.inj (Option.some.inj h)
      exact .complete hw
    · cases h
  | constructed =>
    rw [poolStep] at h
    split at h
    · rename_i howner
      split at h
      · rename_i hcount
        obtain rfl := Except.ok.inj (Option.some.inj h)
        exact .constructed howner hcount
      · cases h
    · cases h
  | dispatched t signalled =>
    rw [poolStep] at h
    split at h
    · cases h
    · cases h
    · unfold MultithreadedWebServer.dispatch at h
      split at h
      · rename_i hkill
        rw [Option.map_eq_some_iff] at h
        obtain ⟨pool₁, hsignal, heq⟩ := h
        obtain rfl := Except.ok.inj heq
        exact .dispatch t hkill hsignal
      · cases h
  | destroy =>
    rw [poolStep] at h
    split at h
    · rename_i howner
      exact .destroy howner (Option.some.inj h)
    · cases h
  | joined =>
    rw [poolStep] at h
    split at h
    · rename_i i numThreads howner
      split at h
      · rename_i hexited
        exact .join howner hexited (Option.some.inj h)
      · cases h
      · cases h
    · cases h
  | emptyNext =>
    rw [poolStep] at h
    split at h
    · rename_i howner
      obtain rfl := Except.ok.inj (Option.some.inj h)
      exact .empty howner
    · cases h
  | emptyCompleted =>
    rw [poolStep] at h
    split at h
    · rename_i task howner
      obtain rfl := Except.ok.inj (Option.some.inj h)
      exact .emptied howner
    · cases h

/-- A task function returns. -/
theorem board_complete {task : Task} {others : Multiset Task}
    (hbefore : pool.executing = task ::ₘ others) :
    Board.Move pool.board ⟨pool.dispatched, pool.workQueue, pool.dequeued, others,
      (pool.finished ++ [task] : List Task)⟩ := by
  have hfinished : ((pool.finished ++ [task] : List Task) : Multiset Task) =
      task ::ₘ pool.finished := Multiset.coe_eq_coe.mpr (List.perm_append_singleton task _)
  rw [hfinished]
  exact .complete hbefore

/-- Every step of the pool is a move on its board. -/
theorem PoolStep.board (h : PoolStep pool pool') : Board.Move pool.board pool'.board := by
  cases h with
  | @start w hw =>
    have hcounted : ThreadPool.threads { pool with
      numThreadsRunning := pool.numThreadsRunning + 1 } = pool.threads := rfl
    exact .of_eq ((board_mainLoop (hcounted ▸ hw) rfl).trans rfl)
  | look hw => exact board_dequeueLoop hw rfl
  | wake hw =>
    exact .of_eq (congrArg (Board.mk _ _ _ · _)
      (ThreadPool.executing_idle hw rfl (show (Worker.ready).task = none from rfl)))
  | @complete w task hw =>
    obtain ⟨others, hpool, hset⟩ := ThreadPool.executing_setThread hw
    have hafter : (pool.setThread w .ready).executing = others := by
      rw [hset]
      exact Multiset.zero_add _
    have hmove := board_complete (hpool.trans (Multiset.singleton_add task others))
    rw [← hafter] at hmove
    exact hmove
  | constructed howner hcount =>
    exact .of_eq (congrArg (Board.mk _ _ _ · _)
      (ThreadPool.executing_congr (by rw [howner]; rfl) rfl))
  | dispatch t hkill hsignal =>
    have hsubmit := Board.Move.submit pool.board t
    have hboard := board_condSignal hsignal
    rw [hboard]
    exact hsubmit
  | destroy howner hjoin =>
    exact .of_eq ((board_joinLoop (by simp [howner, Owner.task]) hjoin).trans rfl)
  | join howner hexited hjoin => exact .of_eq (board_joinLoop (by rw [howner]; rfl) hjoin)
  | empty howner =>
    unfold emptyQueue
    split
    · exact .of_eq (congrArg (Board.mk _ _ _ · _)
        (ThreadPool.executing_congr (by rw [howner]; rfl) rfl))
    · rename_i nextTask rest hqueue
      have hafter : ThreadPool.executing { pool with owner := .running nextTask } =
          nextTask ::ₘ pool.executing := by
        rw [ThreadPool.executing, ThreadPool.executing, howner]
        exact (Multiset.singleton_add ..).trans (congrArg _ (Multiset.zero_add _).symm)
      have htake := Board.Move.take (b := pool.board) hqueue
      rw [ThreadPool.board, ← hafter] at htake
      exact htake
  | @emptied task howner =>
    have hbefore : pool.executing =
        task ::ₘ ThreadPool.executing { pool with owner := .emptying } := by
      rw [ThreadPool.executing, ThreadPool.executing, howner]
      exact (Multiset.singleton_add ..).trans (congrArg _ (Multiset.zero_add _).symm)
    exact board_complete hbefore

/-! ## The threads are where the owner believes -/

/-- A thread that `num_threads_running_` counts. -/
def Worker.counted : Worker Task → Bool
  | .born | .exited => false
  | _ => true

/-- The destructor is past the threads. -/
def Owner.pastThreads : Owner Task → Bool
  | .emptying | .running _ | .destroyed => true
  | _ => false

/-- The destructor has not started. -/
def Owner.beforeEnd : Owner Task → Bool
  | .constructing | .outside => true
  | _ => false

/-- What holds of the threads in every reachable state. -/
structure ThreadPool.Manned (pool : ThreadPool Task) : Prop where
  /-- the count is exact -/
  count : pool.numThreadsRunning = pool.threads.countP Worker.counted
  /-- the threads are to go from the start of the destructor on -/
  kill : pool.killthreads = false ↔ pool.owner.beforeEnd = true
  /-- after the constructor all threads have started -/
  started : pool.owner ≠ .constructing → .born ∉ pool.threads
  /-- no thread goes before it is to go -/
  stays : pool.killthreads = false → .exited ∉ pool.threads
  /-- the destructor joins the threads in order -/
  joined : ∀ i numThreads, pool.owner = .joining i numThreads → i < numThreads ∧
    numThreads = pool.threads.length ∧ ∀ j < i, pool.threads[j]? = some .exited
  /-- and when it is past them, they have gone -/
  gone : pool.owner.pastThreads = true → ∀ worker ∈ pool.threads, worker = .exited
  /-- it ends with an empty queue -/
  emptied : pool.owner = .destroyed → pool.workQueue = []

/-- One thread goes on; the count goes with it. -/
theorem ThreadPool.Manned.thread (h : pool.Manned) {w : ℕ} {old : Worker Task}
    (new : Worker Task) (hw : pool.threads[w]? = some old) (hold : old ≠ .exited)
    (hnew : new ≠ .born)
    (hexit : new = .exited → pool.killthreads ≠ false)
    (hthreads : pool'.threads = pool.threads.set w new) (howner : pool'.owner = pool.owner)
    (hkill : pool'.killthreads = pool.killthreads)
    (hcount : pool'.numThreadsRunning + old.counted.toNat =
      pool.numThreadsRunning + new.counted.toNat) : pool'.Manned := by
  obtain ⟨hlt, hget⟩ := List.getElem?_eq_some_iff.mp hw
  have hmem : old ∈ pool.threads := List.mem_of_getElem? hw
  have hset : ∀ worker ∈ pool'.threads, worker ∈ pool.threads ∨ worker = new := by
    intro worker hworker
    rw [hthreads] at hworker
    exact List.mem_or_eq_of_mem_set hworker
  -- a thread that goes on is not gone, so the destructor is not past the threads
  have hnotPast : pool.owner.pastThreads ≠ true := fun hp => hold (h.gone hp old hmem)
  refine ⟨?_, by rw [hkill, howner]; exact h.kill, fun ho hborn => ?_, fun hk hexited => ?_,
    fun i numThreads ho => ?_, fun hp => ?_, fun ho => ?_⟩
  · have hone (b : Bool) : (if b = true then 1 else 0) = b.toNat := by cases b <;> rfl
    have hle : old.counted.toNat ≤ pool.numThreadsRunning := by
      rcases hcounted : old.counted with _ | _
      · exact Nat.zero_le _
      · rw [h.count]
        exact List.countP_pos_iff.mpr ⟨old, hmem, hcounted⟩
    rw [hthreads, List.countP_set hlt, hget, ← h.count, hone, hone]
    omega
  · rw [howner] at ho
    rcases hset _ hborn with hborn | hborn
    · exact h.started ho hborn
    · exact hnew hborn.symm
  · rw [hkill] at hk
    rcases hset _ hexited with hexited | hexited
    · exact h.stays hk hexited
    · exact hexit hexited.symm hk
  · rw [howner] at ho
    obtain ⟨hi, hn, hgone⟩ := h.joined i numThreads ho
    refine ⟨hi, by rw [hthreads, List.length_set]; exact hn, fun j hj => ?_⟩
    have hne : w ≠ j := by
      rintro rfl
      exact hold (Option.some.inj (hw.symm.trans (hgone w hj)))
    rw [hthreads, List.getElem?_set_ne hne]
    exact hgone j hj
  · rw [howner] at hp
    exact absurd hp hnotPast
  · rw [howner] at ho
    rw [ho] at hnotPast
    exact absurd rfl hnotPast

theorem mainLoop_manned (h : pool.Manned) {w : ℕ} (hw : pool.threads[w]? = some .ready) :
    (mainLoop pool w).Manned := by
  unfold mainLoop
  split
  · exact h.thread .waiting hw nofun nofun nofun rfl rfl rfl rfl
  · rename_i hkill
    have hpos : 0 < pool.numThreadsRunning := by
      rw [h.count]
      exact List.countP_pos_iff.mpr ⟨_, List.mem_of_getElem? hw, rfl⟩
    exact h.thread .exited hw nofun nofun (fun _ => hkill) rfl rfl rfl (Nat.sub_add_cancel hpos)

theorem threadLoop_manned (h : pool.Manned) {w : ℕ} (hw : pool.threads[w]? = some .born) :
    (threadLoop pool w).Manned := by
  unfold threadLoop mainLoop
  split
  · exact h.thread .waiting hw nofun nofun nofun rfl rfl rfl rfl
  · rename_i hkill
    exact h.thread .exited hw nofun nofun (fun _ => hkill) rfl rfl rfl rfl

theorem dequeueLoop_manned (h : pool.Manned) {w : ℕ} (hw : pool.threads[w]? = some .ready) :
    (dequeueLoop pool w).Manned := by
  unfold dequeueLoop
  split
  · exact mainLoop_manned h hw
  · rename_i nextTask rest _
    split
    · exact h.thread (.running nextTask) hw nofun nofun nofun rfl rfl rfl rfl
    · exact mainLoop_manned h hw

theorem counted_wake (worker : Worker Task) : worker.wake.counted = worker.counted := by
  cases worker <;> rfl

theorem wake_eq_born {worker : Worker Task} : worker.wake = .born ↔ worker = .born := by
  cases worker <;> simp [Worker.wake]

/-- After the constructor and before the end all threads are counted. -/
theorem ThreadPool.Manned.count_eq_length (h : pool.Manned) (howner : pool.owner = .outside) :
    pool.numThreadsRunning = pool.threads.length := by
  rw [h.count, List.countP_eq_length]
  intro worker hworker
  have hborn := h.started (by rw [howner]; nofun)
  have hexited := h.stays (h.kill.mpr (by rw [howner]; rfl))
  cases worker with
  | born => exact absurd hworker hborn
  | exited => exact absurd hworker hexited
  | _ => rfl

/-- The loop over the threads, when the first `i` have gone: it goes on, or the check of
the count holds. -/
theorem joinLoop_manned {i : ℕ} (hkill : pool.killthreads = true)
    (hcount : pool.numThreadsRunning = pool.threads.countP Worker.counted)
    (hborn : .born ∉ pool.threads) (hi : i ≤ pool.threads.length)
    (hgone : ∀ j < i, pool.threads[j]? = some .exited) :
    ∃ pool', joinLoop pool i pool.threads.length = .ok pool' ∧ pool'.Manned := by
  unfold joinLoop
  split
  · rename_i hlt
    refine ⟨_, rfl, ?_, ?_, fun _ hmem => ?_, fun hk => ?_, fun i' numThreads ho => ?_, nofun,
      nofun⟩
    · dsimp only [condBroadcast]
      rw [hcount, List.countP_map]
      exact List.countP_congr fun worker _ => by rw [Function.comp, counted_wake]
    · dsimp only [condBroadcast]
      rw [hkill]
      exact ⟨nofun, nofun⟩
    · obtain ⟨worker, hworker, hwake⟩ := List.mem_map.mp hmem
      rw [wake_eq_born] at hwake
      exact hborn (hwake ▸ hworker)
    · exact absurd (hkill.symm.trans hk) nofun
    · obtain ⟨rfl, rfl⟩ := Owner.joining.inj ho
      refine ⟨hlt, (List.length_map ..).symm, fun j hj => ?_⟩
      dsimp only [condBroadcast]
      rw [List.getElem?_map, hgone j hj]
      rfl
  · have hall : ∀ worker ∈ pool.threads, worker = .exited := by
      intro worker hworker
      obtain ⟨j, hj⟩ := List.mem_iff_getElem?.mp hworker
      have hjlt : j < pool.threads.length := (List.getElem?_eq_some_iff.mp hj).1
      exact Option.some.inj (hj.symm.trans (hgone j (by omega)))
    have hzero : pool.numThreadsRunning = 0 := by
      rw [hcount, List.countP_eq_zero]
      intro worker hworker
      rw [hall worker hworker]
      nofun
    rw [if_pos hzero]
    refine ⟨_, rfl, hcount, ?_, fun _ => hborn, fun hk => ?_, nofun, fun _ => hall, nofun⟩
    · dsimp only
      rw [hkill]
      exact ⟨nofun, nofun⟩
    · exact absurd (hkill.symm.trans hk) nofun

/-- The destructor starts with all threads to join. -/
theorem destroy_manned (h : pool.Manned) (howner : pool.owner = .outside) :
    ∃ pool', destroy pool = .ok pool' ∧ pool'.Manned := by
  have hborn := h.started (by rw [howner]; nofun)
  have hjoin : ∃ pool', joinLoop { pool with killthreads := true } 0 pool.threads.length =
      .ok pool' ∧ pool'.Manned :=
    joinLoop_manned rfl h.count hborn (Nat.zero_le _) fun j hj => absurd hj (Nat.not_lt_zero j)
  have hdestroy : destroy pool = joinLoop { pool with killthreads := true } 0 pool.threads.length :=
    congrArg _ (h.count_eq_length howner)
  rw [hdestroy]
  exact hjoin

/-- And goes on with the next one when one has gone. -/
theorem join_manned (h : pool.Manned) {i numThreads : ℕ}
    (howner : pool.owner = .joining i numThreads) (hexited : pool.threads[i]? = some .exited) :
    ∃ pool', joinLoop pool (i + 1) numThreads = .ok pool' ∧ pool'.Manned := by
  obtain ⟨hi, rfl, hgone⟩ := h.joined i numThreads howner
  have hkill : pool.killthreads = true := by
    rcases hk : pool.killthreads with _ | _
    · have hbefore := h.kill.mp hk
      rw [howner] at hbefore
      cases hbefore
    · rfl
  refine joinLoop_manned hkill h.count (h.started (by rw [howner]; nofun)) hi fun j hj => ?_
  rcases Nat.lt_succ_iff_lt_or_eq.mp hj with hj | rfl
  · exact hgone j hj
  · exact hexited

theorem ThreadPool.Manned.signal (h : pool.Manned) {w : ℕ}
    (hw : pool.threads[w]? = some .waiting) : (pool.setThread w .ready).Manned :=
  h.thread .ready hw nofun nofun nofun rfl rfl rfl rfl

/-- Every step keeps the threads where the owner believes them to be. -/
theorem PoolStep.manned (hs : PoolStep pool pool') (h : pool.Manned) : pool'.Manned := by
  cases hs with
  | start hw => exact threadLoop_manned h hw
  | look hw => exact dequeueLoop_manned h hw
  | wake hw => exact h.signal hw
  | complete hw => exact h.thread .ready hw nofun nofun nofun rfl rfl rfl rfl
  | constructed howner hcount =>
    -- the count is exact, so no thread is missing
    have hall := List.countP_eq_length.mp (h.count.symm.trans hcount)
    have hkill : pool.killthreads = false := h.kill.mpr (by rw [howner]; rfl)
    refine ⟨h.count, ?_, fun _ hborn => absurd (hall _ hborn) nofun, h.stays, nofun, nofun, nofun⟩
    dsimp only
    rw [hkill]
    exact ⟨fun _ => rfl, fun _ => rfl⟩
  | dispatch t hkill hsignal =>
    have hbefore := h.kill.mp hkill
    have hqueued : ThreadPool.Manned { pool with
        workQueue := pool.workQueue ++ [t], dispatched := pool.dispatched ++ [t] } := by
      refine ⟨h.count, h.kill, h.started, h.stays, h.joined, h.gone, fun howner => ?_⟩
      dsimp only at howner
      rw [howner] at hbefore
      cases hbefore
    rcases condSignal_eq hsignal with rfl | ⟨w, hw, rfl⟩
    · exact hqueued
    · exact hqueued.signal hw
  | destroy howner hjoin =>
    obtain ⟨pool₁, hdestroy, hmanned⟩ := destroy_manned h howner
    obtain rfl := Except.ok.inj (hdestroy.symm.trans hjoin)
    exact hmanned
  | join howner hexited hjoin =>
    obtain ⟨pool₁, hnext, hmanned⟩ := join_manned h howner hexited
    obtain rfl := Except.ok.inj (hnext.symm.trans hjoin)
    exact hmanned
  | empty howner =>
    have hpast := h.gone (by rw [howner]; rfl)
    have hkill := h.kill
    rw [howner] at hkill
    unfold emptyQueue
    split
    · rename_i hqueue
      exact ⟨h.count, hkill, fun _ => h.started (by rw [howner]; nofun), h.stays, nofun,
        fun _ => hpast, fun _ => hqueue⟩
    · exact ⟨h.count, hkill, fun _ => h.started (by rw [howner]; nofun), h.stays, nofun,
        fun _ => hpast, nofun⟩
  | emptied howner =>
    have hpast := h.gone (by rw [howner]; rfl)
    have hkill := h.kill
    rw [howner] at hkill
    exact ⟨h.count, hkill, fun _ => h.started (by rw [howner]; nofun), h.stays, nofun,
      fun _ => hpast, nofun⟩

/-! ## Every run -/

/-- In every reachable state the board is sound, and the threads are where the owner
believes them to be. -/
theorem reachable_sound_manned {numThreads : ℕ} (h : (threadPool Task numThreads).Reachable pool) :
    pool.board.Sound ∧ pool.Manned := by
  refine @Machine.Reachable.invariant _ _ _ _ (fun pool => pool.board.Sound ∧ pool.Manned)
    ⟨?_, ?_⟩ ?_ _ h
  · have hidle : (List.replicate numThreads (.born : Worker Task)).filterMap Worker.task = [] := by
      rw [List.filterMap_replicate_of_none rfl]
    have hstart : (threadPool Task numThreads).start.board = ⟨[], [], [], 0, 0⟩ := by
      refine congrArg (Board.mk _ _ _ · _) ?_
      change (0 : Multiset Task) + _ = 0
      exact (Multiset.zero_add _).trans (congrArg _ hidle)
    rw [hstart]
    exact Board.sound_empty
  · refine ⟨?_, ⟨fun _ => rfl, fun _ => rfl⟩, fun howner => absurd rfl howner, fun _ hmem => ?_,
      nofun, nofun, nofun⟩
    · change 0 = (List.replicate numThreads Worker.born).countP Worker.counted
      rw [List.countP_replicate]
      rfl
    · exact nomatch List.eq_of_mem_replicate hmem
  · rintro pool₁ e pool₂ ⟨hsound, hmanned⟩ hstep
    have hs := PoolStep.of_step hstep
    exact ⟨hsound.move hs.board, hs.manned hmanned⟩

/-- No check fails but that of `Dispatch`, when the destructor has started. -/
theorem ThreadPool.Manned.checks (h : pool.Manned) {e : PoolEvent Task} {err : Stop}
    (hstep : poolStep pool e = some (.error err)) :
    pool.killthreads = true ∧ ∃ t signalled, e = .dispatched t signalled := by
  cases e with
  | dispatched t signalled =>
    refine ⟨?_, t, signalled, rfl⟩
    rw [poolStep] at hstep
    split at hstep
    · cases hstep
    · cases hstep
    · unfold dispatch at hstep
      split at hstep
      · obtain ⟨pool₁, -, heq⟩ := Option.map_eq_some_iff.mp hstep
        cases heq
      · rename_i hkill
        exact eq_true_of_ne_false hkill
  | destroy =>
    rw [poolStep] at hstep
    split at hstep
    · rename_i howner
      obtain ⟨pool₁, hdestroy, -⟩ := destroy_manned h howner
      rw [hdestroy] at hstep
      cases hstep
    · cases hstep
  | joined =>
    rw [poolStep] at hstep
    split at hstep
    · rename_i i numThreads howner
      split at hstep
      · rename_i hexited
        obtain ⟨pool₁, hnext, -⟩ := join_manned h howner hexited
        rw [hnext] at hstep
        cases hstep
      · cases hstep
      · -- the threads to join are there
        rename_i hnone
        obtain ⟨hi, hn, -⟩ := h.joined i numThreads howner
        have hle := List.getElem?_eq_none_iff.mp hnone
        omega
    · cases hstep
  | wakeUp w =>
    rw [poolStep] at hstep
    obtain ⟨pool₁, -, heq⟩ := Option.map_eq_some_iff.mp hstep
    cases heq
  | _ =>
    rw [poolStep] at hstep
    repeat' split at hstep
    all_goals cases hstep

/-- In every reachable state the dispatched tasks are the queued ones, those in execution
and the finished ones, and they are dequeued in order. After the destructor each has been
executed, nothing runs and nothing is queued. No check fails, but that of a `Dispatch` after
the destructor has started. -/
theorem thread_pool_runs_each_task_once {numThreads : ℕ}
    (h : (threadPool Task numThreads).Reachable pool) :
    (pool.dispatched : Multiset Task) = pool.workQueue + pool.executing + pool.finished ∧
      pool.dequeued ++ pool.workQueue = pool.dispatched ∧
      (pool.owner = .destroyed →
        (pool.finished : Multiset Task) = pool.dispatched ∧ pool.numThreadsRunning = 0 ∧
          (∀ worker ∈ pool.threads, worker = .exited) ∧ pool.workQueue = []) ∧
      ∀ e err, poolStep pool e = some (.error err) →
        pool.killthreads = true ∧ ∃ t signalled, e = .dispatched t signalled := by
  obtain ⟨hsound, hmanned⟩ := reachable_sound_manned h
  have hconserved : (pool.dispatched : Multiset Task) =
      pool.workQueue + pool.executing + pool.finished := hsound.conserved
  refine ⟨hconserved, hsound.order, fun howner => ?_, fun e err => hmanned.checks⟩
  have hgone := hmanned.gone (by rw [howner]; rfl)
  have hqueue := hmanned.emptied howner
  have hidle : pool.threads.filterMap Worker.task = [] := by
    rw [List.filterMap_eq_nil_iff]
    intro worker hworker
    rw [hgone worker hworker]
    rfl
  have hexecuting : pool.executing = 0 := by
    rw [ThreadPool.executing, howner, hidle]
    rfl
  have hzero : pool.numThreadsRunning = 0 := by
    rw [hmanned.count, List.countP_eq_zero]
    intro worker hworker
    rw [hgone worker hworker]
    nofun
  refine ⟨?_, hzero, hgone, hqueue⟩
  rw [hconserved, hqueue, hexecuting]
  simp

/-- A pool of one thread, with two tasks; the destructor runs the second. -/
theorem thread_pool_runs_each_task_once_two : ∃ pool : ThreadPool ℕ,
    (threadPool ℕ 1).Reachable pool ∧ pool.owner = .destroyed ∧ pool.dispatched = [7, 8] ∧
      (pool.finished : Multiset ℕ) = pool.dispatched := by
  have hrun : (threadPool ℕ 1).after (threadPool ℕ 1).start
      [.locked 0, .constructed, .dispatched 7 (some 0), .locked 0, .dispatched 8 none, .destroy,
        .completed 0, .locked 0, .joined, .emptyNext, .emptyCompleted, .emptyNext] =
      some ⟨[], true, 0, [.exited], .destroyed, [7, 8], [7, 8], [7, 8]⟩ := rfl
  have hreach := Machine.Reachable.start.after hrun
  obtain ⟨-, -, hdone, -⟩ := thread_pool_runs_each_task_once hreach
  exact ⟨_, hreach, rfl, rfl, (hdone rfl).1⟩

end Pool

end MultithreadedWebServer
