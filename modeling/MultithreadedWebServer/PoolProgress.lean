import Mathlib.Algebra.Order.BigOperators.Group.List
import Mathlib.Algebra.Order.Ring.Nat
import MultithreadedWebServer.WakeUps

/-!
# The thread pool comes to an end

Left to themselves the worker threads run out of steps, and when none of them can go on
every task that was dispatched has been executed. From the start of the destructor on,
every event, a wake-up for no reason included, uses up some of what is left to do, and
until the destructor is done something can happen; so it completes in every order of
events.
-/

namespace MultithreadedWebServer

section Progress

variable {Task : Type} {pool pool' : ThreadPool Task}

/-! ## What is left to do -/

/-- The steps of one thread until it waits, if there is no task for it. -/
def Worker.work : Worker Task → ℕ
  | .born | .ready => 1
  | .running _ => 2
  | .waiting | .exited => 0

/-- The steps of the worker threads until all of them wait. -/
def ThreadPool.work (pool : ThreadPool Task) : ℕ :=
  2 * pool.workQueue.length + (pool.threads.map Worker.work).sum

/-- The steps of one thread until it is gone. -/
def Worker.leaving : Worker Task → ℕ
  | .born | .ready => 1
  | .waiting | .running _ => 2
  | .exited => 0

/-- The steps of the destructor, next to those for the tasks in the queue. -/
def Owner.leaving : Owner Task → ℕ
  | .joining i numThreads => numThreads - i + 1
  | .emptying => 1
  | .running _ => 2
  | .constructing | .outside | .destroyed => 0

/-- The steps until the destructor is done. -/
def ThreadPool.demolition (pool : ThreadPool Task) : ℕ :=
  pool.owner.leaving + 2 * pool.workQueue.length + (pool.threads.map Worker.leaving).sum

/-- What one element adds to a sum. -/
theorem sum_map_set {α : Type} (f : α → ℕ) : ∀ {l : List α} {i : ℕ} {old : α} (new : α),
    l[i]? = some old → ((l.set i new).map f).sum + f old = (l.map f).sum + f new
  | x :: l, 0, old, new, h => by
    obtain rfl := Option.some.inj h
    simp only [List.set_cons_zero, List.map_cons, List.sum_cons]
    omega
  | x :: l, i + 1, old, new, h => by
    have ih := sum_map_set f new (show l[i]? = some old from h)
    simp only [List.set_cons_succ, List.map_cons, List.sum_cons]
    omega

/-! ## The worker threads -/

/-- An event in which a worker thread goes on by itself. -/
def PoolEvent.byWorker : PoolEvent Task → Bool
  | .locked _ | .completed _ => true
  | _ => false

theorem work_mainLoop {w : ℕ} {old : Worker Task} (hw : pool.threads[w]? = some old)
    (hold : old.work = 1) : (mainLoop pool w).work < pool.work := by
  unfold mainLoop
  split
  · have hsum := sum_map_set Worker.work .waiting hw
    rw [hold] at hsum
    simp only [ThreadPool.work, ThreadPool.setThread, Worker.work] at hsum ⊢
    omega
  · have hsum := sum_map_set Worker.work .exited hw
    rw [hold] at hsum
    simp only [ThreadPool.work, ThreadPool.setThread, Worker.work] at hsum ⊢
    omega

theorem work_dequeueLoop {w : ℕ} (hw : pool.threads[w]? = some .ready) :
    (dequeueLoop pool w).work < pool.work := by
  unfold dequeueLoop
  split
  · exact work_mainLoop hw rfl
  · rename_i nextTask rest hqueue
    split
    · have hsum := sum_map_set Worker.work (.running nextTask) hw
      simp only [ThreadPool.work, ThreadPool.setThread, hqueue, List.length_cons,
        Worker.work] at hsum ⊢
      omega
    · exact work_mainLoop hw rfl

theorem killthreads_mainLoop (pool : ThreadPool Task) (w : ℕ) :
    (mainLoop pool w).killthreads = pool.killthreads := by
  unfold mainLoop
  split
  · rfl
  · rfl

theorem killthreads_dequeueLoop (pool : ThreadPool Task) (w : ℕ) :
    (dequeueLoop pool w).killthreads = pool.killthreads := by
  unfold dequeueLoop
  split
  · exact killthreads_mainLoop pool w
  · split
    · rfl
    · exact killthreads_mainLoop pool w

/-- A step of a worker thread uses up some of the work, and submits nothing. -/
theorem byWorker_work {e : PoolEvent Task} (he : e.byWorker = true)
    (h : poolStep pool e = some (.ok pool')) : pool'.work < pool.work ∧
      pool'.killthreads = pool.killthreads ∧ pool'.dispatched = pool.dispatched := by
  cases e with
  | locked w =>
    rw [poolStep] at h
    split at h
    · rename_i hw
      obtain rfl := Except.ok.inj (Option.some.inj h)
      refine ⟨?_, killthreads_mainLoop _ w, dispatched_mainLoop _ w⟩
      have hcounted : ThreadPool.threads { pool with
        numThreadsRunning := pool.numThreadsRunning + 1 } = pool.threads := rfl
      exact work_mainLoop (hcounted ▸ hw) rfl
    · rename_i hw
      obtain rfl := Except.ok.inj (Option.some.inj h)
      exact ⟨work_dequeueLoop hw, killthreads_dequeueLoop pool w, dispatched_dequeueLoop pool w⟩
    · cases h
  | completed w =>
    rw [poolStep] at h
    split at h
    · rename_i task hw
      obtain rfl := Except.ok.inj (Option.some.inj h)
      have hsum := sum_map_set Worker.work .ready hw
      refine ⟨?_, rfl, rfl⟩
      simp only [ThreadPool.work, ThreadPool.setThread, Worker.work] at hsum ⊢
      omega
    · cases h
  | _ => cases he

/-- A pool with nothing in the queue and nobody in a task function has executed every task. -/
theorem finished_of_idle (hsound : pool.board.Sound) (hqueue : pool.workQueue = [])
    (howner : pool.owner.task = none) (hthreads : ∀ worker ∈ pool.threads, worker.task = none) :
    (pool.finished : Multiset Task) = pool.dispatched := by
  have hconserved : (pool.dispatched : Multiset Task) =
      pool.workQueue + pool.executing + pool.finished := hsound.conserved
  have hidle : pool.threads.filterMap Worker.task = [] := List.filterMap_eq_nil_iff.mpr hthreads
  rw [hconserved, hqueue, ThreadPool.executing, howner, hidle]
  simp

/-- A pool in which no worker thread can go on has executed every task. -/
theorem done_of_no_work {numThreads : ℕ} (hpos : 0 < numThreads)
    (h : (threadPool Task numThreads).Reachable pool) (hkill : pool.killthreads = false)
    (hrest : ∀ e : PoolEvent Task, e.byWorker = true → poolStep pool e = none) :
    (pool.finished : Multiset Task) = pool.dispatched ∧
      ∀ worker ∈ pool.threads, worker = .waiting := by
  obtain ⟨hsound, hmanned⟩ := reachable_sound_manned h
  have hwaiting : ∀ worker ∈ pool.threads, worker = .waiting := by
    intro worker hworker
    obtain ⟨w, hw⟩ := List.mem_iff_getElem?.mp hworker
    have hlocked := hrest (.locked w) rfl
    rw [poolStep, hw] at hlocked
    have hcompleted := hrest (.completed w) rfl
    rw [poolStep, hw] at hcompleted
    cases worker with
    | waiting => rfl
    | exited => exact absurd hworker (hmanned.stays hkill)
    | born => cases hlocked
    | ready => cases hlocked
    | running task => cases hcompleted
  have hqueue : pool.workQueue = [] := by
    by_contra hne
    obtain ⟨worker, hworker, hawake⟩ := (reachable_alert hpos h).awake hkill hne
    rw [hwaiting worker hworker] at hawake
    cases hawake
  have howner : pool.owner.task = none := by
    have hbefore := hmanned.kill.mp hkill
    cases howner : pool.owner with
    | running task =>
      rw [howner] at hbefore
      cases hbefore
    | _ => rfl
  refine ⟨finished_of_idle hsound hqueue howner fun worker hworker => ?_, hwaiting⟩
  rw [hwaiting worker hworker]
  rfl

/-- As long as the destructor has not started: the worker threads can only take so many steps,
and as soon as none of them can go on, every task that was dispatched has been executed and
every thread waits for more. -/
theorem worker_threads_finish_all {numThreads : ℕ} (hpos : 0 < numThreads)
    (h : (threadPool Task numThreads).Reachable pool) (hkill : pool.killthreads = false)
    {es : List (PoolEvent Task)} (hes : ∀ e ∈ es, e.byWorker = true)
    (hafter : (threadPool Task numThreads).after pool es = some pool') :
    es.length ≤ pool.work ∧
      ((∀ e : PoolEvent Task, e.byWorker = true → poolStep pool' e = none) →
        (pool'.finished : Multiset Task) = pool.dispatched ∧
          ∀ worker ∈ pool'.threads, worker = .waiting) := by
  have hstep : ∀ (s : ThreadPool Task) (e : PoolEvent Task) (s' : ThreadPool Task),
      (s.killthreads = false ∧ s.dispatched = pool.dispatched) → e.byWorker = true →
      (threadPool Task numThreads).step s e = some (.ok s') →
        (s'.killthreads = false ∧ s'.dispatched = pool.dispatched) ∧ s'.work < s.work := by
    rintro s e s' ⟨hk, hd⟩ he hs
    obtain ⟨hless, hk', hd'⟩ := byWorker_work he hs
    exact ⟨⟨hk'.trans hk, hd'.trans hd⟩, hless⟩
  obtain ⟨⟨hkill', hdispatched⟩, hle⟩ :=
    Machine.after_measure hstep ⟨hkill, rfl⟩ hes hafter
  refine ⟨by omega, fun hrest => ?_⟩
  rw [← hdispatched]
  exact done_of_no_work hpos (h.after hafter) hkill' hrest

/-- Two tasks and one thread: five steps, and both have been executed. -/
theorem worker_threads_finish_all_two : ∃ pool pool' : ThreadPool ℕ,
    (threadPool ℕ 1).Reachable pool ∧ pool.dispatched = [7, 8] ∧ pool.finished = [] ∧
      (threadPool ℕ 1).after pool
        [.locked 0, .completed 0, .locked 0, .completed 0, .locked 0] = some pool' ∧
      (pool'.finished : Multiset ℕ) = ↑[7, 8] := by
  have hrun : (threadPool ℕ 1).after (threadPool ℕ 1).start
      [.locked 0, .constructed, .dispatched 7 (some 0), .dispatched 8 none] =
      some ⟨[7, 8], false, 1, [.ready], .outside, [7, 8], [], []⟩ := rfl
  have hreach := Machine.Reachable.start.after hrun
  have hafter : (threadPool ℕ 1).after ⟨[7, 8], false, 1, [.ready], .outside, [7, 8], [], []⟩
      [.locked 0, .completed 0, .locked 0, .completed 0, .locked 0] =
      some ⟨[], false, 1, [.waiting], .outside, [7, 8], [7, 8], [7, 8]⟩ := rfl
  have hwork := worker_threads_finish_all (by decide) hreach rfl (by decide) hafter
  refine ⟨_, _, hreach, rfl, rfl, hafter, (hwork.2 fun e he => ?_).1⟩
  cases e with
  | locked w => cases w <;> rfl
  | completed w => cases w <;> rfl
  | _ => cases he

/-! ## No task is passed over -/

/-- An event that is not a call of `Dispatch`. -/
def PoolEvent.ownStep : PoolEvent Task → Bool
  | .dispatched _ _ => false
  | _ => true

/-- The steps of one thread until it takes a task, if there is one. -/
def Worker.patience : Worker Task → ℕ
  | .born => 3
  | .waiting | .running _ => 2
  | .ready => 1
  | .exited => 0

/-- The steps until the first task behind some others is taken. -/
def ThreadPool.patience (pool : ThreadPool Task) (ahead : List Task) : ℕ :=
  2 * ahead.length + (pool.threads.map Worker.patience).sum

theorem dequeued_mainLoop (pool : ThreadPool Task) (w : ℕ) :
    (mainLoop pool w).dequeued = pool.dequeued := by
  unfold mainLoop
  split
  · rfl
  · rfl

/-- Where a task is that had others ahead of it: it has been dequeued after them, or it still
has some of them ahead of it, and so many steps to wait at most. -/
def ThreadPool.Brings (pool : ThreadPool Task) (before : List Task) (task : Task)
    (steps : ℕ) : Prop :=
  before ++ [task] <+: pool.dequeued ∨
    ∃ ahead behind, pool.workQueue = ahead ++ task :: behind ∧ pool.dequeued ++ ahead = before ∧
      pool.patience ahead ≤ steps

/-- A thread goes on with the queue as it is. -/
theorem patience_set {ahead : List Task} {w : ℕ} {old : Worker Task} (new : Worker Task)
    (hw : pool.threads[w]? = some old) (hless : new.patience < old.patience)
    (hthreads : pool'.threads = pool.threads.set w new) :
    pool'.patience ahead < pool.patience ahead := by
  have hsum := sum_map_set Worker.patience new hw
  rw [ThreadPool.patience, ThreadPool.patience, hthreads]
  omega

/-- A thread that has been woken takes the next task. -/
theorem brings_dequeueLoop {before ahead behind : List Task} {task : Task} {w : ℕ}
    (hkill : pool.killthreads = false) (hw : pool.threads[w]? = some .ready)
    (hqueue : pool.workQueue = ahead ++ task :: behind) (hbefore : pool.dequeued ++ ahead = before)
    {steps : ℕ} (hsteps : pool.patience ahead ≤ steps + 1) :
    (dequeueLoop pool w).Brings before task steps := by
  cases ahead with
  | nil =>
    rw [List.append_nil] at hbefore
    rw [dequeueLoop, hqueue]
    dsimp only [List.nil_append]
    rw [if_pos hkill]
    exact .inl ⟨[], by rw [List.append_nil, hbefore]⟩
  | cons first ahead =>
    have hsum := sum_map_set Worker.patience (.running first) hw
    rw [dequeueLoop, hqueue]
    dsimp only [List.cons_append]
    rw [if_pos hkill]
    refine .inr ⟨ahead, behind, rfl, ?_, ?_⟩
    · rw [← hbefore, List.append_assoc]
      rfl
    · simp only [ThreadPool.patience, ThreadPool.setThread, List.length_cons,
        Worker.patience] at hsum hsteps ⊢
      omega

theorem dequeued_dequeueLoop (pool : ThreadPool Task) (w : ℕ) :
    pool.dequeued <+: (dequeueLoop pool w).dequeued := by
  have hmain : pool.dequeued <+: (mainLoop pool w).dequeued :=
    ⟨[], (List.append_nil _).trans (dequeued_mainLoop pool w).symm⟩
  unfold dequeueLoop
  split
  · exact hmain
  · split
    · exact List.prefix_append _ _
    · exact hmain

/-- A task that is dispatched later goes to the end of the queue. -/
theorem brings_dispatch {before ahead behind : List Task} {task t : Task} {signalled : Option ℕ}
    (hqueue : pool.workQueue = ahead ++ task :: behind) (hbefore : pool.dequeued ++ ahead = before)
    {steps : ℕ} (hsteps : pool.patience ahead ≤ steps)
    (hsignal : condSignal { pool with
      workQueue := pool.workQueue ++ [t], dispatched := pool.dispatched ++ [t] } signalled =
        some pool') : pool'.Brings before task steps := by
  have hlonger : pool.workQueue ++ [t] = ahead ++ task :: (behind ++ [t]) := by
    rw [hqueue, List.append_assoc, List.cons_append]
  rcases condSignal_eq hsignal with rfl | ⟨w, hw, rfl⟩
  · exact .inr ⟨ahead, behind ++ [t], hlonger, hbefore, hsteps⟩
  · refine .inr ⟨ahead, behind ++ [t], hlonger, hbefore, ?_⟩
    exact (patience_set .ready hw Nat.one_lt_two rfl).le.trans hsteps

/-- As long as the destructor is not called: what has been dequeued stays so, and every event
brings a task nearer, but a call of `Dispatch`. -/
theorem step_brings (task : Task) (steps : ℕ) {e : PoolEvent Task}
    (hbefore : pool.owner.beforeEnd = true) (hkill : pool.killthreads = false)
    (hquiet : pool.owner = .constructing → pool.workQueue = []) (he : e ≠ .destroy)
    (hstep : poolStep pool e = some (.ok pool')) :
    pool'.killthreads = false ∧ pool.dequeued <+: pool'.dequeued ∧
      ∀ ahead behind, pool.workQueue = ahead ++ task :: behind →
        pool.patience ahead ≤ steps + e.ownStep.toNat →
          pool'.Brings (pool.dequeued ++ ahead) task steps := by
  cases e with
  | locked w =>
    rw [poolStep] at hstep
    split at hstep
    · rename_i hw
      obtain rfl := Except.ok.inj (Option.some.inj hstep)
      rw [threadLoop, mainLoop, if_pos (by exact hkill)]
      refine ⟨hkill, List.prefix_refl _, fun ahead behind hqueue hsteps => ?_⟩
      have hless : ThreadPool.patience { pool.setThread w .waiting with
          numThreadsRunning := pool.numThreadsRunning + 1 } ahead < pool.patience ahead :=
        patience_set .waiting hw (Nat.lt_succ_self 2) rfl
      exact .inr ⟨ahead, behind, hqueue, rfl, Nat.le_of_lt_succ (hless.trans_le hsteps)⟩
    · rename_i hw
      obtain rfl := Except.ok.inj (Option.some.inj hstep)
      exact ⟨(killthreads_dequeueLoop pool w).trans hkill, dequeued_dequeueLoop pool w,
        fun ahead behind hqueue hsteps => brings_dequeueLoop hkill hw hqueue rfl hsteps⟩
    · cases hstep
  | wakeUp w =>
    rw [poolStep, Option.map_eq_some_iff] at hstep
    obtain ⟨pool₁, hsignal, heq⟩ := hstep
    obtain rfl := Except.ok.inj heq
    rw [condSignal] at hsignal
    split at hsignal
    · rename_i hw
      obtain rfl := Option.some.inj hsignal
      refine ⟨hkill, List.prefix_refl _, fun ahead behind hqueue hsteps => ?_⟩
      have hless : (pool.setThread w .ready).patience ahead < pool.patience ahead :=
        patience_set .ready hw Nat.one_lt_two rfl
      exact .inr ⟨ahead, behind, hqueue, rfl, Nat.le_of_lt_succ (hless.trans_le hsteps)⟩
    · cases hsignal
  | completed w =>
    rw [poolStep] at hstep
    split at hstep
    · rename_i done hw
      obtain rfl := Except.ok.inj (Option.some.inj hstep)
      refine ⟨hkill, List.prefix_refl _, fun ahead behind hqueue hsteps => ?_⟩
      have hless : ThreadPool.patience
          { pool.setThread w .ready with finished := pool.finished ++ [done] } ahead <
            pool.patience ahead := patience_set .ready hw Nat.one_lt_two rfl
      exact .inr ⟨ahead, behind, hqueue, rfl, Nat.le_of_lt_succ (hless.trans_le hsteps)⟩
    · cases hstep
  | constructed =>
    rw [poolStep] at hstep
    split at hstep
    · rename_i howner
      split at hstep
      · obtain rfl := Except.ok.inj (Option.some.inj hstep)
        refine ⟨hkill, List.prefix_refl _, fun ahead behind hqueue _ => ?_⟩
        -- nothing has been dispatched yet
        rw [hquiet howner] at hqueue
        exact absurd hqueue.symm (List.append_ne_nil_of_right_ne_nil _ (List.cons_ne_nil _ _))
      · cases hstep
    · cases hstep
  | dispatched t signalled =>
    rw [poolStep] at hstep
    split at hstep
    · cases hstep
    · cases hstep
    · rw [dispatch, if_pos hkill, Option.map_eq_some_iff] at hstep
      obtain ⟨pool₁, hsignal, heq⟩ := hstep
      obtain rfl := Except.ok.inj heq
      have hbrings : ∀ ahead behind, pool.workQueue = ahead ++ task :: behind →
          pool.patience ahead ≤ steps → pool₁.Brings (pool.dequeued ++ ahead) task steps :=
        fun ahead behind hqueue hsteps => brings_dispatch hqueue rfl hsteps hsignal
      rcases condSignal_eq hsignal with rfl | ⟨w, -, rfl⟩
      · exact ⟨hkill, List.prefix_refl _, hbrings⟩
      · exact ⟨hkill, List.prefix_refl _, hbrings⟩
  | destroy => exact absurd rfl he
  | joined =>
    rw [poolStep] at hstep
    split at hstep
    · rename_i howner
      rw [howner] at hbefore
      cases hbefore
    · cases hstep
  | emptyNext =>
    rw [poolStep] at hstep
    split at hstep
    · rename_i howner
      rw [howner] at hbefore
      cases hbefore
    · cases hstep
  | emptyCompleted =>
    rw [poolStep] at hstep
    split at hstep
    · rename_i howner
      rw [howner] at hbefore
      cases hbefore
    · cases hstep

/-- Where a task is after some events. -/
theorem ThreadPool.Brings.after {numThreads : ℕ} (hpos : 0 < numThreads) {before : List Task}
    {task : Task} : ∀ {es : List (PoolEvent Task)} {pool pool' : ThreadPool Task} {steps : ℕ},
    (threadPool Task numThreads).Reachable pool → pool.killthreads = false → .destroy ∉ es →
    (threadPool Task numThreads).after pool es = some pool' →
    pool.Brings before task (steps + es.countP PoolEvent.ownStep) →
    pool'.killthreads = false ∧ pool'.Brings before task steps
  | [], pool, pool', steps, _, hkill, _, hafter, h => by
    obtain rfl := Option.some.inj hafter
    exact ⟨hkill, h⟩
  | e :: es, pool, pool', steps, hreach, hkill, hes, hafter, h => by
    rw [Machine.after] at hafter
    split at hafter
    · rename_i pool₁ hstep
      obtain ⟨he, hes'⟩ := not_or.mp fun hmem => hes (List.mem_cons.mpr hmem)
      have hbefore := (reachable_sound_manned hreach).2.kill.mp hkill
      have hquiet := (reachable_alert hpos hreach).quiet
      have hcount : steps + (e :: es).countP PoolEvent.ownStep =
          steps + es.countP PoolEvent.ownStep + e.ownStep.toNat := by
        rw [List.countP_cons, ← Nat.add_assoc]
        cases e.ownStep <;> rfl
      rw [hcount] at h
      obtain ⟨hkill₁, hprefix, hnearer⟩ := step_brings task
        (steps + es.countP PoolEvent.ownStep) hbefore hkill hquiet (Ne.symm he) hstep
      refine ThreadPool.Brings.after hpos (.step e hreach hstep) hkill₁ hes' hafter ?_
      rcases h with hdone | ⟨ahead, behind, hqueue, rfl, hsteps⟩
      · exact .inl (hdone.trans hprefix)
      · exact hnearer ahead behind hqueue hsteps
    · cases hafter

/-- A thread that is awake goes on. -/
theorem awake_goes_on {worker : Worker Task} (hmem : worker ∈ pool.threads)
    (hawake : worker.isAwake = true) (ahead : List Task) : 0 < pool.patience ahead ∧
      ∃ e pool', e.byWorker = true ∧ poolStep pool e = some (.ok pool') := by
  obtain ⟨w, hw⟩ := List.mem_iff_getElem?.mp hmem
  have hsum := sum_map_set Worker.patience .exited hw
  cases worker with
  | ready =>
    refine ⟨?_, .locked w, dequeueLoop pool w, rfl, by rw [poolStep, hw]⟩
    rw [ThreadPool.patience]
    simp only [Worker.patience] at hsum
    omega
  | running task =>
    refine ⟨?_, .completed w,
      { pool.setThread w .ready with finished := pool.finished ++ [task] }, rfl,
      by rw [poolStep, hw]⟩
    rw [ThreadPool.patience]
    simp only [Worker.patience] at hsum
    omega
  | born => cases hawake
  | waiting => cases hawake
  | exited => cases hawake

/-- No task is passed over: as long as the destructor is not called, a task in the queue is
dequeued, after those ahead of it, before so many events have happened that are not calls of
`Dispatch`; and until then some worker thread can go on. -/
theorem no_task_starves {numThreads : ℕ} (hpos : 0 < numThreads)
    (h : (threadPool Task numThreads).Reachable pool) (hkill : pool.killthreads = false)
    {ahead behind : List Task} {task : Task} (hqueue : pool.workQueue = ahead ++ task :: behind)
    {es : List (PoolEvent Task)} (hes : .destroy ∉ es)
    (hafter : (threadPool Task numThreads).after pool es = some pool') :
    pool.dequeued ++ ahead ++ [task] <+: pool'.dequeued ∨
      es.countP PoolEvent.ownStep < pool.patience ahead ∧
        ∃ e pool'', e.byWorker = true ∧ poolStep pool' e = some (.ok pool'') := by
  have hbrings : ∀ steps, pool.patience ahead ≤ steps + es.countP PoolEvent.ownStep →
      pool'.killthreads = false ∧ pool'.Brings (pool.dequeued ++ ahead) task steps :=
    fun steps hsteps => ThreadPool.Brings.after hpos h hkill hes hafter
      (.inr ⟨ahead, behind, hqueue, rfl, hsteps⟩)
  have hwaits : ∀ ahead' behind', pool'.killthreads = false →
      pool'.workQueue = ahead' ++ task :: behind' → 0 < pool'.patience ahead' ∧
        ∃ e pool'', e.byWorker = true ∧ poolStep pool' e = some (.ok pool'') := by
    intro ahead' behind' hkill' hqueue'
    have hne : pool'.workQueue ≠ [] := by
      rw [hqueue']
      exact List.append_ne_nil_of_right_ne_nil _ (List.cons_ne_nil _ _)
    obtain ⟨worker, hworker, hawake⟩ := (reachable_alert hpos (h.after hafter)).awake hkill' hne
    exact awake_goes_on hworker hawake ahead'
  rcases Nat.lt_or_ge (es.countP PoolEvent.ownStep) (pool.patience ahead) with hlt | hge
  · obtain ⟨hkill', hdone | ⟨ahead', behind', hqueue', -, -⟩⟩ :=
      hbrings (pool.patience ahead - es.countP PoolEvent.ownStep) (by omega)
    · exact .inl hdone
    · exact .inr ⟨hlt, (hwaits ahead' behind' hkill' hqueue').2⟩
  · obtain ⟨hkill', hdone | ⟨ahead', behind', hqueue', -, hsteps⟩⟩ := hbrings 0 (by omega)
    · exact .inl hdone
    · have hpos' := (hwaits ahead' behind' hkill' hqueue').1
      omega

/-- One thread in a task and two tasks that wait; another is dispatched, and the thread takes
those that wait before it. -/
theorem no_task_starves_two : ∃ pool pool' : ThreadPool ℕ, (threadPool ℕ 1).Reachable pool ∧
    pool.workQueue = [8, 9] ∧ (threadPool ℕ 1).after pool
      [.completed 0, .dispatched 5 none, .locked 0, .completed 0, .locked 0] = some pool' ∧
    (pool.dequeued ++ [8] ++ [9] <+: pool'.dequeued ∨
      List.countP PoolEvent.ownStep [.completed 0, .dispatched 5 none, .locked 0, .completed 0,
        .locked 0] < pool.patience [8] ∧
        ∃ e pool'', e.byWorker = true ∧ poolStep pool' e = some (.ok pool'')) := by
  have hrun : (threadPool ℕ 1).after (threadPool ℕ 1).start
      [.locked 0, .constructed, .dispatched 7 (some 0), .locked 0, .dispatched 8 none,
        .dispatched 9 none] =
      some ⟨[8, 9], false, 1, [.running 7], .outside, [7, 8, 9], [7], []⟩ := rfl
  have hreach := Machine.Reachable.start.after hrun
  have hafter : (threadPool ℕ 1).after
      ⟨[8, 9], false, 1, [.running 7], .outside, [7, 8, 9], [7], []⟩
      [.completed 0, .dispatched 5 none, .locked 0, .completed 0, .locked 0] =
      some ⟨[5], false, 1, [.running 9], .outside, [7, 8, 9, 5], [7, 8, 9], [7, 8]⟩ := rfl
  have hqueue : ([8, 9] : List ℕ) = [8] ++ 9 :: [] := rfl
  exact ⟨_, _, hreach, rfl, hafter,
    no_task_starves (by decide) hreach rfl hqueue (by decide) hafter⟩

/-! ## The destructor -/

theorem leaving_wake (worker : Worker Task) : worker.wake.leaving ≤ worker.leaving := by
  cases worker <;> simp [Worker.wake, Worker.leaving]

theorem sum_leaving_wake (threads : List (Worker Task)) :
    ((threads.map Worker.wake).map Worker.leaving).sum ≤ (threads.map Worker.leaving).sum := by
  induction threads with
  | nil => exact Nat.le_refl 0
  | cons worker threads ih =>
    have hworker := leaving_wake worker
    simp only [List.map_cons, List.sum_cons]
    omega

theorem demolition_mainLoop {w : ℕ} {old : Worker Task} (hkill : pool.killthreads = true)
    (hw : pool.threads[w]? = some old) (hold : old.leaving = 1) :
    (mainLoop pool w).demolition < pool.demolition := by
  have hsum := sum_map_set Worker.leaving .exited hw
  rw [hold] at hsum
  rw [mainLoop, if_neg (by rw [hkill]; nofun)]
  simp only [ThreadPool.demolition, ThreadPool.setThread, Worker.leaving] at hsum ⊢
  omega

/-- Threads that are to go look for no task. -/
theorem dequeueLoop_of_kill (hkill : pool.killthreads = true) (w : ℕ) :
    dequeueLoop pool w = mainLoop pool w := by
  unfold dequeueLoop
  split
  · rfl
  · rw [if_neg (by rw [hkill]; nofun)]

/-- The loop over the threads, one thread further. -/
theorem demolition_joinLoop {i numThreads : ℕ} (howner : pool.owner = .joining i numThreads)
    (hi : i < numThreads) (h : joinLoop pool (i + 1) numThreads = .ok pool') :
    pool'.demolition < pool.demolition := by
  have hbefore : pool.owner.leaving = numThreads - i + 1 := by rw [howner, Owner.leaving]
  unfold joinLoop at h
  split at h
  · obtain rfl := Except.ok.inj h
    have hsum := sum_leaving_wake pool.threads
    have hnext : ThreadPool.demolition { condBroadcast pool with
        owner := .joining (i + 1) numThreads } = numThreads - (i + 1) + 1 +
          2 * pool.workQueue.length + ((pool.threads.map Worker.wake).map Worker.leaving).sum := rfl
    rw [hnext, ThreadPool.demolition, hbefore]
    omega
  · split at h
    · obtain rfl := Except.ok.inj h
      have hnext : ThreadPool.demolition { pool with owner := .emptying } =
          1 + 2 * pool.workQueue.length + (pool.threads.map Worker.leaving).sum := rfl
      rw [hnext, ThreadPool.demolition, hbefore]
      omega
    · cases h

theorem demolition_emptyQueue (howner : pool.owner = .emptying) :
    (emptyQueue pool).demolition < pool.demolition := by
  have hbefore : pool.owner.leaving = 1 := by rw [howner, Owner.leaving]
  unfold emptyQueue
  split
  · have hnext : ThreadPool.demolition { pool with owner := .destroyed } =
        0 + 2 * pool.workQueue.length + (pool.threads.map Worker.leaving).sum := rfl
    rw [hnext, ThreadPool.demolition, hbefore]
    omega
  · rename_i nextTask rest hqueue
    have hnext : ThreadPool.demolition { pool with
        workQueue := rest, owner := .running nextTask, dequeued := pool.dequeued ++ [nextTask] } =
          2 + 2 * rest.length + (pool.threads.map Worker.leaving).sum := rfl
    rw [hnext, ThreadPool.demolition, hbefore, hqueue, List.length_cons]
    omega

/-- From the start of the destructor on every step uses up some of what is left to do. -/
theorem PoolStep.demolition (hs : PoolStep pool pool') (hm : pool.Manned)
    (hkill : pool.killthreads = true) : pool'.demolition < pool.demolition := by
  cases hs with
  | @start w hw =>
    have hcounted : ThreadPool.threads { pool with
      numThreadsRunning := pool.numThreadsRunning + 1 } = pool.threads := rfl
    exact demolition_mainLoop hkill (hcounted ▸ hw) rfl
  | look hw =>
    rw [dequeueLoop_of_kill hkill]
    exact demolition_mainLoop hkill hw rfl
  | wake hw =>
    have hsum := sum_map_set Worker.leaving .ready hw
    simp only [ThreadPool.demolition, ThreadPool.setThread, Worker.leaving] at hsum ⊢
    omega
  | complete hw =>
    have hsum := sum_map_set Worker.leaving .ready hw
    simp only [ThreadPool.demolition, ThreadPool.setThread, Worker.leaving] at hsum ⊢
    omega
  | constructed howner hcount =>
    have hbefore := hm.kill.mpr (by rw [howner]; rfl)
    exact absurd (hbefore.symm.trans hkill) Bool.false_ne_true
  | dispatch t hk hsignal => exact absurd (hk.symm.trans hkill) Bool.false_ne_true
  | destroy howner hjoin =>
    have hbefore := hm.kill.mpr (by rw [howner]; rfl)
    exact absurd (hbefore.symm.trans hkill) Bool.false_ne_true
  | join howner hexited hjoin =>
    exact demolition_joinLoop howner (hm.joined _ _ howner).1 hjoin
  | empty howner => exact demolition_emptyQueue howner
  | @emptied task howner =>
    have hbefore : pool.owner.leaving = 2 := by rw [howner, Owner.leaving]
    have hnext : ThreadPool.demolition
        { pool with owner := .emptying, finished := pool.finished ++ [task] } =
          1 + 2 * pool.workQueue.length + (pool.threads.map Worker.leaving).sum := rfl
    rw [hnext, ThreadPool.demolition, hbefore]
    omega

/-- An event that happens by itself, and not for no reason. -/
def PoolEvent.byItself : PoolEvent Task → Bool
  | .wakeUp _ | .dispatched _ _ | .destroy => false
  | _ => true

/-- What holds from the start of the destructor on. -/
structure ThreadPool.Closing (pool : ThreadPool Task) (tasks : List Task) : Prop where
  /-- the threads are where the owner believes them to be -/
  manned : pool.Manned
  /-- they are to go -/
  kill : pool.killthreads = true
  /-- none of them waits any more -/
  roused : .waiting ∉ pool.threads
  /-- nothing is dispatched any more -/
  tasks : pool.dispatched = tasks

theorem not_mem_set {threads : List (Worker Task)} {old new : Worker Task} (w : ℕ)
    (h : old ∉ threads) (hne : old ≠ new) : old ∉ threads.set w new := fun hmem =>
  (List.mem_or_eq_of_mem_set hmem).elim h hne

theorem not_waiting_wake (threads : List (Worker Task)) :
    .waiting ∉ threads.map Worker.wake := by
  intro hmem
  obtain ⟨worker, -, hwake⟩ := List.mem_map.mp hmem
  cases worker <;> cases hwake

/-- The loop over the threads wakes them, or they have gone. -/
theorem roused_joinLoop {i numThreads : ℕ} (hm : pool'.Manned)
    (h : joinLoop pool i numThreads = .ok pool') : .waiting ∉ pool'.threads := by
  unfold joinLoop at h
  split at h
  · obtain rfl := Except.ok.inj h
    exact not_waiting_wake pool.threads
  · split at h
    · obtain rfl := Except.ok.inj h
      intro hmem
      exact absurd (hm.gone rfl _ hmem) nofun
    · cases h

theorem joinLoop_frame {i numThreads : ℕ} (h : joinLoop pool i numThreads = .ok pool') :
    pool'.killthreads = pool.killthreads ∧ pool'.dispatched = pool.dispatched := by
  unfold joinLoop at h
  split at h
  · obtain rfl := Except.ok.inj h
    exact ⟨rfl, rfl⟩
  · split at h
    · obtain rfl := Except.ok.inj h
      exact ⟨rfl, rfl⟩
    · cases h

theorem emptyQueue_frame (pool : ThreadPool Task) : (emptyQueue pool).threads = pool.threads ∧
    (emptyQueue pool).killthreads = pool.killthreads ∧
      (emptyQueue pool).dispatched = pool.dispatched := by
  unfold emptyQueue
  split
  · exact ⟨rfl, rfl, rfl⟩
  · exact ⟨rfl, rfl, rfl⟩

theorem mainLoop_of_kill (hkill : pool.killthreads = true) (w : ℕ) :
    mainLoop pool w = { pool.setThread w .exited with
      numThreadsRunning := pool.numThreadsRunning - 1 } := by
  rw [mainLoop, if_neg (by rw [hkill]; nofun)]

/-- What a step after the start of the destructor leaves alone. -/
theorem ThreadPool.Closing.step {tasks : List Task} (h : pool.Closing tasks)
    (hs : PoolStep pool pool') : pool'.Closing tasks := by
  have hm := hs.manned h.manned
  have hkill := h.kill
  cases hs with
  | @start w hw =>
    rw [threadLoop, mainLoop_of_kill (by exact hkill)] at hm ⊢
    exact ⟨hm, hkill, not_mem_set w h.roused nofun, h.tasks⟩
  | @look w hw =>
    rw [dequeueLoop_of_kill hkill, mainLoop_of_kill hkill] at hm ⊢
    exact ⟨hm, hkill, not_mem_set w h.roused nofun, h.tasks⟩
  | @wake w hw => exact ⟨hm, hkill, not_mem_set w h.roused nofun, h.tasks⟩
  | @complete w task hw => exact ⟨hm, hkill, not_mem_set w h.roused nofun, h.tasks⟩
  | constructed howner hcount => exact ⟨hm, hkill, h.roused, h.tasks⟩
  | dispatch t hk hsignal => exact absurd (hkill.symm.trans hk) nofun
  | destroy howner hjoin =>
    have hbefore := h.manned.kill.mpr (by rw [howner]; rfl)
    exact absurd (hkill.symm.trans hbefore) nofun
  | join howner hexited hjoin =>
    obtain ⟨hkill', htasks'⟩ := joinLoop_frame hjoin
    exact ⟨hm, hkill'.trans hkill, roused_joinLoop hm hjoin, htasks'.trans h.tasks⟩
  | empty howner =>
    obtain ⟨hthreads', hkill', htasks'⟩ := emptyQueue_frame pool
    exact ⟨hm, hkill'.trans hkill, hthreads' ▸ h.roused, htasks'.trans h.tasks⟩
  | emptied howner => exact ⟨hm, hkill, h.roused, h.tasks⟩

/-- In every state that is reached after the start of the destructor. -/
theorem reachable_closing {numThreads : ℕ} (h : (threadPool Task numThreads).Reachable pool)
    (hkill : pool.killthreads = true) : pool.Closing pool.dispatched := by
  have hroused : pool.killthreads = true → .waiting ∉ pool.threads := by
    clear hkill
    induction h with
    | start => nofun
    | @step pool₁ pool₂ e hreach hstep ih =>
      intro hkill₂
      have hm := (reachable_sound_manned hreach).2
      have hs := PoolStep.of_step hstep
      cases hkill₁ : pool₁.killthreads with
      | true => exact (ThreadPool.Closing.step ⟨hm, hkill₁, ih hkill₁, rfl⟩ hs).roused
      | false =>
        -- only the start of the destructor tells the threads to go
        have hm₂ := hs.manned hm
        cases hs with
        | start hw =>
          exact absurd ((killthreads_mainLoop _ _).symm.trans hkill₂) (by simp [hkill₁])
        | look hw =>
          exact absurd ((killthreads_dequeueLoop _ _).symm.trans hkill₂) (by simp [hkill₁])
        | wake hw => exact absurd (hkill₁.symm.trans hkill₂) nofun
        | complete hw => exact absurd (hkill₁.symm.trans hkill₂) nofun
        | constructed howner hcount => exact absurd (hkill₁.symm.trans hkill₂) nofun
        | dispatch t hk hsignal =>
          rcases condSignal_eq hsignal with rfl | ⟨w, -, rfl⟩
          · exact absurd (hkill₁.symm.trans hkill₂) nofun
          · exact absurd (hkill₁.symm.trans hkill₂) nofun
        | destroy howner hjoin => exact roused_joinLoop hm₂ hjoin
        | join howner hexited hjoin =>
          exact absurd ((joinLoop_frame hjoin).1.symm.trans hkill₂) (by simp [hkill₁])
        | empty howner =>
          exact absurd ((emptyQueue_frame pool₁).2.1.symm.trans hkill₂) (by simp [hkill₁])
        | emptied howner => exact absurd (hkill₁.symm.trans hkill₂) nofun
  exact ⟨(reachable_sound_manned h).2, hkill, hroused hkill, rfl⟩

/-- Until the destructor is done, something happens by itself. -/
theorem ThreadPool.Closing.progress {tasks : List Task} (h : pool.Closing tasks)
    (howner : pool.owner ≠ .destroyed) :
    ∃ e pool', e.byItself = true ∧ poolStep pool e = some (.ok pool') := by
  have hkill := h.kill
  have hbefore : pool.owner.beforeEnd = false := by
    cases hb : pool.owner.beforeEnd with
    | false => rfl
    | true => exact absurd (hkill.symm.trans (h.manned.kill.mpr hb)) nofun
  cases ho : pool.owner with
  | constructing => rw [ho] at hbefore; cases hbefore
  | outside => rw [ho] at hbefore; cases hbefore
  | destroyed => exact absurd ho howner
  | emptying =>
    refine ⟨.emptyNext, emptyQueue pool, rfl, ?_⟩
    rw [poolStep, ho]
  | running task =>
    refine ⟨.emptyCompleted,
      { pool with owner := .emptying, finished := pool.finished ++ [task] }, rfl, ?_⟩
    rw [poolStep, ho]
  | joining i numThreads =>
    obtain ⟨hi, hn, -⟩ := h.manned.joined i numThreads ho
    obtain ⟨worker, hw⟩ : ∃ worker, pool.threads[i]? = some worker :=
      ⟨_, List.getElem?_eq_getElem (hn ▸ hi)⟩
    -- the thread that is waited for is gone, or goes on
    cases worker with
    | waiting => exact absurd (List.mem_of_getElem? hw) h.roused
    | born =>
      refine ⟨.locked i, threadLoop pool i, rfl, ?_⟩
      rw [poolStep, hw]
    | ready =>
      refine ⟨.locked i, dequeueLoop pool i, rfl, ?_⟩
      rw [poolStep, hw]
    | running task =>
      refine ⟨.completed i,
        { pool.setThread i .ready with finished := pool.finished ++ [task] }, rfl, ?_⟩
      rw [poolStep, hw]
    | exited =>
      obtain ⟨pool₁, hnext, -⟩ := join_manned h.manned ho hw
      refine ⟨.joined, pool₁, rfl, ?_⟩
      rw [poolStep, ho]
      dsimp only
      rw [hw, hnext]

/-- When the destructor is done, every task that was dispatched has been executed. -/
theorem finished_of_destroyed {numThreads : ℕ}
    (h : (threadPool Task numThreads).Reachable pool) (howner : pool.owner = .destroyed) :
    (pool.finished : Multiset Task) = pool.dispatched := by
  obtain ⟨hsound, hm⟩ := reachable_sound_manned h
  refine finished_of_idle hsound (hm.emptied howner) ?_ ?_
  · rw [howner]
    rfl
  · intro worker hworker
    rw [hm.gone (by rw [howner]; rfl) worker hworker]
    rfl

/-- From the start of the destructor on no more events than that can happen, in any order and
with any number of wake-ups for no reason. Until the destructor is done something happens by
itself, and then every task that was ever dispatched has been executed. -/
theorem destructor_completes {numThreads : ℕ}
    (h : (threadPool Task numThreads).Reachable pool) (hkill : pool.killthreads = true)
    {es : List (PoolEvent Task)}
    (hafter : (threadPool Task numThreads).after pool es = some pool') :
    es.length ≤ pool.demolition ∧
      (pool'.owner ≠ .destroyed →
        ∃ e pool'', e.byItself = true ∧ poolStep pool' e = some (.ok pool'')) ∧
      (pool'.owner = .destroyed → (pool'.finished : Multiset Task) = pool.dispatched) := by
  have hstep : ∀ (s : ThreadPool Task) (e : PoolEvent Task) (s' : ThreadPool Task),
      s.Closing pool.dispatched → True →
      (threadPool Task numThreads).step s e = some (.ok s') →
        s'.Closing pool.dispatched ∧ s'.demolition < s.demolition := by
    intro s e s' hs _ hstep
    have hp := PoolStep.of_step hstep
    exact ⟨hs.step hp, hp.demolition hs.manned hs.kill⟩
  obtain ⟨hclosing, hle⟩ := Machine.after_measure hstep (reachable_closing h hkill)
    (fun _ _ => trivial) hafter
  refine ⟨by omega, hclosing.progress, fun howner => ?_⟩
  rw [← hclosing.tasks]
  exact finished_of_destroyed (h.after hafter) howner

/-- A thread in a task, another task in the queue: eight events, and the destructor is done. -/
theorem destructor_completes_two : ∃ pool pool' : ThreadPool ℕ,
    (threadPool ℕ 2).Reachable pool ∧ pool.dispatched = [7, 8] ∧ pool'.owner = .destroyed ∧
      (pool'.finished : Multiset ℕ) = pool.dispatched := by
  have hrun : (threadPool ℕ 2).after (threadPool ℕ 2).start
      [.locked 0, .locked 1, .constructed, .dispatched 7 (some 0), .locked 0, .wakeUp 1, .locked 1,
        .dispatched 8 (some 1), .destroy] =
      some ⟨[8], true, 2, [.running 7, .ready], .joining 0 2, [7, 8], [7], []⟩ := rfl
  have hreach := Machine.Reachable.start.after hrun
  have hafter : (threadPool ℕ 2).after
      ⟨[8], true, 2, [.running 7, .ready], .joining 0 2, [7, 8], [7], []⟩
      [.locked 1, .completed 0, .locked 0, .joined, .joined, .emptyNext, .emptyCompleted,
        .emptyNext] =
      some ⟨[], true, 0, [.exited, .exited], .destroyed, [7, 8], [7, 8], [7, 8]⟩ := rfl
  exact ⟨_, _, hreach, rfl, rfl, (destructor_completes hreach rfl hafter).2.2 rfl⟩

end Progress

end MultithreadedWebServer
