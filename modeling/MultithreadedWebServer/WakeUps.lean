import MultithreadedWebServer.ThreadPoolRuns

/-!
# No wake-up is lost

A thread waits without looking at the queue first, and a signal that nobody waits for is
forgotten. It does not matter: a thread comes to wait only with the queue empty, and if
nobody waits when a task is dispatched then every thread is about to look at the queue.
-/

namespace MultithreadedWebServer

section WakeUps

variable {Task : Type} {pool pool' : ThreadPool Task}

/-- A thread that will look at the queue. -/
def Worker.isAwake : Worker Task → Bool
  | .ready | .running _ => true
  | _ => false

/-- Where there are tasks, there is a thread that will look at the queue. -/
structure ThreadPool.Alert (pool : ThreadPool Task) : Prop where
  /-- there are threads -/
  crewed : pool.threads ≠ []
  /-- nothing is dispatched before the constructor returns -/
  quiet : pool.owner = .constructing → pool.workQueue = []
  /-- a thread is awake if there is something to do -/
  awake : pool.killthreads = false → pool.workQueue ≠ [] →
    ∃ worker ∈ pool.threads, worker.isAwake = true

/-! ## One thread -/

/-- A thread that is awake now. -/
theorem exists_awake_set {threads : List (Worker Task)} {w : ℕ} {old new : Worker Task}
    (hw : threads[w]? = some old) (hnew : new.isAwake = true) :
    ∃ worker ∈ threads.set w new, worker.isAwake = true :=
  ⟨new, List.mem_set (List.getElem?_eq_some_iff.mp hw).1 new, hnew⟩

theorem set_ne_nil {threads : List (Worker Task)} (h : threads ≠ []) (w : ℕ)
    (new : Worker Task) : threads.set w new ≠ [] := by
  rw [← List.length_pos_iff] at h ⊢
  rw [List.length_set]
  exact h

/-- A thread that becomes awake. -/
theorem ThreadPool.Alert.rouse (h : pool.Alert) {w : ℕ} {old new : Worker Task}
    (hw : pool.threads[w]? = some old) (hnew : new.isAwake = true)
    (hthreads : pool'.threads = pool.threads.set w new) (howner : pool'.owner = pool.owner)
    (hqueue : pool.workQueue = [] → pool'.workQueue = []) : pool'.Alert where
  crewed := by
    rw [hthreads]
    exact set_ne_nil h.crewed w new
  quiet := by
    rw [howner]
    exact fun hc => hqueue (h.quiet hc)
  awake := by
    rw [hthreads]
    exact fun _ _ => exists_awake_set hw hnew

/-- A thread that comes to wait, or is gone, when there is nothing to do. -/
theorem ThreadPool.Alert.mainLoop (h : pool.Alert)
    (hidle : pool.killthreads = false → pool.workQueue = []) (w : ℕ) :
    (mainLoop pool w).Alert := by
  unfold MultithreadedWebServer.mainLoop
  split
  · rename_i hkill
    exact ⟨set_ne_nil h.crewed w _, h.quiet, fun _ hne => absurd (hidle hkill) hne⟩
  · rename_i hkill
    exact ⟨set_ne_nil h.crewed w _, h.quiet, fun hk => absurd hk hkill⟩

theorem ThreadPool.Alert.dequeueLoop (h : pool.Alert) {w : ℕ} {old : Worker Task}
    (hw : pool.threads[w]? = some old) : (dequeueLoop pool w).Alert := by
  unfold MultithreadedWebServer.dequeueLoop
  split
  · rename_i hqueue
    exact h.mainLoop (fun _ => hqueue) w
  · rename_i nextTask rest hqueue
    split
    · have hrouse : (Worker.running nextTask).isAwake = true := rfl
      refine h.rouse hw hrouse rfl rfl ?_
      intro hnil
      rw [hqueue] at hnil
      cases hnil
    · rename_i hkill
      exact h.mainLoop (fun hk => absurd hk hkill) w

/-! ## A signal -/

/-- After a signal a thread is awake: the one that was woken, or, as nobody waited, any. -/
theorem awake_condSignal {signalled : Option ℕ} (hcrewed : pool.threads ≠ [])
    (hborn : .born ∉ pool.threads) (hexited : .exited ∉ pool.threads)
    (h : condSignal pool signalled = some pool') :
    ∃ worker ∈ pool'.threads, worker.isAwake = true := by
  cases signalled with
  | some w =>
    rw [condSignal] at h
    split at h
    · rename_i hw
      obtain rfl := Option.some.inj h
      exact exists_awake_set hw rfl
    · cases h
  | none =>
    rw [condSignal] at h
    split at h
    · cases h
    · rename_i hnone
      obtain rfl := Option.some.inj h
      obtain ⟨worker, hworker⟩ := List.exists_mem_of_ne_nil pool.threads hcrewed
      refine ⟨worker, hworker, ?_⟩
      cases worker with
      | born => exact absurd hworker hborn
      | exited => exact absurd hworker hexited
      | waiting => exact absurd (List.any_eq_true.mpr ⟨_, hworker, rfl⟩) hnone
      | ready => rfl
      | running task => rfl

/-! ## The start-up -/

theorem dispatched_mainLoop (pool : ThreadPool Task) (w : ℕ) :
    (mainLoop pool w).dispatched = pool.dispatched := by
  unfold mainLoop
  split
  · rfl
  · rfl

theorem dispatched_dequeueLoop (pool : ThreadPool Task) (w : ℕ) :
    (dequeueLoop pool w).dispatched = pool.dispatched := by
  unfold dequeueLoop
  split
  · exact dispatched_mainLoop pool w
  · split
    · rfl
    · exact dispatched_mainLoop pool w

/-- Nothing is dispatched while the constructor runs. -/
theorem dispatched_of_constructing {e : PoolEvent Task} (howner : pool.owner = .constructing)
    (h : poolStep pool e = some (.ok pool')) : pool'.dispatched = pool.dispatched := by
  cases e with
  | locked w =>
    rw [poolStep] at h
    split at h
    · obtain rfl := Except.ok.inj (Option.some.inj h)
      exact dispatched_mainLoop _ w
    · obtain rfl := Except.ok.inj (Option.some.inj h)
      exact dispatched_dequeueLoop pool w
    · cases h
  | wakeUp w =>
    rw [poolStep, Option.map_eq_some_iff] at h
    obtain ⟨pool₁, hsignal, heq⟩ := h
    obtain rfl := Except.ok.inj heq
    rcases condSignal_eq hsignal with rfl | ⟨w, -, rfl⟩
    · rfl
    · rfl
  | completed w =>
    rw [poolStep] at h
    split at h
    · obtain rfl := Except.ok.inj (Option.some.inj h)
      rfl
    · cases h
  | constructed =>
    rw [poolStep, howner] at h
    dsimp only at h
    split at h
    · obtain rfl := Except.ok.inj (Option.some.inj h)
      rfl
    · cases h
  | _ =>
    rw [poolStep, howner] at h
    cases h

/-! ## Every step -/

/-- A task that is dispatched is seen by a thread. -/
theorem ThreadPool.Alert.dispatch (hm : pool.Manned) (h : pool.Alert) {t : Task}
    {signalled : Option ℕ} (howner : pool.owner ≠ .constructing) (hkill : pool.killthreads = false)
    (hsignal : condSignal { pool with
      workQueue := pool.workQueue ++ [t], dispatched := pool.dispatched ++ [t] } signalled =
        some pool') : pool'.Alert := by
  have hawake : ∃ worker ∈ pool'.threads, worker.isAwake = true := by
    refine awake_condSignal ?_ ?_ ?_ hsignal
    · exact h.crewed
    · exact hm.started howner
    · exact hm.stays hkill
  rcases condSignal_eq hsignal with rfl | ⟨w, -, rfl⟩
  · exact ⟨h.crewed, fun hc => absurd hc howner, fun _ _ => hawake⟩
  · exact ⟨set_ne_nil h.crewed w _, fun hc => absurd hc howner, fun _ _ => hawake⟩

/-- When the threads have been told to go it does not matter any more. -/
theorem alert_joinLoop {i numThreads : ℕ} (hcrewed : pool.threads ≠ [])
    (hkill : pool.killthreads = true) (h : joinLoop pool i numThreads = .ok pool') :
    pool'.Alert := by
  unfold joinLoop at h
  split at h
  · obtain rfl := Except.ok.inj h
    refine ⟨?_, nofun, fun hk => absurd (hkill.symm.trans hk) nofun⟩
    exact fun hnil => hcrewed (List.map_eq_nil_iff.mp hnil)
  · split at h
    · obtain rfl := Except.ok.inj h
      exact ⟨hcrewed, nofun, fun hk => absurd (hkill.symm.trans hk) nofun⟩
    · cases h

/-- After the start of the destructor they have. -/
theorem ThreadPool.Manned.killed (h : pool.Manned) (hend : pool.owner.beforeEnd = false) :
    pool.killthreads = true := by
  cases hk : pool.killthreads with
  | true => rfl
  | false => exact absurd (hend.symm.trans (h.kill.mp hk)) Bool.false_ne_true

/-- Every step keeps a thread awake where there is something to do. -/
theorem PoolStep.alert (hs : PoolStep pool pool') (hm : pool.Manned) (h : pool.Alert)
    (hstart : pool.owner = .constructing → pool'.dispatched = pool.dispatched) : pool'.Alert := by
  cases hs with
  | @start w hw =>
    -- a thread is born while the constructor runs, and then there is nothing to do
    have hidle : pool.workQueue = [] := by
      by_contra hne
      exact hm.started (fun howner => hne (h.quiet howner)) (List.mem_of_getElem? hw)
    have hcounted : ThreadPool.Alert { pool with
        numThreadsRunning := pool.numThreadsRunning + 1 } := ⟨h.crewed, h.quiet, h.awake⟩
    exact hcounted.mainLoop (fun _ => hidle) w
  | look hw => exact h.dequeueLoop hw
  | wake hw => exact h.rouse hw rfl rfl rfl id
  | complete hw =>
    have hrouse : (Worker.ready : Worker Task).isAwake = true := rfl
    exact h.rouse hw hrouse rfl rfl id
  | constructed howner hcount => exact ⟨h.crewed, nofun, h.awake⟩
  | dispatch t hkill hsignal =>
    have howner : pool.owner ≠ .constructing := by
      intro hc
      have hgrown : pool'.dispatched = pool.dispatched ++ [t] := by
        rcases condSignal_eq hsignal with rfl | ⟨w, -, rfl⟩
        · rfl
        · rfl
      rw [hstart hc] at hgrown
      exact absurd (List.self_eq_append_right.mp hgrown) nofun
    exact h.dispatch hm howner hkill hsignal
  | destroy howner hjoin =>
    have htold : joinLoop { pool with killthreads := true } 0 pool.numThreadsRunning =
        .ok pool' := hjoin
    refine alert_joinLoop ?_ ?_ htold
    · exact h.crewed
    · rfl
  | join howner hexited hjoin =>
    exact alert_joinLoop h.crewed (hm.killed (by rw [howner]; rfl)) hjoin
  | empty howner =>
    have hkill := hm.killed (by rw [howner]; rfl)
    unfold emptyQueue
    split
    · exact ⟨h.crewed, nofun, fun hk => absurd (hkill.symm.trans hk) nofun⟩
    · exact ⟨h.crewed, nofun, fun hk => absurd (hkill.symm.trans hk) nofun⟩
  | emptied howner =>
    have hkill := hm.killed (by rw [howner]; rfl)
    exact ⟨h.crewed, nofun, fun hk => absurd (hkill.symm.trans hk) nofun⟩

/-! ## Every run -/

/-- In every reachable state of a pool with threads one of them is awake if there is
something to do. -/
theorem reachable_alert {numThreads : ℕ} (hpos : 0 < numThreads)
    (h : (threadPool Task numThreads).Reachable pool) : pool.Alert := by
  have hboth : pool.Manned ∧ pool.Alert := by
    induction h with
    | start =>
      refine ⟨(reachable_sound_manned .start).2, ?_, fun _ => rfl, fun _ hne => absurd rfl hne⟩
      exact List.ne_nil_of_length_pos (by rw [threadPool, List.length_replicate]; exact hpos)
    | @step pool₁ pool₂ e hreach hstep ih =>
      obtain ⟨hm, halert⟩ := ih
      have hs := PoolStep.of_step hstep
      exact ⟨hs.manned hm, hs.alert hm halert fun hc => dispatched_of_constructing hc hstep⟩
  exact hboth.2

/-- As long as the threads are not to go: if there is a task in the queue, a thread is in a task
function, or has been woken and is about to have the lock. -/
theorem no_lost_wake_up {numThreads : ℕ} (hpos : 0 < numThreads)
    (h : (threadPool Task numThreads).Reachable pool) (hkill : pool.killthreads = false)
    (hqueue : pool.workQueue ≠ []) :
    ∃ worker ∈ pool.threads, worker = .ready ∨ ∃ task, worker = .running task := by
  obtain ⟨worker, hworker, hawake⟩ := (reachable_alert hpos h).awake hkill hqueue
  refine ⟨worker, hworker, ?_⟩
  cases worker with
  | ready => exact .inl rfl
  | running task => exact .inr ⟨task, rfl⟩
  | born => cases hawake
  | waiting => cases hawake
  | exited => cases hawake

/-- A task behind one that is executed, with nobody to be woken. -/
theorem no_lost_wake_up_one : ∃ pool : ThreadPool ℕ, (threadPool ℕ 1).Reachable pool ∧
    pool.workQueue = [8] ∧
      ∃ worker ∈ pool.threads, worker = .ready ∨ ∃ task, worker = .running task := by
  have hrun : (threadPool ℕ 1).after (threadPool ℕ 1).start
      [.locked 0, .constructed, .dispatched 7 (some 0), .locked 0, .dispatched 8 none] =
      some ⟨[8], false, 1, [.running 7], .outside, [7, 8], [7], []⟩ := rfl
  have hreach := Machine.Reachable.start.after hrun
  exact ⟨_, hreach, rfl, no_lost_wake_up (by decide) hreach rfl (by decide)⟩

end WakeUps

end MultithreadedWebServer
