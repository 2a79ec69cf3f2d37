import MultithreadedWebServer.ServerRuns

/-!
# The server comes to its end

When `Accept` fails, `Run` returns as soon as the destructor of the thread pool has. From
then on every event uses up some of what is left of the pool or of a connection, and until
`Run` returns something can happen. Clients that were accepted before are served first.
-/

namespace MultithreadedWebServer

section Shutdown

variable {site : Site} {s s' : Server} {numThreads : ℕ}

/-! ## What is left to do -/

/-- The rounds until a client has been served. -/
def Session.left : Session → ℕ
  | .serving hc _ client => bytesLeft hc client.socket + 1
  | .closed _ => 0

/-- The events until `Run` returns. -/
def Server.left (s : Server) : ℕ := s.pool.demolition + (s.sessions.map Session.left).sum

theorem left_round {session next : Session} (h : session.round site = some (.ok next)) :
    next.left < session.left := by
  cases session with
  | closed client => cases h
  | serving hc req client =>
    rw [Session.round] at h
    rcases hrun : serveRound site hc req client with e | ⟨rest, client'⟩
    · rw [hrun] at h
      cases h
    · rw [hrun] at h
      rcases rest with _ | ⟨hc', req'⟩
      · obtain rfl := Except.ok.inj (Option.some.inj h)
        exact Nat.succ_pos _
      · obtain rfl := Except.ok.inj (Option.some.inj h)
        exact Nat.succ_lt_succ (serveRound_left hrun)

/-- What holds of the server from then on. -/
structure Server.Closing (site : Site) (s : Server) (tasks : List ℕ) : Prop where
  /-- the sessions are as they should be -/
  sound : s.Sound site
  /-- and so are the tasks -/
  board : s.pool.board.Sound
  /-- the pool is being destroyed -/
  pool : s.pool.Closing tasks

/-- Every event uses up some of what is left to do. -/
theorem Server.Closing.step {tasks : List ℕ} (h : s.Closing site tasks) {e : ServerEvent}
    (hstep : serverStep site s e = some (.ok s')) :
    s'.Closing site tasks ∧ s'.accepted = s.accepted ∧ s'.left < s.left := by
  obtain ⟨hsound', hpool⟩ := h.sound.step h.board hstep
  have hkill := h.pool.kill
  have hwith : ∀ {pe : PoolEvent ℕ}, s.withPool pe = some (.ok s') →
      s'.Closing site tasks ∧ s'.accepted = s.accepted ∧ s'.left < s.left := by
    intro pe ht
    rw [Server.withPool, Option.map_eq_some_iff] at ht
    obtain ⟨r, hr, hs⟩ := ht
    cases r with
    | error err => cases hs
    | ok pool' =>
      obtain rfl := Except.ok.inj hs
      have hp := PoolStep.of_step hr
      refine ⟨⟨hsound', h.board.move hp.board, h.pool.step hp⟩, rfl, ?_⟩
      exact Nat.add_lt_add_right (hp.demolition h.pool.manned hkill) _
  cases e with
  | accepted client signalled =>
    rw [serverStep] at hstep
    split at hstep
    · -- nobody is accepted any more
      rename_i howner
      have hbefore := h.pool.manned.kill.mpr (by rw [howner]; rfl)
      exact absurd (hbefore.symm.trans hkill) Bool.false_ne_true
    · cases hstep
  | refused => exact hwith hstep
  | unnamed =>
    rw [serverStep] at hstep
    split at hstep
    · cases hstep
    · cases hstep
  | pool pe =>
    rw [serverStep] at hstep
    split at hstep
    · exact hwith hstep
    · cases hstep
  | round n =>
    rw [serverStep] at hstep
    split at hstep
    · split at hstep
      · rename_i session hsession
        obtain ⟨r, hround, hr⟩ := Option.map_eq_some_iff.mp hstep
        cases r with
        | error err => cases hr
        | ok next =>
          obtain rfl := Except.ok.inj hr
          have hless := left_round hround
          have hsum := sum_map_set Session.left next hsession
          refine ⟨⟨hsound', h.board, h.pool⟩, rfl, ?_⟩
          simp only [Server.left]
          omega
      · cases hstep
    · cases hstep

/-! ## Until `Run` returns something can happen -/

/-- An event that happens by itself, and not for no reason. -/
def ServerEvent.byItself : ServerEvent → Bool
  | .round _ => true
  | .pool e => e.byItself
  | .accepted _ _ | .refused | .unnamed => false

/-- A thread in the function of a task goes on with it, or has returned from it. -/
theorem Server.Closing.serve {tasks : List ℕ} (h : s.Closing site tasks) {n : ℕ}
    (hn : n ∈ s.pool.executing) (hopen : s.hasClosed n = false) :
    ∃ e r, e.byItself = true ∧ serverStep site s e = some r := by
  have hmem : n ∈ s.pool.dispatched := by
    have hconserved : (s.pool.dispatched : Multiset ℕ) =
        s.pool.workQueue + s.pool.executing + s.pool.finished := h.board.conserved
    rw [← Multiset.mem_coe, hconserved]
    exact Multiset.mem_add.mpr (.inl (Multiset.mem_add.mpr (.inr hn)))
  rw [h.sound.tasks, List.mem_range, ← h.sound.length] at hmem
  have hsession := List.getElem?_eq_getElem hmem
  rw [Server.hasClosed, hsession] at hopen
  cases hserving : s.sessions[n] with
  | closed client =>
    rw [hserving] at hopen
    cases hopen
  | serving hc req client =>
    rw [hserving] at hsession
    obtain ⟨r, hround⟩ : ∃ r, (Session.serving hc req client).round site = some r := by
      rw [Session.round]
      split
      · exact ⟨_, rfl⟩
      · exact ⟨_, rfl⟩
      · exact ⟨_, rfl⟩
    have hstep : serverStep site s (.round n) = some (r.map fun next =>
        { s with sessions := s.sessions.set n next }) := by
      rw [serverStep, if_pos hn, hsession]
      dsimp only
      rw [hround]
      rfl
    exact ⟨.round n, _, rfl, hstep⟩

theorem Server.Closing.progress {tasks : List ℕ} (h : s.Closing site tasks)
    (howner : s.pool.owner ≠ .destroyed) :
    ∃ e r, e.byItself = true ∧ serverStep site s e = some r := by
  obtain ⟨pe, pool', hself, hpe⟩ := h.pool.progress howner
  by_cases hallowed : s.allows pe = true
  · refine ⟨.pool pe, .ok { s with pool := pool' }, hself, ?_⟩
    rw [serverStep, if_pos hallowed, Server.withPool, hpe]
    rfl
  -- the pool only has to wait for a function that has not returned
  · cases pe with
    | completed w =>
      rw [poolStep] at hpe
      split at hpe
      · rename_i n hw
        rw [Server.allows, hw] at hallowed
        refine h.serve (n := n) ?_ (eq_false_of_ne_true hallowed)
        rw [ThreadPool.executing]
        refine Multiset.mem_add.mpr (.inr (Multiset.mem_coe.mpr ?_))
        exact List.mem_filterMap.mpr ⟨_, List.mem_of_getElem? hw, rfl⟩
      · cases hpe
    | emptyCompleted =>
      rw [poolStep] at hpe
      split at hpe
      · rename_i n hrunning
        rw [Server.allows, hrunning] at hallowed
        refine h.serve (n := n) ?_ (eq_false_of_ne_true hallowed)
        rw [ThreadPool.executing, hrunning]
        exact Multiset.mem_add.mpr (.inl (List.mem_singleton_self n))
      · cases hpe
    | wakeUp w => cases hself
    | dispatched t signalled => cases hself
    | destroy => cases hself
    | _ => exact absurd rfl hallowed

/-! ## Every run -/

/-- After `Accept` has failed no more events than that can happen, in any order; until `Run`
returns something happens by itself; and when it returns, every client that was ever accepted
has been sent what `HttpServer_ThrFn` alone would send it. -/
theorem server_shuts_down (h : (server site numThreads).Reachable s)
    (hkill : s.pool.killthreads = true) {es : List ServerEvent}
    (hafter : (server site numThreads).after s es = some s') :
    es.length ≤ s.left ∧
      (s'.pool.owner ≠ .destroyed →
        ∃ e r, e.byItself = true ∧ serverStep site s' e = some r) ∧
      (s'.pool.owner = .destroyed → ∀ (n : ℕ) (client : Client), s.accepted[n]? = some client →
        ∃ served, s'.sessions[n]? = some (.closed served) ∧
          (httpServerThrFn site).Returns client () served) := by
  obtain ⟨hsound, hpool⟩ := reachable_sound h
  have hclosing : s.Closing site s.pool.dispatched :=
    ⟨hsound, (reachable_sound_manned hpool).1, reachable_closing hpool hkill⟩
  have hstep : ∀ (t : Server) (e : ServerEvent) (t' : Server),
      (t.Closing site s.pool.dispatched ∧ t.accepted = s.accepted) → True →
      (server site numThreads).step t e = some (.ok t') →
        (t'.Closing site s.pool.dispatched ∧ t'.accepted = s.accepted) ∧ t'.left < t.left := by
    rintro t e t' ⟨ht, haccepted⟩ _ hstep
    obtain ⟨ht', hsame, hless⟩ := ht.step hstep
    exact ⟨⟨ht', hsame.trans haccepted⟩, hless⟩
  obtain ⟨⟨hclosing', haccepted⟩, hle⟩ :=
    Machine.after_measure hstep ⟨hclosing, rfl⟩ (fun _ _ => trivial) hafter
  refine ⟨by omega, hclosing'.progress, fun howner n client hclient => ?_⟩
  rw [← haccepted] at hclient
  refine hclosing'.sound.served hclient ?_
  -- the pool has executed every task
  have hall := finished_of_destroyed (reachable_sound (h.after hafter)).2 howner
  have hlt := (List.getElem?_eq_some_iff.mp hclient).1
  rw [hclosing'.sound.tasks] at hall
  rw [← Multiset.mem_coe, hall]
  exact Multiset.mem_coe.mpr (List.mem_range.mpr hlt)

theorem server_shuts_down_silent : silentLast.pool.killthreads = true ∧
    (server bareSite 1).after silentLast [.pool .emptyCompleted, .pool .emptyNext] =
      some silentDone ∧ silentDone.pool.owner = .destroyed ∧
    ∃ served, silentDone.sessions[1]? = some (.closed served) ∧
      (httpServerThrFn bareSite).Returns silentClient () served :=
  ⟨rfl, after_silentLast, rfl,
    (server_shuts_down reachable_silentLast rfl after_silentLast).2.2 rfl 1 silentClient rfl⟩

end Shutdown

end MultithreadedWebServer
