import Mathlib.Data.Multiset.UnionInter
import MultithreadedWebServer.ServeRuns
import MultithreadedWebServer.ServerLoop
import MultithreadedWebServer.PoolProgress

/-!
# Clients are served side by side as they would be served alone

A session is on track when the rest of it, run alone, gives what `HttpServer_ThrFn` run
alone on the whole connection gives. Rounds keep it on track, and nothing else touches it.
With the thread pool below, every client that was accepted is waiting, untouched, or in
service by one thread, or served; and when the destructor is done all of them have been
served.
-/

namespace MultithreadedWebServer

/-! ## What a round uses up -/

/-- A read uses up what it delivers. -/
theorem readBound_readOnce (readlen : ℕ) : ∀ reads : List ReadOutcome,
    ((readOnce readlen reads).1.getD []).length + readBound (readOnce readlen reads).2 ≤
      readBound reads
  | [] => Nat.le_refl 1
  | .retry :: reads => readBound_readOnce readlen reads
  | .fatal :: reads => (Nat.zero_add _).le
  | .bytes bs :: reads => by
    rw [readOnce]
    split
    · simp only [Option.getD_some, readBound]
      omega
    · simp only [Option.getD_some, readBound, List.length_take, List.length_drop]
      omega

/-- The read loop moves bytes into the buffer, and a header end that it finds is there. -/
theorem readBound_readRequest {fuel : ℕ} {buffer : CppString} {socket socket' : Socket}
    {res : CppString × Option ℕ} (h : (readRequest fuel buffer).Returns socket res socket') :
    res.1.length + readBound socket'.reads ≤ buffer.length + readBound socket.reads ∧
      ∀ pos, res.2 = some pos → findSub headerEnd res.1 = some pos := by
  induction fuel generalizing buffer socket with
  | zero => cases h
  | succ fuel ih =>
    obtain ⟨bs, socket₁, hread, h⟩ := Run.bind_eq_ok h
    have hbound := readBound_readOnce bufsize socket.reads
    rw [wrappedRead, Except.ok.injEq, Prod.mk.injEq] at hread
    obtain ⟨rfl, rfl⟩ := hread
    rcases hres : (readOnce bufsize socket.reads).1 with _ | bs
    · rw [hres] at h hbound
      obtain ⟨rfl, rfl⟩ := Run.pure_eq_ok.mp h
      refine ⟨?_, fun pos hpos => absurd hpos.symm (Option.some_ne_none pos)⟩
      simp only [Option.getD_none, List.length_nil] at hbound ⊢
      omega
    · rw [hres] at h hbound
      simp only [Option.getD_some] at hbound
      cases bs with
      | nil =>
        obtain ⟨rfl, rfl⟩ := Run.pure_eq_ok.mp h
        refine ⟨?_, fun pos hpos => hpos⟩
        simp only [List.length_nil] at hbound ⊢
        omega
      | cons b bs =>
        dsimp only at h
        rcases hfound : findSub headerEnd (buffer ++ b :: bs) with _ | pos
        · rw [hfound] at h
          obtain ⟨hle, hpos⟩ := ih h
          simp only [List.length_append] at hle
          exact ⟨by omega, hpos⟩
        · rw [hfound] at h
          obtain ⟨rfl, rfl⟩ := Run.pure_eq_ok.mp h
          refine ⟨?_, fun pos' hpos => hfound.trans hpos⟩
          simp only [List.length_append]
          omega

/-- What is left of a connection: the bytes in the buffer, and what may still be read. -/
def bytesLeft (hc : HttpConnection) (socket : Socket) : ℕ :=
  hc.buffer.length + readBound socket.reads

theorem receiveHeader_left {hc hc' : HttpConnection} {pos : Option ℕ} {socket socket' : Socket}
    (h : (receiveHeader hc).Returns socket (hc', pos) socket') :
    bytesLeft hc' socket' ≤ bytesLeft hc socket ∧
      ∀ p, pos = some p → findSub headerEnd hc'.buffer = some p := by
  unfold receiveHeader at h
  rcases hfound : findSub headerEnd hc.buffer with _ | p
  · rw [hfound] at h
    obtain ⟨s₁, socket₁, hget, h⟩ := Run.bind_eq_ok h
    obtain ⟨rfl, rfl⟩ : socket = s₁ ∧ socket = socket₁ := by simpa using hget
    obtain ⟨⟨buffer, pos'⟩, socket₂, hread, h⟩ := Run.bind_eq_ok h
    obtain ⟨heq, rfl⟩ := Run.pure_eq_ok.mp h
    obtain ⟨rfl, rfl⟩ := Prod.mk.inj heq
    exact readBound_readRequest hread
  · rw [hfound] at h
    obtain ⟨heq, rfl⟩ := Run.pure_eq_ok.mp h
    obtain ⟨rfl, rfl⟩ := Prod.mk.inj heq
    exact ⟨Nat.le_refl _, fun p' hp => hfound.trans hp⟩

/-- A request that was found takes some bytes away. -/
theorem getNextRequest_left {hc hc' : HttpConnection} {req req' : HttpRequest}
    {socket socket' : Socket}
    (h : (getNextRequest hc req).Returns socket (true, req', hc') socket') :
    bytesLeft hc' socket' < bytesLeft hc socket := by
  unfold getNextRequest at h
  obtain ⟨⟨hc₁, pos⟩, socket₁, hreceive, h⟩ := Run.bind_eq_ok h
  obtain ⟨hle, hfound⟩ := receiveHeader_left hreceive
  cases pos with
  | none =>
    obtain ⟨heq, -⟩ := Run.pure_eq_ok.mp h
    cases heq
  | some pos =>
    obtain ⟨req₁, socket₂, hparse, h⟩ := Run.bind_eq_ok h
    obtain ⟨heq, rfl⟩ := Run.pure_eq_ok.mp h
    obtain ⟨-, -, rfl⟩ :
        True ∧ req₁ = req' ∧ (⟨hc₁.buffer.drop (pos + 4)⟩ : HttpConnection) = hc' := by
      simpa using heq
    have hsocket : socket₁ = socket₂ := by
      rcases hp : parseRequest hc₁ (pos + 4) with e | r
      · rw [hp] at hparse
        cases hparse
      · rw [hp] at hparse
        exact (Prod.mk.inj (Except.ok.inj hparse)).2
    subst hsocket
    -- the header end is in the buffer, so there is something to drop
    have hin : pos + headerEnd.length ≤ hc₁.buffer.length :=
      (findSub_eq_some (hfound pos rfl)).1
    have hlen : headerEnd.length = 4 := rfl
    simp only [bytesLeft, List.length_drop] at hle ⊢
    omega

/-! ## One client -/

/-- What follows a round. -/
def serveNext (site : Site) (fuel : ℕ) : Option (HttpConnection × HttpRequest) → Run Client Unit
  | none => return ()
  | some (hc, req) => serveLoop site fuel hc req

/-- The loop is a round and what follows it. -/
theorem serveLoop_eq (site : Site) (fuel : ℕ) (hc : HttpConnection) (req : HttpRequest) :
    serveLoop site (fuel + 1) hc req = serveRound site hc req >>= serveNext site fuel := by
  funext client
  rw [serveLoop, serveRound]
  rcases hnext : onSocket (getNextRequest hc req) client with e | ⟨⟨found, req', hc'⟩, client₁⟩
  · rw [Run.bind_error hnext, Run.bind_error (Run.bind_error hnext)]
  rw [Run.bind_ok hnext, Run.bind_assoc, Run.bind_ok hnext]
  dsimp only
  rcases hprocess : onMallocs (processRequest site req') client₁ with e | ⟨hp, client₂⟩
  · rw [Run.bind_error hprocess, Run.bind_error (Run.bind_error hprocess)]
  rw [Run.bind_ok hprocess, Run.bind_assoc, Run.bind_ok hprocess]
  rcases hwrite : onSocket (writeResponse hp) client₂ with e | ⟨res, client₃⟩
  · rw [Run.bind_error hwrite, Run.bind_error (Run.bind_error hwrite)]
  rw [Run.bind_ok hwrite, Run.bind_assoc, Run.bind_ok hwrite, Run.ite_apply]
  split
  · rfl
  · rfl

theorem onSocket_inv {α : Type} {m : Run Socket α} {client client' : Client} {a : α}
    (h : (onSocket m).Returns client a client') :
    m.Returns client.socket a client'.socket ∧ client'.mallocs = client.mallocs := by
  rw [Run.Returns, onSocket, Run.zoom] at h
  rcases hm : m client.socket with e | ⟨b, socket⟩
  · rw [hm] at h
    cases h
  · rw [hm] at h
    obtain ⟨rfl, rfl⟩ := Prod.mk.inj (Except.ok.inj h)
    exact ⟨hm, rfl⟩

theorem onMallocs_inv {α : Type} {m : Run Schedule α} {client client' : Client} {a : α}
    (h : (onMallocs m).Returns client a client') : client'.socket = client.socket := by
  rw [Run.Returns, onMallocs, Run.zoom] at h
  rcases hm : m client.mallocs with e | ⟨b, mallocs⟩
  · rw [hm] at h
    cases h
  · rw [hm] at h
    obtain ⟨rfl, rfl⟩ := Prod.mk.inj (Except.ok.inj h)
    rfl

/-- Writing reads nothing. -/
theorem wrappedWrite_reads {buf : List UInt8} {writelen r : ℤ} {socket socket' : Socket}
    (h : (wrappedWrite buf writelen).Returns socket r socket') : socket'.reads = socket.reads := by
  rw [Run.Returns, wrappedWrite] at h
  dsimp only at h
  obtain ⟨-, rfl⟩ := Prod.mk.inj (Except.ok.inj h)
  rfl

theorem writeResponse_reads {response : HttpResponse} {socket socket' : Socket} {res : Bool}
    (h : (writeResponse response).Returns socket res socket') : socket'.reads = socket.reads := by
  obtain ⟨r, socket₁, hwrite, h⟩ := Run.bind_eq_ok h
  obtain ⟨-, rfl⟩ := Run.pure_eq_ok.mp h
  exact wrappedWrite_reads hwrite

/-- A round that is not the last one uses up some of the connection. -/
theorem serveRound_left {site : Site} {hc hc' : HttpConnection} {req req' : HttpRequest}
    {client client' : Client}
    (h : (serveRound site hc req).Returns client (some (hc', req')) client') :
    bytesLeft hc' client'.socket < bytesLeft hc client.socket := by
  rw [serveRound] at h
  obtain ⟨⟨found, req₁, hc₁⟩, client₁, hnext, h⟩ := Run.bind_eq_ok h
  obtain ⟨hp, client₂, hprocess, h⟩ := Run.bind_eq_ok h
  obtain ⟨res, client₃, hwrite, h⟩ := Run.bind_eq_ok h
  dsimp only at h
  rw [Run.ite_apply] at h
  split at h
  · cases h
  · rename_i hgoes
    obtain ⟨heq, rfl⟩ := Run.pure_eq_ok.mp h
    obtain ⟨rfl, rfl⟩ := Prod.mk.inj (Option.some.inj heq)
    have hfound : found = true := by
      cases found with
      | true => rfl
      | false => exact absurd (.inl rfl) hgoes
    subst hfound
    have hless := getNextRequest_left (onSocket_inv hnext).1
    have hreads := writeResponse_reads (onSocket_inv hwrite).1
    rw [onMallocs_inv hprocess] at hreads
    rw [bytesLeft] at hless ⊢
    rw [hreads]
    exact hless

/-- A session that will give what `HttpServer_ThrFn` gives on the whole connection. -/
def Session.OnTrack (site : Site) (client : Client) : Session → Prop
  | .serving hc req now => ∃ fuel, bytesLeft hc now.socket < fuel ∧
      httpServerThrFn site client = serveLoop site fuel hc req now
  | .closed now => (httpServerThrFn site).Returns client () now

theorem Session.onTrack_start (site : Site) (client : Client) :
    (Session.start client).OnTrack site client := by
  refine ⟨readBound client.socket.reads + 1, ?_, rfl⟩
  rw [bytesLeft, List.length_nil]
  omega

/-- A round keeps a session on track, and if it stops, so does the function run alone. -/
theorem Session.OnTrack.round {site : Site} {client : Client} {session : Session}
    {r : Except Stop Session} (h : session.OnTrack site client)
    (hround : session.round site = some r) :
    (∀ next, r = .ok next → next.OnTrack site client) ∧
      ∀ e, r = .error e → httpServerThrFn site client = .error e := by
  cases session with
  | closed now => cases hround
  | serving hc req now =>
    obtain ⟨fuel, hfuel, halone⟩ := h
    obtain ⟨fuel, rfl⟩ := Nat.exists_eq_succ_of_ne_zero (Nat.ne_of_gt (Nat.zero_lt_of_lt hfuel))
    rw [serveLoop_eq] at halone
    rw [Session.round] at hround
    rcases hrun : serveRound site hc req now with e | ⟨next, now'⟩
    · rw [hrun] at hround
      obtain rfl := Option.some.inj hround
      refine ⟨nofun, fun e' he => ?_⟩
      obtain rfl := Except.error.inj he
      rw [halone, Run.bind_error hrun]
    · rw [Run.bind_ok hrun] at halone
      rw [hrun] at hround
      rcases next with _ | ⟨hc', req'⟩
      · obtain rfl := Option.some.inj hround
        refine ⟨fun next hnext => ?_, nofun⟩
        obtain rfl := Except.ok.inj hnext
        exact halone
      · obtain rfl := Option.some.inj hround
        refine ⟨fun next hnext => ?_, nofun⟩
        obtain rfl := Except.ok.inj hnext
        have hless := serveRound_left hrun
        exact ⟨fuel, by omega, halone⟩

/-! ## The pool below -/

section Pool

variable {pool pool' : ThreadPool ℕ}

/-- What an event of the pool does to the tasks: none comes but by `Dispatch`, and the one that
is finished was in execution by the thread that says so. -/
structure TasksStay (pool pool' : ThreadPool ℕ) (done : ℕ → Prop) : Prop where
  /-- the tasks that were dispatched -/
  dispatched : pool'.dispatched = pool.dispatched
  /-- the queue only shrinks -/
  queue : ∀ n ∈ pool'.workQueue, n ∈ pool.workQueue
  /-- what is finished was so, or is now -/
  finished : ∀ n ∈ pool'.finished, n ∈ pool.finished ∨ done n

theorem TasksStay.of_eq {done : ℕ → Prop} (hdispatched : pool'.dispatched = pool.dispatched)
    (hqueue : pool'.workQueue = pool.workQueue) (hfinished : pool'.finished = pool.finished) :
    TasksStay pool pool' done where
  dispatched := hdispatched
  queue _ hn := hqueue ▸ hn
  finished _ hn := .inl (hfinished ▸ hn)

theorem tasksStay_mainLoop (pool : ThreadPool ℕ) (w : ℕ) (done : ℕ → Prop) :
    TasksStay pool (mainLoop pool w) done := by
  unfold mainLoop
  split
  · exact .of_eq rfl rfl rfl
  · exact .of_eq rfl rfl rfl

theorem tasksStay_dequeueLoop (pool : ThreadPool ℕ) (w : ℕ) (done : ℕ → Prop) :
    TasksStay pool (dequeueLoop pool w) done := by
  unfold dequeueLoop
  split
  · exact tasksStay_mainLoop pool w done
  · rename_i nextTask rest hqueue
    split
    · exact ⟨rfl, fun n hn => hqueue ▸ List.mem_cons_of_mem _ hn, fun n hn => .inl hn⟩
    · exact tasksStay_mainLoop pool w done

theorem tasksStay_joinLoop {i numThreads : ℕ} (h : joinLoop pool i numThreads = .ok pool')
    (done : ℕ → Prop) : TasksStay pool pool' done := by
  unfold joinLoop at h
  split at h
  · obtain rfl := Except.ok.inj h
    exact .of_eq rfl rfl rfl
  · split at h
    · obtain rfl := Except.ok.inj h
      exact .of_eq rfl rfl rfl
    · cases h

/-- A call of `Dispatch`. -/
theorem poolStep_dispatched {t : ℕ} {signalled : Option ℕ}
    (h : poolStep pool (.dispatched t signalled) = some (.ok pool')) :
    pool'.workQueue = pool.workQueue ++ [t] ∧ pool'.dispatched = pool.dispatched ++ [t] ∧
      pool'.finished = pool.finished := by
  rw [poolStep] at h
  split at h
  · cases h
  · cases h
  · unfold dispatch at h
    split at h
    · obtain ⟨pool₁, hsignal, heq⟩ := Option.map_eq_some_iff.mp h
      obtain rfl := Except.ok.inj heq
      rcases condSignal_eq hsignal with rfl | ⟨w, -, rfl⟩
      · exact ⟨rfl, rfl, rfl⟩
      · exact ⟨rfl, rfl, rfl⟩
    · cases h

/-- The task whose function returns in this event. -/
def Returned (pool : ThreadPool ℕ) (e : PoolEvent ℕ) (n : ℕ) : Prop :=
  (∃ w, e = .completed w ∧ pool.threads[w]? = some (.running n)) ∨
    e = .emptyCompleted ∧ pool.owner = .running n

/-- Every event but a call of `Dispatch`. -/
theorem tasksStay_poolStep {e : PoolEvent ℕ} (he : e.ownStep = true)
    (h : poolStep pool e = some (.ok pool')) : TasksStay pool pool' (Returned pool e) := by
  cases e with
  | dispatched t signalled => cases he
  | locked w =>
    rw [poolStep] at h
    split at h
    · obtain rfl := Except.ok.inj (Option.some.inj h)
      have hmain := tasksStay_mainLoop { pool with
        numThreadsRunning := pool.numThreadsRunning + 1 } w (Returned pool (.locked w))
      exact ⟨hmain.dispatched, hmain.queue, hmain.finished⟩
    · obtain rfl := Except.ok.inj (Option.some.inj h)
      exact tasksStay_dequeueLoop pool w _
    · cases h
  | wakeUp w =>
    rw [poolStep, Option.map_eq_some_iff] at h
    obtain ⟨pool₁, hsignal, heq⟩ := h
    obtain rfl := Except.ok.inj heq
    rcases condSignal_eq hsignal with rfl | ⟨w, -, rfl⟩
    · exact .of_eq rfl rfl rfl
    · exact .of_eq rfl rfl rfl
  | completed w =>
    rw [poolStep] at h
    split at h
    · rename_i task hw
      obtain rfl := Except.ok.inj (Option.some.inj h)
      refine ⟨rfl, fun n hn => hn, fun n hn => ?_⟩
      rcases List.mem_append.mp hn with hn | hn
      · exact .inl hn
      · obtain rfl := List.mem_singleton.mp hn
        exact .inr (.inl ⟨w, rfl, hw⟩)
    · cases h
  | constructed =>
    rw [poolStep] at h
    split at h
    · split at h
      · obtain rfl := Except.ok.inj (Option.some.inj h)
        exact .of_eq rfl rfl rfl
      · cases h
    · cases h
  | destroy =>
    rw [poolStep] at h
    split at h
    · have hjoin := tasksStay_joinLoop (Option.some.inj h) (Returned pool .destroy)
      exact ⟨hjoin.dispatched, hjoin.queue, hjoin.finished⟩
    · cases h
  | joined =>
    rw [poolStep] at h
    split at h
    · split at h
      · exact tasksStay_joinLoop (Option.some.inj h) _
      · cases h
      · cases h
    · cases h
  | emptyNext =>
    rw [poolStep] at h
    split at h
    · obtain rfl := Except.ok.inj (Option.some.inj h)
      unfold emptyQueue
      split
      · exact .of_eq rfl rfl rfl
      · rename_i nextTask rest hqueue
        exact ⟨rfl, fun n hn => hqueue ▸ List.mem_cons_of_mem _ hn, fun n hn => .inl hn⟩
    · cases h
  | emptyCompleted =>
    rw [poolStep] at h
    split at h
    · rename_i task howner
      obtain rfl := Except.ok.inj (Option.some.inj h)
      refine ⟨rfl, fun n hn => hn, fun n hn => ?_⟩
      rcases List.mem_append.mp hn with hn | hn
      · exact .inl hn
      · obtain rfl := List.mem_singleton.mp hn
        exact .inr (.inr ⟨rfl, howner⟩)
    · cases h

end Pool

/-! ## The server -/

section Server

variable {site : Site} {s s' : Server}

/-- What holds in every reachable state of the server. -/
structure Server.Sound (site : Site) (s : Server) : Prop where
  /-- there is a session for each client -/
  length : s.sessions.length = s.accepted.length
  /-- the tasks are the numbers of the clients, in the order in which they came -/
  tasks : s.pool.dispatched = List.range s.accepted.length
  /-- every session is on track -/
  onTrack : ∀ (n : ℕ) (client : Client) (session : Session), s.accepted[n]? = some client →
    s.sessions[n]? = some session → session.OnTrack site client
  /-- nobody has touched a client that waits -/
  fresh : ∀ n ∈ s.pool.workQueue, ∀ client : Client, s.accepted[n]? = some client →
    s.sessions[n]? = some (Session.start client)
  /-- a task that is finished is a client that has been served -/
  closed : ∀ n ∈ s.pool.finished, s.hasClosed n = true

/-- The pool goes on. -/
theorem Server.Sound.pool (h : s.Sound site) {e : PoolEvent ℕ} (he : e.ownStep = true)
    (hclosed : ∀ n, Returned s.pool e n → s.hasClosed n = true)
    (hstep : s.withPool e = some (.ok s')) : s'.Sound site := by
  rw [Server.withPool, Option.map_eq_some_iff] at hstep
  obtain ⟨r, hpool, hr⟩ := hstep
  cases r with
  | error err => cases hr
  | ok pool' =>
    obtain rfl := Except.ok.inj hr
    have hstay := tasksStay_poolStep he hpool
    refine ⟨h.length, hstay.dispatched.trans h.tasks, h.onTrack,
      fun n hn => h.fresh n (hstay.queue n hn), fun n hn => ?_⟩
    rcases hstay.finished n hn with hn | hn
    · exact h.closed n hn
    · exact hclosed n hn

/-- What the pool does when it is not called is right. -/
theorem Server.allows_returned {e : PoolEvent ℕ} (he : s.allows e = true) :
    e.ownStep = true ∧ ∀ n, Returned s.pool e n → s.hasClosed n = true := by
  cases e with
  | dispatched t signalled => cases he
  | completed w =>
    refine ⟨rfl, ?_⟩
    rintro n (⟨w', heq, hw⟩ | ⟨heq, -⟩)
    · obtain rfl := PoolEvent.completed.inj heq
      rw [Server.allows, hw] at he
      exact he
    · cases heq
  | emptyCompleted =>
    refine ⟨rfl, ?_⟩
    rintro n (⟨w', heq, -⟩ | ⟨-, howner⟩)
    · cases heq
    · rw [Server.allows, howner] at he
      exact he
  | _ =>
    refine ⟨rfl, ?_⟩
    rintro n (⟨w', heq, -⟩ | ⟨heq, -⟩)
    · cases heq
    · cases heq

/-- A client comes to the end of the queue. -/
theorem Server.Sound.accept (h : s.Sound site) {client : Client} {signalled : Option ℕ}
    (hstep : Server.withPool ⟨s.pool, s.accepted ++ [client], s.sessions ++ [Session.start client]⟩
      (.dispatched s.accepted.length signalled) = some (.ok s')) : s'.Sound site := by
  rw [Server.withPool, Option.map_eq_some_iff] at hstep
  obtain ⟨r, hpool, hr⟩ := hstep
  cases r with
  | error err => cases hr
  | ok pool' =>
    obtain rfl := Except.ok.inj hr
    obtain ⟨hqueue, hdispatched, hfinished⟩ := poolStep_dispatched hpool
    have hsame := h.length
    -- the new client is the last one, and the others are where they were
    have hplace : ∀ (n : ℕ) (c : Client), (s.accepted ++ [client])[n]? = some c →
        s.accepted[n]? = some c ∧ (s.sessions ++ [Session.start client])[n]? = s.sessions[n]? ∨
          c = client ∧
            (s.sessions ++ [Session.start client])[n]? = some (Session.start client) := by
      intro n c hc
      rcases Nat.lt_or_ge n s.accepted.length with hlt | hge
      · rw [List.getElem?_append_left hlt] at hc
        exact .inl ⟨hc, List.getElem?_append_left (hsame ▸ hlt)⟩
      · obtain rfl : n = s.accepted.length := by
          have hn := (List.getElem?_eq_some_iff.mp hc).1
          rw [List.length_append, List.length_singleton] at hn
          omega
        rw [List.getElem?_concat_length] at hc
        refine .inr ⟨(Option.some.inj hc).symm, ?_⟩
        rw [← hsame, List.getElem?_concat_length]
    refine ⟨?_, ?_, fun n c session hc hsession => ?_, fun n hn c hc => ?_, fun n hn => ?_⟩
    · simp only [List.length_append, hsame]
      rfl
    · dsimp only
      rw [hdispatched, h.tasks, List.length_append, List.length_singleton, List.range_succ]
    · dsimp only at hsession
      rcases hplace n c hc with ⟨hold, hwhere⟩ | ⟨rfl, hwhere⟩
      · exact h.onTrack n c session hold (hwhere ▸ hsession)
      · obtain rfl := Option.some.inj (hwhere.symm.trans hsession)
        exact Session.onTrack_start site c
    · dsimp only at hn ⊢
      rw [hqueue] at hn
      rcases hplace n c hc with ⟨hold, hwhere⟩ | ⟨rfl, hwhere⟩
      · rcases List.mem_append.mp hn with hn | hn
        · rw [hwhere]
          exact h.fresh n hn c hold
        · obtain rfl := List.mem_singleton.mp hn
          exact absurd (List.getElem?_eq_some_iff.mp hold).1 (Nat.lt_irrefl _)
      · exact hwhere
    · dsimp only at hn
      rw [hfinished] at hn
      have hclosed := h.closed n hn
      unfold Server.hasClosed at hclosed ⊢
      dsimp only
      rcases hold : s.sessions[n]? with _ | session
      · rw [hold] at hclosed
        cases hclosed
      · rw [List.getElem?_append_left (List.getElem?_eq_some_iff.mp hold).1]
        exact hclosed

/-- A thread serves its client. -/
theorem Server.Sound.round (h : s.Sound site) (hboard : s.pool.board.Sound) {n : ℕ}
    (hn : n ∈ s.pool.executing) {session next : Session} (hsession : s.sessions[n]? = some session)
    (hround : session.round site = some (.ok next)) :
    Server.Sound site { s with sessions := s.sessions.set n next } := by
  have hlt := (List.getElem?_eq_some_iff.mp hsession).1
  -- the client that is served neither waits nor has been served
  have hnodup : (s.pool.dispatched : Multiset ℕ).Nodup := by
    rw [h.tasks]
    exact List.nodup_range
  have hconserved : (s.pool.dispatched : Multiset ℕ) =
      s.pool.workQueue + s.pool.executing + s.pool.finished := hboard.conserved
  rw [hconserved] at hnodup
  have hwaits : n ∉ s.pool.workQueue := fun hmem =>
    Multiset.disjoint_left.mp (Multiset.disjoint_of_nodup_add (Multiset.nodup_add.mp hnodup).1)
      (Multiset.mem_coe.mpr hmem) hn
  have hother : ∀ m ≠ n, (s.sessions.set n next)[m]? = s.sessions[m]? :=
    fun m hm => List.getElem?_set_ne (Ne.symm hm)
  refine ⟨?_, h.tasks, fun m c now hc hnow => ?_, fun m hm c hc => ?_, fun m hm => ?_⟩
  · dsimp only
    rw [List.length_set]
    exact h.length
  · dsimp only at hnow
    by_cases heq : m = n
    · subst heq
      rw [List.getElem?_set_self hlt] at hnow
      exact ((h.onTrack m c session hc hsession).round hround).1 now
        (congrArg _ (Option.some.inj hnow))
    · rw [hother m heq] at hnow
      exact h.onTrack m c now hc hnow
  · have heq : m ≠ n := fun heq => hwaits (heq ▸ hm)
    dsimp only
    rw [hother m heq]
    exact h.fresh m hm c hc
  · have hclosed := h.closed m hm
    have heq : m ≠ n := by
      rintro rfl
      -- a session that is closed has no more rounds
      rw [Server.hasClosed, hsession] at hclosed
      cases session with
      | closed client => cases hround
      | serving hc req client => cases hclosed
    unfold Server.hasClosed at hclosed ⊢
    dsimp only
    rw [hother m heq]
    exact hclosed

/-- Every step keeps what holds of the server, and is a step of the pool or none. -/
theorem Server.Sound.step (h : s.Sound site) (hboard : s.pool.board.Sound) {e : ServerEvent}
    (hstep : serverStep site s e = some (.ok s')) :
    s'.Sound site ∧ (s'.pool = s.pool ∨ ∃ pe, poolStep s.pool pe = some (.ok s'.pool)) := by
  have hpool : ∀ {t : Server} {pe : PoolEvent ℕ}, t.withPool pe = some (.ok s') →
      poolStep t.pool pe = some (.ok s'.pool) := by
    intro t pe ht
    rw [Server.withPool, Option.map_eq_some_iff] at ht
    obtain ⟨r, hr, hs⟩ := ht
    cases r with
    | error err => cases hs
    | ok pool' =>
      obtain rfl := Except.ok.inj hs
      exact hr
  cases e with
  | accepted client signalled =>
    rw [serverStep] at hstep
    split at hstep
    · have hp := hpool hstep
      exact ⟨h.accept hstep, .inr ⟨_, hp⟩⟩
    · cases hstep
  | refused =>
    refine ⟨h.pool rfl ?_ hstep, .inr ⟨_, hpool hstep⟩⟩
    rintro n (⟨w', heq, -⟩ | ⟨heq, -⟩)
    · cases heq
    · cases heq
  | unnamed =>
    rw [serverStep] at hstep
    split at hstep
    · cases hstep
    · cases hstep
  | round n =>
    rw [serverStep] at hstep
    split at hstep
    · rename_i hn
      split at hstep
      · rename_i session hsession
        obtain ⟨r, hround, hr⟩ := Option.map_eq_some_iff.mp hstep
        cases r with
        | error err => cases hr
        | ok next =>
          obtain rfl := Except.ok.inj hr
          exact ⟨h.round hboard hn hsession hround, .inl rfl⟩
      · cases hstep
    · cases hstep
  | pool pe =>
    rw [serverStep] at hstep
    split at hstep
    · rename_i hallowed
      obtain ⟨hown, hreturned⟩ := Server.allows_returned hallowed
      exact ⟨h.pool hown hreturned hstep, .inr ⟨pe, hpool hstep⟩⟩
    · cases hstep

/-- In every reachable state, and the pool below is in one. -/
theorem reachable_sound {numThreads : ℕ} (h : (server site numThreads).Reachable s) :
    s.Sound site ∧ (threadPool ℕ numThreads).Reachable s.pool := by
  induction h with
  | start => exact ⟨⟨rfl, rfl, nofun, nofun, nofun⟩, .start⟩
  | step e hreach hstep ih =>
    obtain ⟨hsound, hpool⟩ := ih
    obtain ⟨hsound', hsame | ⟨pe, hpe⟩⟩ := hsound.step (reachable_sound_manned hpool).1 hstep
    · exact ⟨hsound', hsame ▸ hpool⟩
    · exact ⟨hsound', .step pe hpool hpe⟩

/-- The process only stops in `Accept`, for want of a name, or where a client's own run stops. -/
theorem Server.Sound.stops (h : s.Sound site) (hm : s.pool.Manned) {e : ServerEvent} {err : Stop}
    (hstep : serverStep site s e = some (.error err)) :
    (e = .unnamed ∧ s.pool.owner = .outside ∧ err = .verify333) ∨
      ∃ n client, e = .round n ∧ s.accepted[n]? = some client ∧
        httpServerThrFn site client = .error err := by
  have hpool : ∀ {t : Server} {pe : PoolEvent ℕ}, t.withPool pe = some (.error err) →
      t.pool = s.pool → pe.ownStep = false ∧ s.pool.killthreads = true := by
    intro t pe ht hsame
    rw [Server.withPool, Option.map_eq_some_iff] at ht
    obtain ⟨r, hr, hs⟩ := ht
    cases r with
    | ok pool' => cases hs
    | error err' =>
      rw [hsame] at hr
      obtain ⟨hkill, t', signalled, rfl⟩ := hm.checks hr
      exact ⟨rfl, hkill⟩
  cases e with
  | accepted client signalled =>
    rw [serverStep] at hstep
    split at hstep
    · rename_i howner
      have hkill := hm.kill.mpr (by rw [howner]; rfl)
      have hp := hpool hstep rfl
      exact absurd (hkill.symm.trans hp.2) nofun
    · cases hstep
  | refused =>
    have hp := hpool hstep rfl
    exact absurd hp.1 nofun
  | unnamed =>
    rw [serverStep] at hstep
    split at hstep
    · rename_i howner
      exact .inl ⟨rfl, howner, (Except.error.inj (Option.some.inj hstep)).symm⟩
    · cases hstep
  | pool pe =>
    rw [serverStep] at hstep
    split at hstep
    · rename_i hallowed
      have hp := hpool hstep rfl
      exact absurd ((Server.allows_returned hallowed).1.symm.trans hp.1) nofun
    · cases hstep
  | round n =>
    rw [serverStep] at hstep
    split at hstep
    · split at hstep
      · rename_i session hsession
        obtain ⟨r, hround, hr⟩ := Option.map_eq_some_iff.mp hstep
        cases r with
        | ok next => cases hr
        | error err' =>
          obtain rfl := Except.error.inj hr
          have hlt := (List.getElem?_eq_some_iff.mp hsession).1
          rw [h.length] at hlt
          have hclient := List.getElem?_eq_getElem hlt
          exact .inr ⟨n, _, rfl, hclient,
            ((h.onTrack n _ session hclient hsession).round hround).2 err' rfl⟩
      · cases hstep
    · cases hstep

/-- What has become of a client that has been served. -/
theorem Server.Sound.served (h : s.Sound site) {n : ℕ} {client : Client}
    (hclient : s.accepted[n]? = some client) (hn : n ∈ s.pool.finished) :
    ∃ served, s.sessions[n]? = some (.closed served) ∧
      (httpServerThrFn site).Returns client () served := by
  have hclosed := h.closed n hn
  rw [Server.hasClosed] at hclosed
  rcases hsession : s.sessions[n]? with _ | session
  · rw [hsession] at hclosed
    cases hclosed
  · have htrack := h.onTrack n client session hclient hsession
    cases session with
    | closed served => exact ⟨served, rfl, htrack⟩
    | serving hc req now =>
      rw [hsession] at hclosed
      cases hclosed

/-- A client that says nothing. -/
def silentClient : Client := clientOf []

/-- It gets the bare page, and the connection is closed. -/
def silentServed : Client := ⟨⟨[], [], generateResponseString (queryPage [])⟩, []⟩

theorem round_silentClient :
    (Session.start silentClient).round bareSite = some (.ok (.closed silentServed)) := by
  decide +kernel

/-- Two of them, and one thread: the second is served by the destructor. -/
def silentLast : Server where
  pool := ⟨[], true, 0, [.exited], .running 1, [0, 1], [0, 1], [0]⟩
  accepted := [silentClient, silentClient]
  sessions := [.closed silentServed, .closed silentServed]

/-- And `Run` returns. -/
def silentDone : Server where
  pool := ⟨[], true, 0, [.exited], .destroyed, [0, 1], [0, 1], [0, 1]⟩
  accepted := [silentClient, silentClient]
  sessions := [.closed silentServed, .closed silentServed]

theorem reachable_round {numThreads n : ℕ} (h : (server site numThreads).Reachable s)
    (hn : n ∈ s.pool.executing) {session next : Session} (hsession : s.sessions[n]? = some session)
    (hround : session.round site = some (.ok next)) :
    (server site numThreads).Reachable { s with sessions := s.sessions.set n next } := by
  refine .step (.round n) h ?_
  change serverStep site s (.round n) = _
  rw [serverStep, if_pos hn, hsession]
  dsimp only
  rw [hround]
  rfl

theorem reachable_silentLast : (server bareSite 1).Reachable silentLast := by
  have hbusy : (server bareSite 1).after (server bareSite 1).start
      [.pool (.locked 0), .pool .constructed, .accepted silentClient (some 0), .pool (.locked 0),
        .accepted silentClient none] =
      some ⟨⟨[1], false, 1, [.running 0], .outside, [0, 1], [0], []⟩,
        [silentClient, silentClient],
        [Session.start silentClient, Session.start silentClient]⟩ := rfl
  have hserving := Machine.Reachable.start.after hbusy
  have hfirst := reachable_round (n := 0) hserving (by decide) rfl round_silentClient
  have hstopped : (server bareSite 1).after
      ⟨⟨[1], false, 1, [.running 0], .outside, [0, 1], [0], []⟩,
        [silentClient, silentClient], [.closed silentServed, Session.start silentClient]⟩
      [.refused, .pool (.completed 0), .pool (.locked 0), .pool .joined, .pool .emptyNext] =
      some ⟨⟨[], true, 0, [.exited], .running 1, [0, 1], [0, 1], [0]⟩,
        [silentClient, silentClient], [.closed silentServed, Session.start silentClient]⟩ := rfl
  have hlast := hfirst.after hstopped
  exact reachable_round (n := 1) hlast (by decide) rfl round_silentClient

theorem after_silentLast : (server bareSite 1).after silentLast
    [.pool .emptyCompleted, .pool .emptyNext] = some silentDone := rfl

end Server

end MultithreadedWebServer
