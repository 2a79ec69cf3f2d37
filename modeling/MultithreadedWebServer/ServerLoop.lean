import MultithreadedWebServer.HttpServer
import MultithreadedWebServer.ThreadPoolRuns

/-!
# HttpServer.cc: the server, from a client to the next

`HttpServer::Run` accepts clients and hands each of them to the thread pool; the threads
serve them side by side. The pool is the one of `ThreadPool.cc`, a task of it is the number
of a client, and what a thread does between two tests of the loop of `HttpServer_ThrFn` is
one step. An exception that leaves a thread, and undefined behaviour in one, ends the
server, and so does `Accept` when it cannot find out a name.
-/

namespace MultithreadedWebServer

/-! ## One client -/

/-- The body of the loop of `HttpServer_ThrFn`: what the next round starts from, if there is
one. -/
def serveRound (site : Site) (hc : HttpConnection) (req : HttpRequest) :
    Run Client (Option (HttpConnection × HttpRequest)) := do
  let (res, req, hc) ← onSocket (getNextRequest hc req)
  let done := !res
  let hp ← onMallocs (processRequest site req)
  let res ← onSocket (writeResponse hp)
  let close := StringMap.find? hp.headers (ascii "connection") = some (ascii "close")
  if done ∨ !res ∨ close then return none else return some (hc, req)

/-- A client, between two rounds of `HttpServer_ThrFn`. -/
inductive Session where
  /-- with `hc` and `req` -/
  | serving (hc : HttpConnection) (req : HttpRequest) (client : Client)
  /-- the function has returned, and `hc` closed the connection -/
  | closed (client : Client)
  deriving DecidableEq

/-- The start of `HttpServer_ThrFn`. -/
def Session.start (client : Client) : Session := .serving ⟨[]⟩ HttpRequest.new client

/-- Once more through the loop. -/
def Session.round (site : Site) : Session → Option (Except Stop Session)
  | .serving hc req client =>
    match serveRound site hc req client with
    | .error e => some (.error e)
    | .ok (some (hc, req), client) => some (.ok (.serving hc req client))
    | .ok (none, client) => some (.ok (.closed client))
  | .closed _ => none

/-- The function has returned. -/
def Session.isClosed : Session → Bool
  | .closed _ => true
  | .serving .. => false

/-! ## The server -/

/-- `HttpServer::Run`, after `BindAndListen`. -/
structure Server where
  /-- `tp` -/
  pool : ThreadPool ℕ
  /-- the clients that `Accept` has returned, in order -/
  accepted : List Client
  /-- what has become of each of them -/
  sessions : List Session

/-- `kNumThreads`. -/
def kNumThreads : ℕ := 100

/-- The function of this task has returned. -/
def Server.hasClosed (s : Server) (n : ℕ) : Bool :=
  match s.sessions[n]? with
  | some session => session.isClosed
  | none => false

/-- An event. -/
inductive ServerEvent where
  /-- `Accept` returns true, and `Dispatch` is called; and the thread that it wakes -/
  | accepted (client : Client) (signalled : Option ℕ)
  /-- `Accept` returns false, and the destructor of `tp` is called -/
  | refused
  /-- `Accept` has a connection, but `getnameinfo` fails for the client or the server, or
  `getsockname` does: `Verify333` ends the process -/
  | unnamed
  /-- the thread that serves this client goes through its loop -/
  | round (n : ℕ)
  /-- the thread pool goes on -/
  | pool (e : PoolEvent ℕ)

/-- What the pool does when it is not called. A task function returns when it has. -/
def Server.allows (s : Server) : PoolEvent ℕ → Bool
  | .dispatched _ _ | .destroy => false
  | .completed w =>
    match s.pool.threads[w]? with
    | some (.running n) => s.hasClosed n
    | _ => false
  | .emptyCompleted =>
    match s.pool.owner with
    | .running n => s.hasClosed n
    | _ => false
  | _ => true

/-- What an event of the pool leads to. -/
def Server.withPool (s : Server) (e : PoolEvent ℕ) : Option (Except Stop Server) :=
  (poolStep s.pool e).map fun r => r.map fun pool => { s with pool := pool }

/-- What an event leads to, if it can happen. -/
def serverStep (site : Site) (s : Server) : ServerEvent → Option (Except Stop Server)
  | .accepted client signalled =>
    match s.pool.owner with
    | .outside =>
      Server.withPool ⟨s.pool, s.accepted ++ [client], s.sessions ++ [Session.start client]⟩
        (.dispatched s.accepted.length signalled)
    | _ => none
  | .refused => s.withPool .destroy
  | .unnamed =>
    match s.pool.owner with
    | .outside => some (.error .verify333)
    | _ => none
  | .round n =>
    if n ∈ s.pool.executing then
      match s.sessions[n]? with
      | some session =>
        (session.round site).map fun r => r.map fun next =>
          { s with sessions := s.sessions.set n next }
      | none => none
    else none
  | .pool e => if s.allows e then s.withPool e else none

/-- A server with a number of worker threads. -/
def server (site : Site) (numThreads : ℕ) : Machine Server ServerEvent Stop where
  start := ⟨(threadPool ℕ numThreads).start, [], []⟩
  step := serverStep site

/-- `HttpServer::Run`. -/
def httpServerRun (site : Site) : Machine Server ServerEvent Stop := server site kNumThreads

end MultithreadedWebServer
