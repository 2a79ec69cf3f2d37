import Mathlib.Data.Int.Notation
import MultithreadedWebServer.Holdings

/-!
# ServerSocket.cc, and ConnectToServer: who closes a descriptor

`BindAndListen` and `ConnectToServer` go through the addresses that `getaddrinfo` has found and
take the first one that works. What the host does with the address at a place of the list is given
by `Host`; the sockets of the process are an `Arena`, whose addresses are the descriptors.

`Opens` says which descriptors are open afterwards that were not open before. A descriptor that
nobody has a copy of is never closed again.
-/

namespace MultithreadedWebServer

/-! ## Sockets -/

/-- `struct addrinfo`. -/
structure AddrInfo where
  /-- `ai_family` -/
  aiFamily : ℤ
  /-- `ai_addr`, with `ai_addrlen` bytes -/
  aiAddr : List UInt8
  deriving DecidableEq

/-- What a descriptor refers to. -/
inductive SocketState where
  /-- a new socket -/
  | created (aiFamily : ℤ)
  /-- after `bind` -/
  | bound (aiAddr : List UInt8)
  /-- after `listen` -/
  | listening (aiAddr : List UInt8)
  /-- after `connect` -/
  | connected (aiAddr : List UInt8)
  deriving DecidableEq

/-- The host, while a function is running. The calls on an address are told apart by its place
in the list that `getaddrinfo` has returned, which may have an address twice. -/
structure Host where
  /-- `getaddrinfo` for a name, if any, a port and a family; `none` is an error -/
  getaddrinfo : Option (List UInt8) → UInt16 → ℤ → Option (List AddrInfo)
  /-- `socket` succeeds -/
  opens : ℕ → Bool
  /-- `bind` succeeds -/
  binds : ℕ → Bool
  /-- `listen` succeeds -/
  listens : ℕ → Bool
  /-- `connect` succeeds -/
  connects : ℕ → Bool

/-- An address, and its place in the list. -/
abbrev Found : Type := AddrInfo × ℕ

/-- A computation of the process, which has these sockets open. -/
abbrev OnSockets : Type → Type := Run (Arena SocketState)

/-- `socket`. -/
def openSocket (host : Host) (rp : Found) : OnSockets (Option Addr) := do
  let fds ← Run.get
  if host.opens rp.2 then
    Run.set (fds.alloc (.created rp.1.aiFamily))
    return some fds.fresh
  else
    return none

/-- A call that changes a socket if it succeeds. -/
def changeSocket (fd : Addr) (succeeds : Bool) (socket : SocketState) : OnSockets Bool := do
  if succeeds then
    let fds ← Run.get
    let fds ← store fds (some fd) fun _ => socket
    Run.set fds
    return true
  else
    return false

/-- `close`. -/
def closeSocket (fd : Addr) : OnSockets PUnit := do
  let fds ← Run.get
  let fds ← release fds (some fd)
  Run.set fds

/-! ## ServerSocket -/

/-- `ServerSocket`. -/
structure ServerSocket where
  /-- `port_` -/
  port : UInt16
  /-- `listen_sock_fd_`; `none` is -1 -/
  listenSockFd : Option Addr
  /-- `sock_family_`; it is not set before `BindAndListen` -/
  sockFamily : Option ℤ
  deriving DecidableEq

/-- The constructor. -/
def ServerSocket.new (port : UInt16) : ServerSocket := ⟨port, none, none⟩

/-- The destructor. -/
def ServerSocket.close (ss : ServerSocket) : OnSockets PUnit :=
  match ss.listenSockFd with
  | none => pure ⟨⟩
  | some fd => closeSocket fd

/-- The loop of `BindAndListen`: `ret_fd`, and the address it is bound to. -/
def bindFirst (host : Host) : List Found → OnSockets (Option (Addr × Found))
  | [] => return none
  | rp :: rps => do
    match ← openSocket host rp with
    | none => bindFirst host rps
    | some retFd =>
      if ← changeSocket retFd (host.binds rp.2) (.bound rp.1.aiAddr) then
        return some (retFd, rp)
      else
        closeSocket retFd
        bindFirst host rps

/-- `BindAndListen`: `*listen_fd` if it returns true. -/
def bindAndListen (host : Host) (ss : ServerSocket) (aiFamily : ℤ) :
    OnSockets (Option Addr × ServerSocket) := do
  match host.getaddrinfo none ss.port aiFamily with
  | none => return (none, ss)
  | some result =>
    match ← bindFirst host result.zipIdx with
    | none => return (none, ss)
    | some (retFd, rp) =>
      if ← changeSocket retFd (host.listens rp.2) (.listening rp.1.aiAddr) then
        return (some retFd, { ss with listenSockFd := some retFd, sockFamily := some aiFamily })
      else
        return (none, ss)

/-! ## ConnectToServer -/

/-- The loop of `ConnectToServer`: `clientsock`. -/
def connectFirst (host : Host) : List Found → OnSockets (Option Addr)
  | [] => return none
  | r :: rs => do
    match ← openSocket host r with
    | none => connectFirst host rs
    | some clientsock =>
      if ← changeSocket clientsock (host.connects r.2) (.connected r.1.aiAddr) then
        return some clientsock
      else
        connectFirst host rs

/-- `ConnectToServer`: `*client_fd` if it returns true. The family is `AF_UNSPEC`. -/
def connectToServer (host : Host) (hostName : List UInt8) (portnum : UInt16) :
    OnSockets (Option Addr) :=
  match host.getaddrinfo (some hostName) portnum 0 with
  | none => return none
  | some results => connectFirst host results.zipIdx

/-! ## One call -/

section Calls

variable {fds : Arena SocketState} {host : Host}

theorem openSocket_fails {rp : Found} (h : host.opens rp.2 = false) (fds : Arena SocketState) :
    (openSocket host rp).Returns fds none fds := by
  refine Run.Returns.bind (Run.get_apply fds) ?_
  rw [h]
  rfl

theorem openSocket_returns {rp : Found} (h : host.opens rp.2 = true) (fds : Arena SocketState) :
    (openSocket host rp).Returns fds (some fds.fresh) (fds.alloc (.created rp.1.aiFamily)) := by
  refine Run.Returns.bind (Run.get_apply fds) ?_
  rw [h]
  rfl

theorem changeSocket_fails {succeeds : Bool} (h : succeeds = false) (fd : Addr)
    (socket : SocketState) (fds : Arena SocketState) :
    (changeSocket fd succeeds socket).Returns fds false fds := by
  subst h
  rfl

theorem changeSocket_returns {succeeds : Bool} {fd : Addr} {socket₀ : SocketState}
    (h : succeeds = true) (hread : fds.read fd = some socket₀) (socket : SocketState) :
    (changeSocket fd succeeds socket).Returns fds true (fds.write fd socket) := by
  subst h
  refine Run.Returns.bind (Run.get_apply fds) ?_
  rw [store_some _ hread]
  rfl

theorem closeSocket_returns {fd : Addr} {socket : SocketState} (h : fds.read fd = some socket) :
    (closeSocket fd).Returns fds ⟨⟩ (fds.free fd) := by
  refine Run.Returns.bind (Run.get_apply fds) ?_
  rw [release_some h]
  rfl

/-- The loop of `BindAndListen` closes the sockets that it gives up. -/
theorem bindFirst_returns (host : Host) : ∀ (result : List Found) (fds : Arena SocketState),
    ∃ ret fds', (bindFirst host result).Returns fds ret fds' ∧
      ret.map Prod.snd = result.find? (fun rp => host.opens rp.2 && host.binds rp.2) ∧
      Opens fds fds' (ret.toList.map fun p => (p.1, .bound p.2.1.aiAddr))
  | [], fds => ⟨none, fds, rfl, rfl, Opens.nothing fds⟩
  | rp :: rps, fds => by
    cases hopens : host.opens rp.2 with
    | false =>
      obtain ⟨ret, fds', hrun, hfind, hbooks⟩ := bindFirst_returns host rps fds
      refine ⟨ret, fds', Run.Returns.bind (openSocket_fails hopens fds) hrun, ?_, hbooks⟩
      rw [List.find?_cons_of_neg (by simp [hopens]), hfind]
    | true =>
      have hcreated := Opens.created fds (.created rp.1.aiFamily)
      have hread : (fds.alloc (.created rp.1.aiFamily)).read fds.fresh =
          some (.created rp.1.aiFamily) := hcreated.read (List.mem_singleton_self _)
      cases hbinds : host.binds rp.2 with
      | true =>
        refine ⟨some (fds.fresh, rp), _, ?_, ?_, hcreated.change (.bound rp.1.aiAddr)⟩
        · refine Run.Returns.bind (openSocket_returns hopens fds) ?_
          refine Run.Returns.bind (changeSocket_returns hbinds hread _) ?_
          rfl
        · rw [List.find?_cons_of_pos (by simp [hopens, hbinds])]
          rfl
      | false =>
        have hclosed : Opens fds ((fds.alloc (.created rp.1.aiFamily)).free fds.fresh) [] :=
          Opens.close (show Opens fds _ ([] ++ [(fds.fresh, .created rp.1.aiFamily)]) from hcreated)
        obtain ⟨ret, fds', hrun, hfind, hbooks⟩ := bindFirst_returns host rps
          ((fds.alloc (.created rp.1.aiFamily)).free fds.fresh)
        refine ⟨ret, fds', ?_, ?_, hclosed.trans hbooks⟩
        · refine Run.Returns.bind (openSocket_returns hopens fds) ?_
          refine Run.Returns.bind (changeSocket_fails hbinds _ _ _) ?_
          exact Run.Returns.bind (closeSocket_returns hread) hrun
        · rw [List.find?_cons_of_neg (by simp [hbinds]), hfind]

/-- What `BindAndListen` opens: the socket of the first address that can be bound. -/
def bindOutcome (host : Host) (port : UInt16) (aiFamily : ℤ) : Option SocketState :=
  (host.getaddrinfo none port aiFamily).bind fun result =>
    (result.zipIdx.find? fun rp => host.opens rp.2 && host.binds rp.2).map fun rp =>
      if host.listens rp.2 then .listening rp.1.aiAddr else .bound rp.1.aiAddr

/-- `listen` has succeeded. -/
def SocketState.isListening : SocketState → Bool
  | .listening _ => true
  | _ => false

/-- `BindAndListen` leaves one socket open, and knows it if it is listening. -/
theorem bindAndListen_returns (host : Host) (ss : ServerSocket) (aiFamily : ℤ)
    (fds : Arena SocketState) :
    ∃ listenFd ss' opened fds', (bindAndListen host ss aiFamily).Returns fds (listenFd, ss') fds' ∧
      Opens fds fds' opened ∧
      opened.map Prod.snd = (bindOutcome host ss.port aiFamily).toList ∧
      ss'.port = ss.port ∧
      ss'.listenSockFd = ((opened.find? fun p => p.2.isListening).map Prod.fst).or
        ss.listenSockFd := by
  cases hinfo : host.getaddrinfo none ss.port aiFamily with
  | none =>
    refine ⟨none, ss, [], fds, ?_, Opens.nothing fds, ?_, rfl, rfl⟩
    · rw [bindAndListen, hinfo]
      rfl
    · rw [bindOutcome, hinfo]
      rfl
  | some result =>
    obtain ⟨ret, fds₁, hrun, hfind, hbooks⟩ := bindFirst_returns host result.zipIdx fds
    cases ret with
    | none =>
      refine ⟨none, ss, [], fds₁, ?_, hbooks, ?_, rfl, rfl⟩
      · rw [bindAndListen, hinfo]
        exact Run.Returns.bind hrun rfl
      · rw [bindOutcome, hinfo, Option.bind_some, ← hfind]
        rfl
    | some p =>
      obtain ⟨retFd, rp⟩ := p
      have hread : fds₁.read retFd = some (.bound rp.1.aiAddr) :=
        hbooks.read (List.mem_singleton_self _)
      have houtcome : bindOutcome host ss.port aiFamily =
          some (if host.listens rp.2 then .listening rp.1.aiAddr else .bound rp.1.aiAddr) := by
        rw [bindOutcome, hinfo, Option.bind_some, ← hfind]
        rfl
      rw [houtcome]
      cases hlistens : host.listens rp.2 with
      | true =>
        refine ⟨some retFd, { ss with listenSockFd := some retFd, sockFamily := some aiFamily },
          [(retFd, .listening rp.1.aiAddr)], _, ?_, hbooks.change _, rfl, rfl, rfl⟩
        rw [bindAndListen, hinfo]
        refine Run.Returns.bind hrun (Run.Returns.bind (changeSocket_returns hlistens hread _) ?_)
        rfl
      | false =>
        refine ⟨none, ss, [(retFd, .bound rp.1.aiAddr)], fds₁, ?_, hbooks, rfl, rfl, rfl⟩
        rw [bindAndListen, hinfo]
        refine Run.Returns.bind hrun (Run.Returns.bind (changeSocket_fails hlistens _ _ _) ?_)
        rfl

end Calls

/-! ## The life of a ServerSocket -/

/-- Calls of `BindAndListen`, each with what the host does, and `ai_family`. -/
def bindCalls : List (Host × ℤ) → ServerSocket → OnSockets ServerSocket
  | [], ss => return ss
  | (host, aiFamily) :: calls, ss => do
    let (_, ss) ← bindAndListen host ss aiFamily
    bindCalls calls ss

/-- From the constructor to the destructor. -/
def serverSocketLife (port : UInt16) (calls : List (Host × ℤ)) : OnSockets PUnit := do
  let ss ← bindCalls calls (ServerSocket.new port)
  ss.close

/-- The listening socket that the `ServerSocket` knows of. -/
def lastListening (opened : List (Addr × SocketState)) : Option Addr :=
  (opened.reverse.find? fun p => p.2.isListening).map Prod.fst

/-- All but the last listening socket. -/
def exceptLastListening (sockets : List SocketState) : List SocketState :=
  (sockets.reverse.eraseP SocketState.isListening).reverse

/-- One call adds at most one socket. -/
theorem lastListening_append {opened more : List (Addr × SocketState)} (h : more.length ≤ 1) :
    lastListening (opened ++ more) =
      ((more.find? fun p => p.2.isListening).map Prod.fst).or (lastListening opened) := by
  have hreverse : more.reverse = more := by
    match more, h with
    | [], _ => rfl
    | [p], _ => rfl
  rw [lastListening, List.reverse_append, List.find?_append, hreverse, Option.map_or]
  rfl

/-- The calls open what each of them opens, and only the last listening socket is known. -/
theorem bindCalls_returns : ∀ (calls : List (Host × ℤ)) (ss : ServerSocket)
    {fds₀ fds : Arena SocketState} {opened : List (Addr × SocketState)}, Opens fds₀ fds opened →
    ss.listenSockFd = lastListening opened → ∃ ss' more fds',
      (bindCalls calls ss).Returns fds ss' fds' ∧ Opens fds₀ fds' (opened ++ more) ∧
      more.map Prod.snd = calls.filterMap (fun call => bindOutcome call.1 ss.port call.2) ∧
      ss'.listenSockFd = lastListening (opened ++ more)
  | [], ss, fds₀, fds, opened, hbooks, hknown => by
    refine ⟨ss, [], fds, rfl, ?_, rfl, ?_⟩
    · rwa [List.append_nil]
    · rwa [List.append_nil]
  | (host, aiFamily) :: calls, ss, fds₀, fds, opened, hbooks, hknown => by
    obtain ⟨listenFd, ss₁, new, fds₁, hrun, hnew, houtcome, hport, hfd⟩ :=
      bindAndListen_returns host ss aiFamily fds
    have hlen : new.length ≤ 1 := by
      rw [← List.length_map (f := Prod.snd), houtcome]
      cases bindOutcome host ss.port aiFamily with
      | none => exact Nat.zero_le 1
      | some socket => exact Nat.le_refl 1
    have hknown₁ : ss₁.listenSockFd = lastListening (opened ++ new) := by
      rw [lastListening_append hlen, hfd, hknown]
    obtain ⟨ss', more, fds', hrest, hall, hmore, hlast⟩ :=
      bindCalls_returns calls ss₁ (hbooks.trans hnew) hknown₁
    refine ⟨ss', new ++ more, fds', Run.Returns.bind hrun hrest, ?_, ?_, ?_⟩
    · rwa [← List.append_assoc]
    · rw [List.map_append, houtcome, hmore, hport]
      cases hcall : bindOutcome host ss.port aiFamily with
      | none => simp [hcall]
      | some socket => simp [hcall]
    · rwa [← List.append_assoc]

/-- The sockets that survive the destructor: of each call that got an address bound, the one it
opened, but for the last one that is listening. -/
theorem bind_calls_ledger (port : UInt16) (calls : List (Host × ℤ)) (fds : Arena SocketState) :
    ∃ lost fds', (serverSocketLife port calls).Returns fds ⟨⟩ fds' ∧ Opens fds fds' lost ∧
      lost.map Prod.snd = exceptLastListening
        (calls.filterMap fun call => bindOutcome call.1 port call.2) := by
  obtain ⟨ss, opened, fds₁, hrun, hbooks, hopened, hknown⟩ :=
    bindCalls_returns calls (ServerSocket.new port) (Opens.nothing fds) rfl
  rw [List.nil_append] at hbooks hknown
  have hsockets : exceptLastListening (opened.map Prod.snd) =
      ((opened.reverse.eraseP fun p => p.2.isListening).reverse).map Prod.snd := by
    rw [exceptLastListening, ← List.map_reverse, List.eraseP_map, List.map_reverse]
    rfl
  have hcalls : opened.map Prod.snd =
      calls.filterMap fun call => bindOutcome call.1 port call.2 := hopened
  rw [← hcalls, hsockets]
  refine ⟨(opened.reverse.eraseP fun p => p.2.isListening).reverse, ?_⟩
  cases hfind : opened.reverse.find? fun p => p.2.isListening with
  | none =>
    have hnone : ss.listenSockFd = none := by
      rw [hknown, lastListening, hfind]
      rfl
    refine ⟨fds₁, Run.Returns.bind hrun ?_, ?_, rfl⟩
    · rw [ServerSocket.close, hnone]
      rfl
    · rw [List.eraseP_of_forall_not (List.find?_eq_none.mp hfind), List.reverse_reverse]
      exact hbooks
  | some p =>
    have hsome : ss.listenSockFd = some p.1 := by
      rw [hknown, lastListening, hfind]
      rfl
    obtain ⟨hlistening, after, before, hsplit, hafter⟩ := List.find?_eq_some_iff_append.mp hfind
    have hopen : opened = before.reverse ++ (p.1, p.2) :: after.reverse := by
      rw [← List.reverse_reverse opened, hsplit, List.reverse_append, List.reverse_cons,
        List.append_assoc, List.singleton_append]
    rw [hopen] at hbooks
    refine ⟨fds₁.free p.1, Run.Returns.bind hrun ?_, ?_, rfl⟩
    · rw [ServerSocket.close, hsome]
      exact closeSocket_returns (hbooks.read List.mem_append_cons_self)
    · have herase : (opened.reverse.eraseP fun p => p.2.isListening).reverse =
          before.reverse ++ after.reverse := by
        rw [hsplit, List.eraseP_append_right _ (fun q hq => by simpa using hafter q hq),
          List.eraseP_cons_of_pos (p := fun q : Addr × SocketState => q.2.isListening) hlistening,
          List.reverse_append]
      rw [herase]
      exact hbooks.close

/-! ## The sockets of a client -/

/-- The sockets of the addresses before the first one that works. -/
def givenUp (host : Host) (results : List Found) : List SocketState :=
  ((results.takeWhile fun r => !(host.opens r.2 && host.connects r.2)).filter
    fun r => host.opens r.2).map fun r => .created r.1.aiFamily

/-- The loop of `ConnectToServer` goes on to the next address, and leaves the socket open. -/
theorem connectFirst_returns (host : Host) : ∀ (results : List Found) (fds : Arena SocketState),
    ∃ (client : Option (Addr × Found)) (failed : List (Addr × SocketState)) (fds' : _),
      (connectFirst host results).Returns fds (client.map Prod.fst) fds' ∧
      Opens fds fds' (failed ++ client.toList.map fun p => (p.1, .connected p.2.1.aiAddr)) ∧
      client.map Prod.snd = results.find? (fun r => host.opens r.2 && host.connects r.2) ∧
      failed.map Prod.snd = givenUp host results
  | [], fds => ⟨none, [], fds, rfl, Opens.nothing fds, rfl, rfl⟩
  | r :: rs, fds => by
    cases hopens : host.opens r.2 with
    | false =>
      obtain ⟨client, failed, fds', hrun, hbooks, hfind, hfailed⟩ :=
        connectFirst_returns host rs fds
      refine ⟨client, failed, fds', Run.Returns.bind (openSocket_fails hopens fds) hrun, hbooks,
        ?_, ?_⟩
      · rw [List.find?_cons_of_neg (by simp [hopens]), hfind]
      · rw [givenUp, List.takeWhile_cons_of_pos (by simp [hopens]),
          List.filter_cons_of_neg (by simp [hopens]), hfailed, givenUp]
    | true =>
      have hcreated := Opens.created fds (.created r.1.aiFamily)
      have hread :
          (fds.alloc (.created r.1.aiFamily)).read fds.fresh = some (.created r.1.aiFamily) :=
        hcreated.read (List.mem_singleton_self _)
      cases hconnects : host.connects r.2 with
      | true =>
        refine ⟨some (fds.fresh, r), [], _, ?_, hcreated.change (.connected r.1.aiAddr), ?_, ?_⟩
        · refine Run.Returns.bind (openSocket_returns hopens fds) ?_
          refine Run.Returns.bind (changeSocket_returns hconnects hread _) ?_
          rfl
        · rw [List.find?_cons_of_pos (by simp [hopens, hconnects])]
          rfl
        · rw [givenUp, List.takeWhile_cons_of_neg (by simp [hopens, hconnects])]
          rfl
      | false =>
        obtain ⟨client, failed, fds', hrun, hbooks, hfind, hfailed⟩ :=
          connectFirst_returns host rs (fds.alloc (.created r.1.aiFamily))
        refine ⟨client, (fds.fresh, .created r.1.aiFamily) :: failed, fds', ?_,
          hcreated.trans hbooks, ?_, ?_⟩
        · refine Run.Returns.bind (openSocket_returns hopens fds) ?_
          exact Run.Returns.bind (changeSocket_fails hconnects _ _ _) hrun
        · rw [List.find?_cons_of_neg (by simp [hconnects]), hfind]
        · rw [givenUp, List.takeWhile_cons_of_pos (by simp [hconnects]),
            List.filter_cons_of_pos (p := fun r : Found => host.opens r.2) hopens, List.map_cons,
            List.map_cons, hfailed, givenUp]

/-- A client that connects, and closes the descriptor it was given. -/
def connectAndClose (host : Host) (hostName : List UInt8) (portnum : UInt16) :
    OnSockets (Option Addr) := do
  match ← connectToServer host hostName portnum with
  | none => return none
  | some clientFd =>
    closeSocket clientFd
    return some clientFd

/-- `getaddrinfo` that fails is as good as no address. -/
theorem connectToServer_eq (host : Host) (hostName : List UInt8) (portnum : UInt16) :
    connectToServer host hostName portnum =
      connectFirst host ((host.getaddrinfo (some hostName) portnum 0).getD []).zipIdx := by
  rw [connectToServer]
  cases host.getaddrinfo (some hostName) portnum 0 with
  | none => rfl
  | some results => rfl

/-- The sockets that could not be connected stay open for good. -/
theorem connect_leaves_failed_sockets (host : Host) (hostName : List UInt8) (portnum : UInt16)
    (fds : Arena SocketState) : ∃ clientFd failed fds',
      (connectAndClose host hostName portnum).Returns fds clientFd fds' ∧
      Opens fds fds' failed ∧
      failed.map Prod.snd =
        givenUp host ((host.getaddrinfo (some hostName) portnum 0).getD []).zipIdx ∧
      (clientFd.isSome ↔ ∃ i < ((host.getaddrinfo (some hostName) portnum 0).getD []).length,
        host.opens i ∧ host.connects i) := by
  have hloop := connectToServer_eq host hostName portnum
  obtain ⟨results, hresults⟩ :
      ∃ results, (host.getaddrinfo (some hostName) portnum 0).getD [] = results := ⟨_, rfl⟩
  rw [hresults] at hloop ⊢
  obtain ⟨client, failed, fds₁, hrun, hbooks, hfind, hfailed⟩ :=
    connectFirst_returns host results.zipIdx fds
  rw [← hloop] at hrun
  have hworks : (client.map Prod.fst).isSome ↔
      ∃ i < results.length, host.opens i ∧ host.connects i := by
    rw [Option.isSome_map, ← Option.isSome_map (f := Prod.snd), hfind, List.find?_isSome]
    constructor
    · rintro ⟨r, hr, hworks⟩
      obtain ⟨-, hlt, -⟩ := List.mem_zipIdx hr
      exact ⟨r.2, by simpa using hlt, Bool.and_eq_true_iff.mp hworks⟩
    · rintro ⟨i, hi, hworks⟩
      exact ⟨(results[i], i), List.mk_mem_zipIdx_iff_getElem?.mpr (List.getElem?_eq_getElem hi),
        Bool.and_eq_true_iff.mpr hworks⟩
  cases client with
  | none =>
    rw [Option.toList_none, List.map_nil, List.append_nil] at hbooks
    exact ⟨none, failed, fds₁, Run.Returns.bind hrun rfl, hbooks, hfailed, hworks⟩
  | some p =>
    have hopen : fds₁.read p.1 = some (.connected p.2.1.aiAddr) :=
      hbooks.read List.mem_append_cons_self
    refine ⟨some p.1, failed, fds₁.free p.1, ?_, ?_, hfailed, hworks⟩
    · exact Run.Returns.bind hrun (Run.Returns.bind (closeSocket_returns hopen) rfl)
    · have hclosed : Opens fds (fds₁.free p.1) (failed ++ []) := Opens.close hbooks
      rwa [List.append_nil] at hclosed

end MultithreadedWebServer
