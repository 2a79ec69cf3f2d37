import Mathlib.Data.List.Forall2
import MultithreadedWebServer.HttpServer
import MultithreadedWebServer.RequestFraming

/-!
# What `HttpServer_ThrFn` writes

When all requests parse and all writes succeed, the loop answers each request, and then
the last one again: the `GetNextRequest` that returns false leaves the request object as
it was, and the loop only stops after it has processed that (`serveLoop_serves`). Nothing
else ends the loop, since no response has the header that it tests.
-/

namespace MultithreadedWebServer

/-! ## Writing -/

/-- No write fails or accepts nothing. -/
def WritesSucceed (writes : List WriteOutcome) : Prop :=
  ∀ w ∈ writes, w ≠ .fatal ∧ w ≠ .accepts 0

theorem WritesSucceed.tail {w : WriteOutcome} {writes : List WriteOutcome}
    (h : WritesSucceed (w :: writes)) : WritesSucceed writes :=
  fun w' hw' => h w' (List.mem_cons_of_mem _ hw')

theorem writeLoop_spec : ∀ {writes : List WriteOutcome} (left sent : List UInt8),
    WritesSucceed writes →
    ∃ writes', writeLoop writes left sent = (sent ++ left, writes') ∧ WritesSucceed writes'
  | writes, [], sent, h => ⟨writes, by rw [writeLoop, List.append_nil], h⟩
  | [], b :: left, sent, h => ⟨[], by simp [writeLoop], h⟩
  | .retry :: writes, b :: left, sent, h => by
    obtain ⟨writes', hloop, hsucc⟩ := writeLoop_spec (b :: left) sent h.tail
    exact ⟨writes', by simp [writeLoop, hloop], hsucc⟩
  | .fatal :: writes, b :: left, sent, h => absurd rfl (h _ List.mem_cons_self).1
  | .accepts n :: writes, b :: left, sent, h => by
    have hn : n ≠ 0 := fun hz => (h _ List.mem_cons_self).2 (by rw [hz])
    obtain ⟨writes', hloop, hsucc⟩ :=
      writeLoop_spec ((b :: left).drop n) (sent ++ (b :: left).take n) h.tail
    refine ⟨writes', ?_, hsucc⟩
    rw [List.append_assoc, List.take_append_drop] at hloop
    simp [writeLoop, hn, hloop]

/-- A response that `WrappedWrite` can write: its length is a positive `int`. -/
def FitsInt (response : HttpResponse) : Prop := (generateResponseString response).length < 2 ^ 31

theorem toInt_of_fits {n : ℕ} (h : n < 2 ^ 31) : toInt n = n := by
  unfold toInt
  rw [Int.bmod_eq_of_le] <;> omega

theorem writeResponse_returns {response : HttpResponse} {socket : Socket}
    (hfits : FitsInt response) (hwrites : WritesSucceed socket.writes) :
    ∃ socket', (writeResponse response).Returns socket true socket' ∧
      WritesSucceed socket'.writes ∧ socket'.reads = socket.reads ∧
      socket'.sent = socket.sent ++ generateResponseString response := by
  obtain ⟨writes', hloop, hsucc⟩ :=
    writeLoop_spec (generateResponseString response) socket.sent hwrites
  refine ⟨{ socket with writes := writes', sent := socket.sent ++ generateResponseString response },
    ?_, hsucc, rfl, rfl⟩
  have hint := toInt_of_fits hfits
  simp [Run.Returns, writeResponse, Run.bind_apply, wrappedWrite, hint, hloop]

theorem generateResponseString_ne (response : HttpResponse) :
    generateResponseString response ≠ [] := by
  simp [generateResponseString, crlf]

/-! ## Processing -/

/-- The responses that `ProcessRequest` computes for some requests in turn. -/
def answers (site : Site) : List HttpRequest → Run Schedule (List HttpResponse)
  | [] => return []
  | req :: reqs => do
    let hp ← processRequest site req
    let hps ← answers site reqs
    return hp :: hps

theorem answers_append (site : Site) (xs ys : List HttpRequest) :
    answers site (xs ++ ys) = do
      let hps ← answers site xs
      let hps' ← answers site ys
      return hps ++ hps' := by
  induction xs with
  | nil =>
    funext m
    simp only [List.nil_append, answers, Run.pure_bind]
    rcases h : answers site ys m with e | ⟨hps, m'⟩
    · rw [Run.bind_error h]
    · rw [Run.bind_ok h]
      rfl
  | cons req xs ih =>
    rw [List.cons_append, answers, answers, ih]
    simp only [Run.bind_assoc, Run.pure_bind, List.cons_append]

theorem answers_length {site : Site} : ∀ {reqs : List HttpRequest} {m m' : Schedule}
    {hps : List HttpResponse}, (answers site reqs).Returns m hps m' → hps.length = reqs.length
  | [], _, _, _, h => by
    cases h
    rfl
  | req :: reqs, _, _, _, h => by
    obtain ⟨hp, m₁, -, h⟩ := Run.bind_eq_ok h
    obtain ⟨hps, m₂, hrest, h⟩ := Run.bind_eq_ok h
    cases h
    exact congrArg (· + 1) (answers_length hrest)

/-- No response has a `connection` header, so none is found to close the connection. -/
theorem processRequest_headers {site : Site} {req : HttpRequest} {m m' : Schedule}
    {hp : HttpResponse} (h : (processRequest site req).Returns m hp m') :
    StringMap.find? hp.headers (ascii "connection") = none := by
  unfold processRequest at h
  rw [Run.Returns, Run.ite_apply] at h
  split at h
  · unfold processFileRequest at h
    obtain ⟨fname, m₁, -, h⟩ := Run.bind_eq_ok h
    dsimp only at h
    rw [Run.ite_apply] at h
    split at h
    · obtain ⟨body, m₂, -, h⟩ := Run.bind_eq_ok h
      cases body with
      | none =>
        cases h
        rfl
      | some body =>
        dsimp only at h
        rcases hsuffix : (split (ascii ".") fname)[1]? with _ | suffix
        · rw [hsuffix] at h
          cases h
        · rw [hsuffix] at h
          cases h
          rfl
    · cases h
      rfl
  · unfold processQueryRequest at h
    rw [Run.ite_apply] at h
    split at h
    · obtain ⟨parser, m₁, -, h⟩ := Run.bind_eq_ok h
      rcases hterms : StringMap.find? parser.args (ascii "terms") with _ | terms
      · rw [hterms] at h
        cases h
      · rw [hterms] at h
        obtain ⟨results, m₂, -, h⟩ := Run.bind_eq_ok h
        cases h
        rfl
    · cases h
      rfl

/-! ## Runs -/

/-- The client's bytes are these requests, each complete and well-formed, and possibly an
incomplete tail. -/
def Requests (stream : CppString) (reqs : List HttpRequest) : Prop :=
  List.Forall₂ (fun segment req => parseSegment segment = .ok req) (requestSegments stream) reqs

/-- A run has written the responses to these requests, and if one of them cannot be
computed the run ended there. -/
def Serves (site : Site) (reqs : List HttpRequest) (client : Client)
    (outcome : Except Stop (Unit × Client)) : Prop :=
  match answers site reqs client.mallocs with
  | .error e => outcome = .error e
  | .ok (hps, mallocs) => ∃ client', outcome = .ok ((), client') ∧ client'.mallocs = mallocs ∧
      client'.socket.sent = client.socket.sent ++ hps.flatMap generateResponseString

/-- One more response, before the others. -/
theorem Serves.cons {site : Site} {req : HttpRequest} {reqs : List HttpRequest}
    {client : Client} (client₁ : Client) {hp : HttpResponse} {outcome : Except Stop (Unit × Client)}
    (hprocess : (processRequest site req).Returns client.mallocs hp client₁.mallocs)
    (hsent : client₁.socket.sent = client.socket.sent ++ generateResponseString hp)
    (h : Serves site reqs client₁ outcome) : Serves site (req :: reqs) client outcome := by
  unfold Serves at h ⊢
  rw [answers, Run.bind_ok hprocess]
  rcases hrest : answers site reqs client₁.mallocs with e | ⟨hps, mallocs⟩
  · rw [hrest] at h
    rw [Run.bind_error hrest]
    exact h
  · rw [hrest] at h
    rw [Run.bind_ok hrest]
    obtain ⟨client', hout, hmallocs, hsent'⟩ := h
    exact ⟨client', hout, hmallocs, by rw [hsent', hsent, List.flatMap_cons, List.append_assoc]⟩

/-- Nothing is written for nothing. -/
theorem Serves.nil (site : Site) (client : Client) : Serves site [] client (.ok ((), client)) :=
  ⟨client, rfl, rfl, (List.append_nil _).symm⟩

/-- A request that cannot be processed ends the run. -/
theorem Serves.stop {site : Site} {req : HttpRequest} {reqs : List HttpRequest}
    {client : Client} {e : Stop} (h : processRequest site req client.mallocs = .error e) :
    Serves site (req :: reqs) client (.error e) := by
  unfold Serves
  rw [answers, Run.bind_error h]

/-- The responses to a request can be written, whatever `malloc` says. -/
def AnswersFit (site : Site) (req : HttpRequest) : Prop :=
  ∀ m hp m', (processRequest site req).Returns m hp m' → FitsInt hp

theorem onSocket_returns {α : Type} {m : Run Socket α} (client : Client) {a : α}
    {socket' : Socket} (h : m.Returns client.socket a socket') :
    (onSocket m).Returns client a { client with socket := socket' } :=
  Run.Returns.zoom h

theorem onMallocs_returns {α : Type} {m : Run Schedule α} (client : Client) {a : α}
    {mallocs : Schedule} (h : m.Returns client.mallocs a mallocs) :
    (onMallocs m).Returns client a { client with mallocs := mallocs } :=
  Run.Returns.zoom h

theorem onMallocs_error {α : Type} {m : Run Schedule α} (client : Client) {e : Stop}
    (h : m client.mallocs = .error e) : onMallocs m client = .error e := by
  simp only [onMallocs, Run.zoom, h]

/-- One round of the loop: its request is answered, and the loop goes on if there was one. -/
theorem serveLoop_round {site : Site} {fuel : ℕ} {hc hc' : HttpConnection}
    {req req' : HttpRequest} {client : Client} {socket' : Socket} {found : Bool}
    {reqs : List HttpRequest}
    (hcall : (getNextRequest hc req).Returns client.socket (found, req', hc') socket')
    (hframe : { socket' with reads := client.socket.reads } = client.socket)
    (hwrites : WritesSucceed client.socket.writes) (hfits : AnswersFit site req')
    (hrest : ∀ client₁ : Client, client₁.socket.reads = socket'.reads →
      WritesSucceed client₁.socket.writes → Serves site reqs client₁
        (if found then serveLoop site fuel hc' req' client₁ else .ok ((), client₁))) :
    Serves site (req' :: reqs) client (serveLoop site (fuel + 1) hc req client) := by
  have hwrites' : WritesSucceed socket'.writes := by
    rw [← hframe] at hwrites
    exact hwrites
  have hsent' : socket'.sent = client.socket.sent := by rw [← hframe]
  unfold serveLoop
  rw [Run.bind_ok (onSocket_returns client hcall)]
  dsimp only
  rcases hprocess : processRequest site req' client.mallocs with e | ⟨hp, mallocs⟩
  · rw [Run.bind_error (onMallocs_error { client with socket := socket' } hprocess)]
    exact .stop hprocess
  · obtain ⟨socket₁, hwrite, hwrites₁, hreads₁, hsent₁⟩ :=
      writeResponse_returns (hfits _ _ _ hprocess) hwrites'
    rw [Run.bind_ok (onMallocs_returns { client with socket := socket' } hprocess),
      Run.bind_ok (onSocket_returns ⟨socket', mallocs⟩ hwrite)]
    refine .cons ⟨socket₁, mallocs⟩ hprocess (by rw [hsent₁, hsent']) ?_
    have hnext := hrest ⟨socket₁, mallocs⟩ hreads₁ hwrites₁
    simp only [processRequest_headers hprocess]
    cases found with
    | false => simpa using hnext
    | true => simpa using hnext

/-- The loop answers the requests in turn, and the last one once more. -/
theorem serveLoop_serves (site : Site) : ∀ {reqs : List HttpRequest} {fuel : ℕ}
    {hc : HttpConnection} {req : HttpRequest} (client : Client),
    Healthy client.socket.reads → WritesSucceed client.socket.writes →
    Requests (hc.buffer ++ delivered client.socket.reads) reqs → reqs.length < fuel →
    (∀ r ∈ req :: reqs, AnswersFit site r) →
    Serves site (reqs ++ [reqs.getLastD req]) client (serveLoop site fuel hc req client)
  | [], fuel + 1, hc, req, client, hreads, hwrites, hreqs, _, hfits => by
    obtain ⟨socket', hcall, -, -, hframe⟩ :=
      getNextRequest_end req hreads (List.forall₂_nil_right_iff.mp hreqs)
    exact serveLoop_round hcall hframe hwrites (hfits req List.mem_cons_self)
      fun client₁ _ _ => .nil site client₁
  | next :: reqs, fuel + 1, hc, req, client, hreads, hwrites, hreqs, hfuel, hfits => by
    obtain ⟨segment, segments, hnext, hreqs', hsegs⟩ := List.forall₂_cons_right_iff.mp hreqs
    obtain ⟨hc', socket', hcall, -, -, hrest, hreads', hframe⟩ :=
      getNextRequest_segment req hreads hsegs hnext
    rw [List.cons_append, List.getLastD_cons]
    refine serveLoop_round hcall hframe hwrites
      (hfits next (List.mem_cons_of_mem _ List.mem_cons_self)) fun client₁ hreads₁ hwrites₁ => ?_
    refine serveLoop_serves site client₁ (by rwa [hreads₁]) hwrites₁ ?_
      (by rw [List.length_cons] at hfuel; omega) fun r hr => hfits r (List.mem_cons_of_mem _ hr)
    rw [Requests, hreads₁, hrest]
    exact hreqs'

theorem length_delivered_lt : ∀ reads : List ReadOutcome,
    (delivered reads).length < readBound reads
  | [] => Nat.zero_lt_one
  | .bytes bs :: reads => by
    have ih := length_delivered_lt reads
    rw [delivered, readBound, List.length_append]
    omega
  | .retry :: reads => length_delivered_lt reads
  | .fatal :: reads => length_delivered_lt reads

/-- A client that sends these requests, and whose responses can all be written. -/
structure Client.Sends (client : Client) (site : Site) (reqs : List HttpRequest) : Prop where
  /-- no read fails or ends the stream early -/
  reads : Healthy client.socket.reads
  /-- no write fails -/
  writes : WritesSucceed client.socket.writes
  /-- the stream consists of the requests, and possibly a tail -/
  requests : Requests (delivered client.socket.reads) reqs
  /-- no response is too long for an `int` -/
  fits : ∀ r ∈ HttpRequest.new :: reqs, AnswersFit site r

/-- What `HttpServer_ThrFn` writes: a response to each request, and one more to the last. -/
theorem httpServerThrFn_serves {site : Site} {client : Client} {reqs : List HttpRequest}
    (h : client.Sends site reqs) :
    Serves site (reqs ++ [reqs.getLastD HttpRequest.new]) client (httpServerThrFn site client) := by
  have hlen : reqs.length < readBound client.socket.reads + 1 := by
    have hseg := h.requests.length_eq
    have hframes := length_frames_le headerEnd (delivered client.socket.reads)
    have hbound := length_delivered_lt client.socket.reads
    rw [requestSegments] at hseg
    omega
  exact serveLoop_serves site client h.reads h.writes h.requests hlen h.fits

/-- `HttpServer_ThrFn` returns, and has written exactly the responses to these requests. -/
def WritesExactly (site : Site) (client : Client) (reqs : List HttpRequest) : Prop :=
  ∃ hps mallocs client', (answers site reqs).Returns client.mallocs hps mallocs ∧
    (httpServerThrFn site).Returns client () client' ∧
    client'.socket.sent = client.socket.sent ++ hps.flatMap generateResponseString

/-- It writes more than the responses to any first part of the requests. -/
theorem Client.Sends.not_writesExactly {site : Site} {client : Client}
    {answered others : List HttpRequest} (h : client.Sends site (answered ++ others)) :
    ¬ WritesExactly site client answered := by
  rintro ⟨hps, mallocs, client', hanswers, hrun, hsent⟩
  have hserves := httpServerThrFn_serves h
  rw [List.append_assoc] at hserves
  unfold Serves at hserves
  rw [answers_append, Run.bind_ok hanswers] at hserves
  rcases hmore : answers site (others ++ [(answered ++ others).getLastD HttpRequest.new]) mallocs
    with e | ⟨hps', mallocs'⟩
  · rw [Run.bind_error hmore, hrun] at hserves
    cases hserves
  · rw [Run.bind_ok hmore, hrun] at hserves
    obtain ⟨client₁, hout, -, hsent₁⟩ := hserves
    obtain rfl : client' = client₁ := by simpa using hout
    -- there is at least the response to the last request once more
    have hlen := answers_length hmore
    obtain ⟨hp, hps', rfl⟩ := List.exists_cons_of_length_pos (l := hps') (by
      rw [hlen, List.length_append]
      exact Nat.succ_pos _)
    rw [hsent, List.flatMap_append, List.flatMap_cons, List.append_cancel_left_eq] at hsent₁
    have hnil := List.self_eq_append_right.mp hsent₁
    exact generateResponseString_ne hp (List.append_eq_nil_iff.mp hnil).1

/-- A URI that names neither a file nor a query gets the bare page. -/
theorem processRequest_bare (site : Site) {req : HttpRequest}
    (hstatic : req.uri.take 8 ≠ ascii "/static/")
    (hquery : findSub (ascii "query?terms") req.uri = none) :
    processRequest site req = pure (queryPage []) := by
  rw [processRequest, if_neg hstatic, processQueryRequest, hquery]
  rfl

/-- And that fits. -/
theorem answersFit_bare (site : Site) {req : HttpRequest}
    (hstatic : req.uri.take 8 ≠ ascii "/static/")
    (hquery : findSub (ascii "query?terms") req.uri = none) : AnswersFit site req := by
  intro m hp m' h
  rw [processRequest_bare site hstatic hquery] at h
  cases h
  unfold FitsInt
  decide +kernel

/-! ## One response per request -/

/-- The request has the header `Connection: close`. -/
def HttpRequest.closes (req : HttpRequest) : Bool :=
  StringMap.find? req.headers (ascii "connection") = some (ascii "close")

/-- Where no request closes the connection, exactly one response is written for each. -/
def OneResponseEach (site : Site) (client : Client) (reqs : List HttpRequest) : Prop :=
  (∀ r ∈ reqs, r.closes = false) → WritesExactly site client reqs

/-- There is always a response too many: when there is no request any more the last one is
answered once more. -/
theorem never_one_response_each {site : Site} {client : Client} {reqs : List HttpRequest}
    (h : client.Sends site reqs) (hopen : ∀ r ∈ reqs, r.closes = false) :
    ¬ OneResponseEach site client reqs := by
  intro hone
  have hall : client.Sends site (reqs ++ []) := by rwa [List.append_nil]
  exact hall.not_writesExactly (hone hopen)

/-- A server without files and indices. -/
def bareSite : Site where
  basedir := []
  fs := { realpath := fun _ => none, file := fun _ => ⟨false, false, 0, false, []⟩ }
  processQuery := fun _ => pure []

/-- A client that sends these bytes in one piece. -/
def clientOf (bytes : CppString) : Client := ⟨⟨[.bytes bytes], [], []⟩, []⟩

/-- Its stream parses to requests for the bare page. -/
theorem clientOf_sends {bytes : CppString} {reqs : List HttpRequest} (hne : bytes ≠ [])
    (hparse : (requestSegments bytes).map parseSegment = reqs.map Except.ok)
    (hbare : ∀ r ∈ reqs, r.uri.take 8 ≠ ascii "/static/" ∧
      findSub (ascii "query?terms") r.uri = none) :
    (clientOf bytes).Sends bareSite reqs where
  reads o ho := by
    obtain rfl := List.mem_singleton.mp ho
    exact ⟨nofun, fun heq => hne (ReadOutcome.bytes.inj heq)⟩
  writes := nofun
  requests := by
    have hstream : delivered (clientOf bytes).socket.reads = bytes := List.append_nil bytes
    rw [Requests, hstream, ← List.forall₂_map_right_iff (f := Except.ok)
      (R := fun segment r => parseSegment segment = r), ← List.forall₂_map_left_iff,
      List.forall₂_eq_eq_eq]
    exact hparse
  fits r hr := by
    rcases List.mem_cons.mp hr with rfl | hr
    · exact answersFit_bare bareSite (by decide) (by decide)
    · exact answersFit_bare bareSite (hbare r hr).1 (hbare r hr).2

/-- Two requests, the first with a header, and the start of a third one. -/
theorem never_one_response_each_pair :
    ¬ OneResponseEach bareSite
      (clientOf (ascii "GET / HTTP/1.1\r\nHost: a\r\n\r\nGET /b HTTP/1.1\r\n\r\nGET"))
      [⟨ascii "/", [(ascii "host", ascii "a")]⟩, ⟨ascii "/b", []⟩] :=
  never_one_response_each (clientOf_sends (by decide) (by decide) (by decide)) (by decide)

/-- One request, and two responses are written. -/
theorem one_request_two_responses :
    ¬ OneResponseEach bareSite (clientOf (ascii "GET / HTTP/1.1\r\n\r\n")) [⟨ascii "/", []⟩] := by
  intro hone
  have hsends : (clientOf (ascii "GET / HTTP/1.1\r\n\r\n")).Sends bareSite
      ([⟨ascii "/", []⟩] ++ []) := clientOf_sends (by decide) (by decide) (by decide)
  exact hsends.not_writesExactly (hone (by decide))

/-! ## Connection: close -/

/-- The first request that closes the connection is the last one answered. -/
def CloseHonoured (site : Site) (client : Client) (reqs : List HttpRequest) : Prop :=
  ∀ before closing after, reqs = before ++ closing :: after →
    (∀ r ∈ before, r.closes = false) → closing.closes = true →
    WritesExactly site client (before ++ [closing])

/-- It never is: the loop looks for the header in the response. -/
theorem close_never_honoured {site : Site} {client : Client} {reqs : List HttpRequest}
    (h : client.Sends site reqs) (hclose : ∃ r ∈ reqs, r.closes = true) :
    ¬ CloseHonoured site client reqs := by
  intro hhonoured
  obtain ⟨closing, hfind⟩ := Option.isSome_iff_exists.mp (List.find?_isSome.mpr hclose)
  obtain ⟨hcloses, before, after, rfl, hbefore⟩ := List.find?_eq_some_iff_append.mp hfind
  have hexact := hhonoured before closing after rfl
    (fun r hr => by simpa using hbefore r hr) hcloses
  rw [List.append_cons] at h
  exact h.not_writesExactly hexact

/-- The second of three requests closes the connection. -/
theorem close_never_honoured_second :
    ¬ CloseHonoured bareSite
      (clientOf (ascii "GET / HTTP/1.1\r\n\r\nGET /b HTTP/1.1\r\nConnection: close\r\n\r\n" ++
        ascii "GET /c HTTP/1.1\r\n\r\n"))
      [⟨ascii "/", []⟩, ⟨ascii "/b", [(ascii "connection", ascii "close")]⟩, ⟨ascii "/c", []⟩] :=
  close_never_honoured (clientOf_sends (by decide) (by decide) (by decide))
    ⟨_, List.mem_cons_of_mem _ List.mem_cons_self, by decide⟩

/-- The request behind the one that closes the connection is answered. -/
theorem request_after_close_answered :
    ¬ CloseHonoured bareSite
      (clientOf (ascii "GET / HTTP/1.1\r\nConnection: close\r\n\r\nGET /a HTTP/1.1\r\n\r\n"))
      [⟨ascii "/", [(ascii "connection", ascii "close")]⟩, ⟨ascii "/a", []⟩] := by
  intro hhonoured
  have hsends : (clientOf (ascii
      "GET / HTTP/1.1\r\nConnection: close\r\n\r\nGET /a HTTP/1.1\r\n\r\n")).Sends bareSite
      ([⟨ascii "/", [(ascii "connection", ascii "close")]⟩] ++ [⟨ascii "/a", []⟩]) :=
    clientOf_sends (by decide) (by decide) (by decide)
  exact hsends.not_writesExactly (hhonoured [] _ _ rfl nofun (by decide))

end MultithreadedWebServer
