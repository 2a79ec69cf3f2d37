import MultithreadedWebServer.HttpConnection

/-!
# How `GetNextRequest` frames a byte stream

Whatever the chunks, a call looks at the bytes in the buffer and those still to come as
one stream: if a header end is in it, the call stops at the leftmost one and hands the
segment up to it to `ParseRequest`; if not, it has read to the end and returns false
(`receiveHeader_spec`). So the calls take the segments of the stream one after the other.
-/

namespace MultithreadedWebServer

/-- The complete segments of a stream, cut just after each leftmost `\r\n\r\n`. -/
def requestSegments (stream : CppString) : List CppString := frames headerEnd stream

/-! ## Reading -/

/-- No read fails or ends the stream early. -/
def Healthy (reads : List ReadOutcome) : Prop := ∀ o ∈ reads, o ≠ .fatal ∧ o ≠ .bytes []

theorem Healthy.tail {o : ReadOutcome} {reads : List ReadOutcome} (h : Healthy (o :: reads)) :
    Healthy reads := fun o' ho' => h o' (List.mem_cons_of_mem _ ho')

theorem readBound_pos : ∀ reads : List ReadOutcome, 0 < readBound reads
  | [] => Nat.zero_lt_one
  | .bytes bs :: reads => by rw [readBound]; omega
  | .retry :: reads => readBound_pos reads
  | .fatal :: reads => readBound_pos reads

/-- A read delivers the next bytes of the stream, or finds its end. -/
theorem readOnce_spec (readlen : ℕ) (hlen : 0 < readlen) : ∀ {reads : List ReadOutcome},
    Healthy reads → ∃ bs reads', readOnce readlen reads = (some bs, reads') ∧ Healthy reads' ∧
      bs ++ delivered reads' = delivered reads ∧
      (bs = [] → reads' = []) ∧ (bs ≠ [] → readBound reads' < readBound reads)
  | [], h => ⟨[], [], rfl, h, rfl, fun _ => rfl, fun hne => absurd rfl hne⟩
  | .fatal :: reads, h => absurd rfl (h _ List.mem_cons_self).1
  | .retry :: reads, h => by
    obtain ⟨bs, reads', hread, hrest⟩ := readOnce_spec readlen hlen h.tail
    exact ⟨bs, reads', hread, hrest⟩
  | .bytes bs :: reads, h => by
    have hne : bs ≠ [] := fun hnil => (h _ List.mem_cons_self).2 (by rw [hnil])
    rw [readOnce]
    by_cases hfit : bs.length ≤ readlen
    · rw [if_pos hfit]
      exact ⟨bs, reads, rfl, h.tail, rfl, fun hnil => absurd hnil hne, fun _ => by
        rw [readBound]; omega⟩
    · rw [if_neg hfit]
      refine ⟨bs.take readlen, .bytes (bs.drop readlen) :: reads, rfl, ?_, ?_, ?_, ?_⟩
      · intro o ho
        rcases List.mem_cons.mp ho with rfl | ho
        · refine ⟨nofun, fun heq => ?_⟩
          have hdrop := List.drop_eq_nil_iff.mp (ReadOutcome.bytes.inj heq)
          omega
        · exact h.tail o ho
      · rw [delivered, delivered, ← List.append_assoc, List.take_append_drop]
      · intro htake
        rcases List.take_eq_nil_iff.mp htake with hz | hnil
        · omega
        · exact absurd hnil hne
      · intro _
        rw [readBound, readBound, List.length_drop]
        omega

/-- What the first part of `GetNextRequest` leaves behind: the buffer and the coming reads
are the stream as before, and the header end is the leftmost one of the stream, or else
there is none and everything has been read. -/
structure Received (stream : CppString) (socket : Socket) (buffer : CppString)
    (pos : Option ℕ) (socket' : Socket) : Prop where
  /-- only the coming reads of the socket change -/
  frame : { socket' with reads := socket.reads } = socket
  /-- the coming reads stay healthy -/
  healthy : Healthy socket'.reads
  /-- nothing is lost, duplicated or reordered -/
  conserves : buffer ++ delivered socket'.reads = stream
  /-- the position is where the stream has its first header end -/
  leftmost : pos = findSub headerEnd stream
  /-- and it is in the buffer -/
  buffered : findSub headerEnd buffer = pos
  /-- without one the stream is at its end -/
  exhausted : pos = none → socket'.reads = []

theorem headerEnd_ne : headerEnd ≠ [] := by decide

/-- A header end in the buffer is the first one of the stream. -/
theorem Received.of_found (socket : Socket) {buffer : CppString} {pos : ℕ}
    (h : findSub headerEnd buffer = some pos) (hreads : Healthy socket.reads) :
    Received (buffer ++ delivered socket.reads) socket buffer (some pos) socket where
  frame := rfl
  healthy := hreads
  conserves := rfl
  leftmost := (findSub_append headerEnd_ne _ h).symm
  buffered := h
  exhausted := nofun

/-- Where the reads ended does not matter, only what they delivered. -/
theorem Received.of_read {stream buffer : CppString} {socket socket' : Socket}
    {pos : Option ℕ} {reads : List ReadOutcome}
    (h : Received stream { socket with reads := reads } buffer pos socket') :
    Received stream socket buffer pos socket' where
  frame := by
    have hframe := h.frame
    cases socket
    cases socket'
    simpa using hframe
  healthy := h.healthy
  conserves := h.conserves
  leftmost := h.leftmost
  buffered := h.buffered
  exhausted := h.exhausted

/-- The read loop. -/
theorem readRequest_spec : ∀ {fuel : ℕ} {buffer : CppString} (socket : Socket),
    Healthy socket.reads → findSub headerEnd buffer = none → readBound socket.reads ≤ fuel →
    ∃ buffer' pos socket', (readRequest fuel buffer).Returns socket (buffer', pos) socket' ∧
      Received (buffer ++ delivered socket.reads) socket buffer' pos socket'
  | 0, _, socket, _, _, hfuel => by
    have := readBound_pos socket.reads
    omega
  | fuel + 1, buffer, socket, hreads, hnone, hfuel => by
    obtain ⟨bs, reads', hread, hreads', hstream, hend, hbound⟩ :=
      readOnce_spec bufsize (by decide) hreads
    have hstep :
        (wrappedRead bufsize).Returns socket (some bs) { socket with reads := reads' } := by
      simp [Run.Returns, wrappedRead, hread]
    cases bs with
    | nil =>
      -- the end of the stream: the buffer is looked at once more
      obtain rfl := hend rfl
      refine ⟨buffer, none, { socket with reads := [] }, Run.Returns.bind hstep ?_, ?_⟩
      · simp only [hnone]
        rfl
      · have hnil : delivered socket.reads = [] := hstream.symm
        rw [hnil, List.append_nil]
        exact ⟨rfl, hreads', List.append_nil _, hnone.symm, hnone, fun _ => rfl⟩
    | cons b bs =>
      have hlt := hbound (List.cons_ne_nil b bs)
      rw [← hstream, ← List.append_assoc]
      rcases hfound : findSub headerEnd (buffer ++ b :: bs) with _ | pos
      · obtain ⟨buffer', pos, socket', hrun, hrec⟩ :=
          readRequest_spec { socket with reads := reads' } hreads' hfound
            (show readBound reads' ≤ fuel by omega)
        refine ⟨buffer', pos, socket', Run.Returns.bind hstep ?_, hrec.of_read⟩
        simp only [hfound]
        exact hrun
      · refine ⟨buffer ++ b :: bs, some pos, { socket with reads := reads' },
          Run.Returns.bind hstep ?_,
          (Received.of_found { socket with reads := reads' } hfound hreads').of_read⟩
        simp only [hfound]
        rfl

/-- What a call has to do with the stream, however the bytes arrive. -/
theorem receiveHeader_spec (hc : HttpConnection) {socket : Socket}
    (hreads : Healthy socket.reads) :
    ∃ buffer pos socket', (receiveHeader hc).Returns socket (⟨buffer⟩, pos) socket' ∧
      Received (hc.buffer ++ delivered socket.reads) socket buffer pos socket' := by
  unfold receiveHeader
  rcases hfound : findSub headerEnd hc.buffer with _ | pos
  · obtain ⟨buffer, pos, socket', hrun, hrec⟩ :=
      readRequest_spec socket hreads hfound (Nat.le_refl (readBound socket.reads))
    exact ⟨buffer, pos, socket', .bind (Run.get_apply socket) (.bind hrun rfl), hrec⟩
  · exact ⟨hc.buffer, some pos, socket, rfl, .of_found socket hfound hreads⟩

/-! ## One call -/

/-- What `ParseRequest` makes of a segment. -/
def parseSegment (segment : CppString) : Except Stop HttpRequest :=
  parseRequest ⟨segment⟩ segment.length

/-- `ParseRequest` only looks at the header it is handed. -/
theorem parseRequest_eq (hc : HttpConnection) (pos : ℕ) :
    parseRequest hc pos = parseSegment (hc.buffer.take pos) := by
  unfold parseSegment parseRequest
  rw [List.take_length]

/-- The text that a call of `GetNextRequest` hands to `ParseRequest`, if it does. -/
def handed (hc : HttpConnection) (socket : Socket) : Option CppString :=
  match receiveHeader hc socket with
  | .ok ((hc, some pos), _) => some (hc.buffer.take (pos + 4))
  | _ => none

section Call

variable {hc : HttpConnection} (request : HttpRequest) {socket : Socket}

/-- Without a segment left, a call reads to the end of the stream and returns false. -/
theorem getNextRequest_end (hreads : Healthy socket.reads)
    (hsegs : requestSegments (hc.buffer ++ delivered socket.reads) = []) :
    ∃ socket', (getNextRequest hc request).Returns socket
        (false, request, ⟨hc.buffer ++ delivered socket.reads⟩) socket' ∧
      handed hc socket = none ∧ socket'.reads = [] ∧
      { socket' with reads := socket.reads } = socket := by
  obtain ⟨buffer, pos, socket', hrun, hrec⟩ := receiveHeader_spec hc hreads
  have hpos : pos = none := hrec.leftmost.trans ((frames_eq_nil_iff headerEnd_ne).mp hsegs)
  subst hpos
  have hend := hrec.exhausted rfl
  have hbuffer : buffer = hc.buffer ++ delivered socket.reads := by
    have hconserves := hrec.conserves
    rwa [hend, delivered, List.append_nil] at hconserves
  rw [← hbuffer]
  exact ⟨socket', Run.Returns.bind hrun rfl, by rw [handed, hrun], hend, hrec.frame⟩

/-- Otherwise a call hands on the next segment and leaves the rest of the stream. -/
theorem getNextRequest_segment {segment : CppString} {segments : List CppString}
    {next : HttpRequest} (hreads : Healthy socket.reads)
    (hsegs : requestSegments (hc.buffer ++ delivered socket.reads) = segment :: segments)
    (hparse : parseSegment segment = .ok next) :
    ∃ hc' socket', (getNextRequest hc request).Returns socket (true, next, hc') socket' ∧
      handed hc socket = some segment ∧
      hc.buffer ++ delivered socket.reads =
        segment ++ (hc'.buffer ++ delivered socket'.reads) ∧
      requestSegments (hc'.buffer ++ delivered socket'.reads) = segments ∧
      Healthy socket'.reads ∧ { socket' with reads := socket.reads } = socket := by
  obtain ⟨buffer, pos, socket', hrun, hrec⟩ := receiveHeader_spec hc hreads
  rcases pos with _ | pos
  · rw [requestSegments, frames_of_none hrec.leftmost.symm] at hsegs
    cases hsegs
  rw [requestSegments, frames_of_some headerEnd_ne hrec.leftmost.symm, ← hrec.conserves] at hsegs
  -- the header end lies within the buffer, so the cut does too
  have hle : pos + headerEnd.length ≤ buffer.length := (findSub_eq_some hrec.buffered).1
  rw [List.take_append_of_le_length hle, List.drop_append_of_le_length hle] at hsegs
  obtain ⟨htake, hrest⟩ := List.cons.inj hsegs
  refine ⟨⟨buffer.drop (pos + 4)⟩, socket', Run.Returns.bind hrun ?_, ?_, ?_, hrest,
    hrec.healthy, hrec.frame⟩
  · have hnext : parseRequest ⟨buffer⟩ (pos + 4) = .ok next := by
      rw [parseRequest_eq, ← hparse, ← htake]
      rfl
    simp only [hnext]
    rfl
  · rw [handed, hrun, ← htake]
    rfl
  · rw [← htake, ← hrec.conserves, ← List.append_assoc]
    congr 1
    exact (List.take_append_drop _ buffer).symm

end Call

/-! ## Many calls -/

/-- One call of `GetNextRequest`: what it returned and what it handed on. -/
structure Call where
  /-- the value returned -/
  found : Bool
  /-- the request afterwards -/
  request : HttpRequest
  /-- the text handed to `ParseRequest` -/
  handed : Option CppString

/-- A number of calls of `GetNextRequest` on a connection. -/
def getRequests : ℕ → HttpConnection → HttpRequest →
    Run Socket (List Call × HttpRequest × HttpConnection)
  | 0, hc, request => return ([], request, hc)
  | k + 1, hc, request => do
    let text := handed hc (← Run.get)
    let (found, request, hc) ← getNextRequest hc request
    let (calls, last, hc) ← getRequests k hc request
    return (⟨found, request, text⟩ :: calls, last, hc)

/-- The segments that calls handed on, in order. -/
def segmentsHanded (calls : List Call) : List CppString := calls.filterMap Call.handed

/-- A call that returned false handed nothing on, one that returned true parsed what it
handed on. -/
def Call.Sound (call : Call) : Prop :=
  match call.handed with
  | none => call.found = false
  | some segment => call.found = true ∧ parseSegment segment = .ok call.request

/-- What is left after some calls on a connection. -/
structure Framed (stream : CppString) (k : ℕ) (calls : List Call) (hc : HttpConnection)
    (socket socket' : Socket) : Prop where
  /-- as many calls as were made -/
  length : calls.length = k
  /-- each is sound -/
  sound : ∀ call ∈ calls, call.Sound
  /-- they handed on the first segments of the stream -/
  handed : segmentsHanded calls = (requestSegments stream).take k
  /-- these, the buffer, and the bytes still to come are the stream -/
  conserves : (segmentsHanded calls).flatten ++ hc.buffer ++ delivered socket'.reads = stream
  /-- the other segments are still to be handed on -/
  rest : requestSegments (hc.buffer ++ delivered socket'.reads) = (requestSegments stream).drop k
  /-- the coming reads stay healthy -/
  healthy : Healthy socket'.reads
  /-- and only they change -/
  frame : { socket' with reads := socket.reads } = socket

section Framed

variable {stream : CppString} {k : ℕ} {calls : List Call} {hc : HttpConnection}
  {request : HttpRequest} {socket socket₁ socket' : Socket}

theorem Framed.frame_trans (h : Framed stream k calls hc socket₁ socket')
    (hframe : { socket₁ with reads := socket.reads } = socket) :
    { socket' with reads := socket.reads } = socket := by
  rw [← hframe, ← h.frame]

/-- A call at the end of the stream before the others. -/
theorem Framed.after_end (hsegs : requestSegments stream = [])
    (h : Framed stream k calls hc socket₁ socket')
    (hframe : { socket₁ with reads := socket.reads } = socket) :
    Framed stream (k + 1) (⟨false, request, none⟩ :: calls) hc socket socket' where
  length := congrArg (· + 1) h.length
  sound call hcall := by
    rcases List.mem_cons.mp hcall with rfl | hcall
    · rfl
    · exact h.sound call hcall
  handed := by
    have hhanded := h.handed
    rw [hsegs, List.take_nil] at hhanded ⊢
    exact hhanded
  conserves := h.conserves
  rest := by
    have hrest := h.rest
    rw [hsegs, List.drop_nil] at hrest ⊢
    exact hrest
  healthy := h.healthy
  frame := h.frame_trans hframe

/-- A call that hands on a segment before the others. -/
theorem Framed.after_segment {segment rest : CppString} {next : HttpRequest}
    (hsegs : requestSegments stream = segment :: requestSegments rest)
    (hstream : stream = segment ++ rest) (hparse : parseSegment segment = .ok next)
    (h : Framed rest k calls hc socket₁ socket')
    (hframe : { socket₁ with reads := socket.reads } = socket) :
    Framed stream (k + 1) (⟨true, next, some segment⟩ :: calls) hc socket socket' where
  length := congrArg (· + 1) h.length
  sound call hcall := by
    rcases List.mem_cons.mp hcall with rfl | hcall
    · exact ⟨rfl, hparse⟩
    · exact h.sound call hcall
  handed := by
    rw [hsegs, List.take_succ_cons, ← h.handed]
    rfl
  conserves := by
    rw [hstream]
    conv_rhs => rw [← h.conserves]
    simp [segmentsHanded]
  rest := by rw [hsegs, List.drop_succ_cons, h.rest]
  healthy := h.healthy
  frame := h.frame_trans hframe

end Framed

/-- Calls take the segments of the stream one after the other. -/
theorem getRequests_spec : ∀ (k : ℕ) (hc : HttpConnection) (request : HttpRequest)
    (socket : Socket), Healthy socket.reads →
    (∀ segment ∈ requestSegments (hc.buffer ++ delivered socket.reads),
      ∃ r, parseSegment segment = .ok r) →
    ∃ calls last hc' socket', (getRequests k hc request).Returns socket (calls, last, hc') socket' ∧
      Framed (hc.buffer ++ delivered socket.reads) k calls hc' socket socket'
  | 0, hc, request, socket, hreads, _ =>
    ⟨[], request, hc, socket, rfl, rfl, nofun, rfl, rfl, rfl, hreads, rfl⟩
  | k + 1, hc, request, socket, hreads, hparse => by
    rcases hsegs : requestSegments (hc.buffer ++ delivered socket.reads) with
      _ | ⟨segment, segments⟩
    · obtain ⟨socket₁, hcall, hhanded, hend, hframe⟩ :=
        getNextRequest_end request hreads hsegs
      have hstream : hc.buffer ++ delivered socket.reads ++ delivered socket₁.reads =
          hc.buffer ++ delivered socket.reads := by
        rw [hend, delivered, List.append_nil]
      obtain ⟨calls, last, hc', socket', hrun, hframed⟩ :=
        getRequests_spec k ⟨hc.buffer ++ delivered socket.reads⟩ request socket₁
          (by rw [hend]; exact nofun) (by rw [hstream, hsegs]; exact nofun)
      rw [hstream] at hframed
      refine ⟨⟨false, request, none⟩ :: calls, last, hc', socket', ?_,
        hframed.after_end hsegs hframe⟩
      refine .bind (Run.get_apply socket) (.bind hcall (.bind hrun ?_))
      rw [hhanded]
      rfl
    · obtain ⟨next, hnext⟩ := hparse segment (by rw [hsegs]; exact List.mem_cons_self)
      obtain ⟨hc₁, socket₁, hcall, hhanded, hstream, hrest, hreads₁, hframe⟩ :=
        getNextRequest_segment request hreads hsegs hnext
      obtain ⟨calls, last, hc', socket', hrun, hframed⟩ :=
        getRequests_spec k hc₁ next socket₁ hreads₁ (by
          rw [hrest]
          exact fun s hs => hparse s (by rw [hsegs]; exact List.mem_cons_of_mem _ hs))
      rw [← hrest] at hsegs
      refine ⟨⟨true, next, some segment⟩ :: calls, last, hc', socket', ?_,
        hframed.after_segment hsegs hstream hnext hframe⟩
      refine .bind (Run.get_apply socket) (.bind hcall (.bind hrun ?_))
      rw [hhanded]
      rfl

/-- However a client's bytes are cut into reads, and however many calls are made: the
calls that find a header end hand the segments of the stream to `ParseRequest` one after
the other, the bytes received so far are the segments handed on and the buffer, and at
the end of the stream a further call returns false exactly when there is no complete
segment in the buffer. -/
theorem framing_independent_of_chunks (socket : Socket) (request : HttpRequest)
    (hreads : Healthy socket.reads)
    (hparse : ∀ segment ∈ requestSegments (delivered socket.reads),
      ∃ r, parseSegment segment = .ok r) (k : ℕ) :
    ∃ calls last hc socket',
      (getRequests k ⟨[]⟩ request).Returns socket (calls, last, hc) socket' ∧
      calls.length = k ∧ (∀ call ∈ calls, call.Sound) ∧
      segmentsHanded calls = (requestSegments (delivered socket.reads)).take k ∧
      (∃ received, received ++ delivered socket'.reads = delivered socket.reads ∧
        received = (segmentsHanded calls).flatten ++ hc.buffer) ∧
      (delivered socket'.reads = [] →
        ∃ found r hc' socket'', (getNextRequest hc last).Returns socket' (found, r, hc') socket'' ∧
          (found = false ↔ requestSegments hc.buffer = [])) := by
  obtain ⟨calls, last, hc, socket', hrun, h⟩ := getRequests_spec k ⟨[]⟩ request socket
    hreads hparse
  rw [List.nil_append] at h
  refine ⟨calls, last, hc, socket', hrun, h.length, h.sound, h.handed,
    ⟨_, h.conserves, rfl⟩, fun hend => ?_⟩
  rcases hsegs : requestSegments (hc.buffer ++ delivered socket'.reads) with _ | ⟨segment, segments⟩
  · obtain ⟨socket'', hcall, -⟩ := getNextRequest_end last h.healthy hsegs
    rw [hend, List.append_nil] at hsegs
    exact ⟨_, _, _, socket'', hcall, iff_of_true rfl hsegs⟩
  · obtain ⟨r, hr⟩ := hparse segment (List.mem_of_mem_drop (by
      rw [← h.rest, hsegs]
      exact List.mem_cons_self))
    obtain ⟨hc', socket'', hcall, -⟩ :=
      getNextRequest_segment last h.healthy hsegs hr
    rw [hend, List.append_nil] at hsegs
    exact ⟨_, _, hc', socket'', hcall, iff_of_false nofun (by rw [hsegs]; exact nofun)⟩

/-- Two requests and a bit in three reads; the second cuts a header end, and a read is
interrupted. -/
def splitSocket : Socket where
  reads := [.bytes (ascii "GET / HTTP/1.1\r\n\r"), .retry,
    .bytes (ascii "\nGET /a HTTP/1.1\r\n\r\nGE"), .bytes (ascii "T")]
  writes := []
  sent := []

theorem framing_independent_of_chunks_split :
    ∃ calls last hc socket',
      (getRequests 3 ⟨[]⟩ HttpRequest.new).Returns splitSocket (calls, last, hc) socket' ∧
      segmentsHanded calls =
        [ascii "GET / HTTP/1.1\r\n\r\n", ascii "GET /a HTTP/1.1\r\n\r\n"] := by
  have hsegs : requestSegments (delivered splitSocket.reads) =
      [ascii "GET / HTTP/1.1\r\n\r\n", ascii "GET /a HTTP/1.1\r\n\r\n"] := by decide
  obtain ⟨calls, last, hc, socket', hrun, -, -, hhanded, -⟩ :=
    framing_independent_of_chunks splitSocket HttpRequest.new (by unfold Healthy; decide) (by
      rw [hsegs]
      simp only [List.forall_mem_cons, List.not_mem_nil, false_imp_iff, implies_true, and_true]
      exact ⟨⟨⟨ascii "/", []⟩, by decide⟩, ⟨⟨ascii "/a", []⟩, by decide⟩⟩) 3
  exact ⟨calls, last, hc, socket', hrun, by rw [hhanded, hsegs]; rfl⟩

end MultithreadedWebServer
