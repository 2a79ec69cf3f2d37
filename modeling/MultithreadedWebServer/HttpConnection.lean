import MultithreadedWebServer.HttpUtils

/-!
# HttpConnection.cc: requests and responses on a connection

An `HttpConnection` is its `buffer_`; the descriptor is the `Socket` the computations
run on.
-/

namespace MultithreadedWebServer

/-- `HttpRequest`. -/
structure HttpRequest where
  /-- which URI the client requested -/
  uri : CppString
  /-- from lower-case header name to header value -/
  headers : StringMap
  deriving DecidableEq

/-- A new `HttpRequest`. -/
def HttpRequest.new : HttpRequest := ⟨[], []⟩

/-- `HttpResponse`. -/
structure HttpResponse where
  /-- the protocol string of the first line -/
  protocol : CppString
  /-- the response code -/
  responseCode : ℕ
  /-- the response code message -/
  message : CppString
  /-- all headers but Content-length -/
  headers : StringMap
  /-- the body -/
  body : CppString
  deriving DecidableEq

/-- `"\r\n"`. -/
def crlf : CppString := [13, 10]

/-- `"\r\n\r\n"`, the end of a request header. -/
def headerEnd : CppString := [13, 10, 13, 10]

/-- `GenerateResponseString`. -/
def generateResponseString (response : HttpResponse) : CppString :=
  response.protocol ++ ascii " " ++ decimal response.responseCode ++ ascii " " ++
    response.message ++ crlf ++
    (response.headers.flatMap fun h => h.1 ++ ascii ": " ++ h.2 ++ crlf) ++
    ascii "Content-length: " ++ decimal response.body.length ++ crlf ++ crlf ++ response.body

/-- `HttpConnection`. -/
structure HttpConnection where
  /-- data read from the client and not yet handed out -/
  buffer : CppString
  deriving DecidableEq

/-! ## Parsing -/

/-- The loop of `ParseRequest` over the header lines; `[1]` is not checked. -/
def parseHeaders : List CppString → StringMap → Except Stop StringMap
  | [], headers => pure headers
  | line :: lines, headers =>
    match splitCompress (ascii ": ") line with
    | name :: value :: _ =>
      parseHeaders lines (StringMap.assign (name.map toLower) value headers)
    | _ => throw .fault

/-- `ParseRequest`; `at(1)` throws when the first line has a single element. -/
def parseRequest (hc : HttpConnection) (pos : ℕ) : Except Stop HttpRequest := do
  let str := hc.buffer.take pos
  let lines := (splitCompress crlf str).map trimRight
  let curLine := lines.headD []
  match (splitCompress (ascii " ") curLine)[1]? with
  | none => throw .exception
  | some uri =>
    let headers ← parseHeaders (lines.drop 1).dropLast []
    return ⟨uri, headers⟩

/-! ## Reading and writing -/

/-- `BUFSIZE`. -/
def bufsize : ℕ := 256

/-- The read loop of `GetNextRequest`: the buffer and where the header ends, or `none`
for a return of false. -/
def readRequest : ℕ → CppString → Run Socket (CppString × Option ℕ)
  | 0, _ => Run.stop .diverges
  | fuel + 1, buffer => do
    match ← wrappedRead bufsize with
    | none => return (buffer, none)
    | some [] => return (buffer, findSub headerEnd buffer)
    | some bs =>
      let buffer := buffer ++ bs
      match findSub headerEnd buffer with
      | some pos => return (buffer, some pos)
      | none => readRequest fuel buffer

/-- A bound on the number of reads until the stream is at its end. -/
def readBound : List ReadOutcome → ℕ
  | [] => 1
  | .bytes bs :: reads => bs.length + 1 + readBound reads
  | _ :: reads => readBound reads

/-- The first part of `GetNextRequest`: the buffer with what was read, and where its
header ends if there is one. -/
def receiveHeader (hc : HttpConnection) : Run Socket (HttpConnection × Option ℕ) := do
  match findSub headerEnd hc.buffer with
  | some pos => return (hc, some pos)
  | none =>
    let (buffer, pos) ← readRequest (readBound (← Run.get).reads) hc.buffer
    return (⟨buffer⟩, pos)

/-- `GetNextRequest`: whether a request was read, the request, and the connection. -/
def getNextRequest (hc : HttpConnection) (request : HttpRequest) :
    Run Socket (Bool × HttpRequest × HttpConnection) := do
  let (hc, pos) ← receiveHeader hc
  match pos with
  | none => return (false, request, hc)
  | some pos =>
    let request ← Run.lift (parseRequest hc (pos + 4))
    return (true, request, ⟨hc.buffer.drop (pos + 4)⟩)

/-- `WriteResponse`; lengths are converted to `int`. -/
def writeResponse (response : HttpResponse) : Run Socket Bool := do
  let str := generateResponseString response
  let res ← wrappedWrite str (toInt str.length)
  return decide (res = toInt str.length)

end MultithreadedWebServer
