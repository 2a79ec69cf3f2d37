import MultithreadedWebServer.HttpConnection
import MultithreadedWebServer.QueryProcessor

/-!
# HttpServer.cc: requests to responses

A served client is a `Client`: its socket, and the verdicts of the coming `malloc`
calls (`ReadFile` allocates). What is the same for all clients is the `Site`: the base
directory, the file system, and the `QueryProcessor` over the indices.
-/

namespace MultithreadedWebServer

/-- What the server serves. -/
structure Site where
  /-- the directory of the static files -/
  basedir : CppString
  /-- the file system -/
  fs : FileSystem
  /-- `QueryProcessor::ProcessQuery` over the indices -/
  processQuery : List CppString → Run Schedule (List QueryResult)

/-! ## Static files -/

/-- `str.substr(pos)`. -/
def substrFrom (str : CppString) (pos : ℕ) : Except Stop CppString :=
  if str.length < pos then .error .exception else .ok (str.drop pos)

/-- `FileReader::ReadFile`; `fullfile` is the path. -/
def fileReaderReadFile (fs : FileSystem) (fullfile : CppString) :
    Run Schedule (Option CppString) := do
  match ← readFile (fs.file (CString.ofBytes fullfile)) with
  | none => return none
  | some (str, fileSize) => return some (str.take fileSize)

/-- The `Content-type` for a suffix. -/
def contentType (suffix : CppString) : CppString :=
  if suffix = ascii "html" ∨ suffix = ascii "htm" then ascii "text/html"
  else if suffix = ascii "jpeg" ∨ suffix = ascii "jpg" then ascii "image/jpeg"
  else if suffix = ascii "png" then ascii "image/png"
  else if suffix = ascii "doc" then ascii "text.doc"
  else if suffix = ascii "odt" then ascii "text.odt"
  else if suffix = ascii "pdf" then ascii "text.pdf"
  else if suffix = ascii "txt" then ascii "text.txt"
  else if suffix = ascii "wks" then ascii "text.wks"
  else ascii "others"

/-- The answer that the file was not found. -/
def fileNotFound (fname : CppString) : HttpResponse where
  protocol := ascii "HTTP/1.1"
  responseCode := 404
  message := ascii "Not Found"
  headers := []
  body := ascii "<html><body>Couldn't find file \"" ++ escapeHTML fname ++
    ascii "\"</body></html>"

/-- The answer with the bytes of a file. -/
def fileFound (suffix body : CppString) : HttpResponse where
  protocol := ascii "HTTP/1.1"
  responseCode := 200
  message := ascii "OK"
  headers := StringMap.assign (ascii "Content-type") (contentType suffix) []
  body := body

/-- `fname` of `ProcessFileRequest`. -/
def requestedName (uri : CppString) : Except Stop CppString := do
  let urlParser ← URLParser.new.parse uri
  substrFrom urlParser.path 8

/-- `ProcessFileRequest`; `vals[1]` is not checked. -/
def processFileRequest (site : Site) (uri : CppString) : Run Schedule HttpResponse := do
  let fname ← Run.lift (requestedName uri)
  let fullname := site.basedir ++ ascii "/" ++ fname
  if isPathSafe site.fs site.basedir fullname then
    match ← fileReaderReadFile site.fs fullname with
    | none => return fileNotFound fname
    | some body =>
      match (split (ascii ".") fname)[1]? with
      | none => Run.stop .fault
      | some suffix => return fileFound suffix body
  else
    return fileNotFound fname

/-! ## Queries -/

/-- The logo and the search box. -/
def queryPageTop : CppString :=
  ascii "<html><head><title>333gle</title></head>\r\n" ++
  ascii "<body>\r\n" ++
  ascii "<center style=\"font-size:500%;\">\r\n" ++
  ascii "<span style=\"position:relative;bottom:-0.33em;" ++
  ascii "color:orange;\">3</span><span style=\"color:" ++
  ascii "red;\">3</span><span style=\"color:gold;\">3</span>" ++
  ascii "<span style=\"color:blue;\">g</span>" ++
  ascii "<span style=\"color:green;\">l</span>" ++
  ascii "<span style=\"color:red;\">e</span>\r\n" ++
  ascii "</center>\r\n" ++
  ascii "<p>\r\n" ++
  ascii "<div style=\"height:20px;\"></div>\r\n" ++
  ascii "<center>\r\n" ++
  ascii "<form action=\"/query\" method=\"get\">\r\n" ++
  ascii "<input type=\"text\" size=30 name=\"terms\" />\r\n" ++
  ascii "<input type=\"submit\" value=\"Search\" />\r\n" ++
  ascii "</form>\r\n" ++
  ascii "</center><p>\r\n"

/-- The end of every page. -/
def queryPageBottom : CppString := ascii "</body>\r\n" ++ ascii "</html\r\n"

/-- One line of the list of results. -/
def resultLine (curQr : QueryResult) : CppString :=
  ascii " <li> <a href=\"" ++
  (if curQr.documentName.take 4 ≠ ascii "http" then ascii "/static/" else []) ++
  curQr.documentName ++ ascii "\">" ++ curQr.documentName ++
  ascii "</a> [" ++ decimal curQr.rank ++ ascii "]<br>\r\n"

/-- The part of the page with the results. -/
def resultsPart (queriesStr : CppString) (retQr : List QueryResult) : CppString :=
  ascii "<p><br>\r\n" ++
  if retQr.length > 0 then
    decimal retQr.length ++ ascii " results found for <b>" ++ escapeHTML queriesStr ++
    ascii "</b>\r\n" ++ ascii "<p>\r\n" ++ ascii "\r\n" ++ ascii "<ul>\r\n" ++
    retQr.flatMap resultLine ++ ascii "</ul>\r\n"
  else
    ascii "No results found for <b>" ++ escapeHTML queriesStr ++
    ascii "</b>\r\n" ++ ascii "<p>\r\n" ++ ascii "\r\n"

/-- The answer to a query, with the results or without. -/
def queryPage (results : CppString) : HttpResponse where
  protocol := ascii "HTTP/1.1"
  responseCode := 200
  message := ascii "OK"
  headers := []
  body := queryPageTop ++ results ++ queryPageBottom

/-- `ProcessQueryRequest`; `args.at` throws when there is no such field. -/
def processQueryRequest (site : Site) (uri : CppString) : Run Schedule HttpResponse := do
  if (findSub (ascii "query?terms") uri).isSome then
    let urlParser ← Run.lift (URLParser.new.parse uri)
    match StringMap.find? urlParser.args (ascii "terms") with
    | none => Run.stop .exception
    | some searchTerms =>
      let queries := (splitCompress (ascii "+") searchTerms).map (List.map toLower)
      let queriesStr := trim queries.flatten
      let retQr ← site.processQuery queries
      return queryPage (resultsPart queriesStr retQr)
  else
    return queryPage []

/-- `ProcessRequest`. -/
def processRequest (site : Site) (req : HttpRequest) : Run Schedule HttpResponse :=
  if req.uri.take 8 = ascii "/static/" then processFileRequest site req.uri
  else processQueryRequest site req.uri

/-! ## The connection loop -/

/-- A client that a thread of the server serves. -/
structure Client where
  /-- the connection -/
  socket : Socket
  /-- the verdicts of the coming `malloc` calls -/
  mallocs : Schedule
  deriving DecidableEq

/-- A part of the loop that only uses the connection. -/
def onSocket {α : Type} (m : Run Socket α) : Run Client α :=
  Run.zoom Client.socket (fun socket client => { client with socket := socket }) m

/-- A part of the loop that only allocates. -/
def onMallocs {α : Type} (m : Run Schedule α) : Run Client α :=
  Run.zoom Client.mallocs (fun mallocs client => { client with mallocs := mallocs }) m

/-- The loop of `HttpServer_ThrFn`. -/
def serveLoop (site : Site) : ℕ → HttpConnection → HttpRequest → Run Client Unit
  | 0, _, _ => Run.stop .diverges
  | fuel + 1, hc, req => do
    let (res, req, hc) ← onSocket (getNextRequest hc req)
    let done := !res
    let hp ← onMallocs (processRequest site req)
    let res ← onSocket (writeResponse hp)
    -- `hp.headers["connection"]` is empty where the header is missing
    let close := StringMap.find? hp.headers (ascii "connection") = some (ascii "close")
    if done ∨ !res ∨ close then return () else serveLoop site fuel hc req

/-- `HttpServer_ThrFn`. A request takes at least four bytes, so the bound is enough. -/
def httpServerThrFn (site : Site) : Run Client Unit := do
  let client ← Run.get
  serveLoop site (readBound client.socket.reads + 1) ⟨[]⟩ HttpRequest.new

end MultithreadedWebServer
