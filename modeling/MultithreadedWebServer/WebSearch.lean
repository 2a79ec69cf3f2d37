import Mathlib.Data.List.Permutation
import MultithreadedWebServer.IndexPipeline
import MultithreadedWebServer.QueryTerms
import MultithreadedWebServer.RequestHeads
import MultithreadedWebServer.ResponseStreams
import MultithreadedWebServer.ServeRuns

/-!
# From the requests of a client to the bytes it gets

A client sends the headers of its requests one after the other, in pieces of any size, and
reads the bytes that come back as responses, one after the other. What it finds in them is
stated in terms of the indexed directories and of the files in the served directory: every
layer between them is one of the programs modelled here.
-/

namespace MultithreadedWebServer

/-! ## What the client asks for -/

/-- What a client asks for. -/
inductive Target : Type where
  /-- the bare page -/
  | page
  /-- what the form of the page sends for some words -/
  | search (words : List CppString)
  /-- the file with this name, as the browser encodes it -/
  | file (name : CppString)

/-- The URI of a request. -/
def Target.uri : Target → CppString
  | .page => ascii "/"
  | .search words => queryUri words
  | .file name => staticPrefix ++ name

/-- A request: what it asks for, and its headers. -/
structure WebRequest where
  /-- what it asks for -/
  target : Target
  /-- its headers -/
  headers : List (CppString × CppString)

/-- The header that is sent. -/
def WebRequest.head (r : WebRequest) : RequestHead :=
  ⟨ascii "GET", r.target.uri, ascii "HTTP/1.1", r.headers⟩

/-- The stream of some requests. -/
def requestStream (rs : List WebRequest) : List UInt8 := rs.flatMap fun r => r.head.text

/-! ## What it should get -/

/-- What a search over the trees for the words of the form should find: the words reach the index
as one string, with spaces between them. -/
def webHits (trees : List SourceTree) (words : List CppString) : List QueryResult :=
  trees.flatMap fun t => t.hits [lowerCase (joinWords 32 words)]

/-- What the server has for a name: a text if the path is safe and the file is readable. The
name needs a dot. -/
inductive Offers (site : Site) (name : CppString) : Option (List UInt8) → Prop where
  /-- the file is served -/
  | served {text : List UInt8}
    (safe : isPathSafe site.fs site.basedir (site.fullname (staticName name)) = true)
    (holds : (site.fs.file (CString.ofBytes (site.fullname (staticName name)))).Holds text)
    (fits : text.length < 2 ^ 32) (dot : 46 ∈ staticName name) : Offers site name (some text)
  /-- the path leads outside -/
  | outside
    (leaves : isPathSafe site.fs site.basedir (site.fullname (staticName name)) = false) :
    Offers site name none
  /-- the file cannot be read -/
  | unreadable
    (fails : Yields (readFile (site.fs.file (CString.ofBytes
      (site.fullname (staticName name))))) none) : Offers site name none

/-- The response with what the server has for a name. -/
def offerResponse (name : CppString) : Option (List UInt8) → HttpResponse
  | some text => fileFound (secondPart (staticName name)) text
  | none => fileNotFound (staticName name)

/-- The frame of a response to a request. -/
def Shows (trees : List SourceTree) (site : Site) (r : WebRequest) (frame : ResponseFrame) :
    Prop :=
  match r.target with
  | .page => frame = frameOf (queryPage [])
  | .search words => ∃ results, results.Perm (webHits trees words) ∧
      (results.Pairwise fun x y => y.rank ≤ x.rank) ∧
      frame = frameOf (queryPage (resultsPart (trim (lowerCase (joinWords 32 words))) results))
  | .file name => ∃ offer, Offers site name offer ∧ frame = frameOf (offerResponse name offer)

/-- A request that the server can parse, and has an answer for. -/
def Target.Answerable (site : Site) : Target → Prop
  | .page => True
  | .search words => (∀ w ∈ words, IsWord w) ∧ (joinWords 43 words).length < 2 ^ 32
  | .file name => RequestHead.Token name ∧ ShortUrl (staticPrefix ++ name) ∧
      ∃ offer, Offers site name offer

/-- A request of the client. -/
structure WebRequest.Fair (site : Site) (r : WebRequest) : Prop where
  /-- there is an answer -/
  answerable : r.target.Answerable site
  /-- the headers are well-formed -/
  headers : ∀ e ∈ r.headers, RequestHead.HeaderName e.1 ∧ RequestHead.HeaderValue e.2
  /-- the response is shorter than 2 GiB -/
  fits : ∀ headers, AnswersFit site ⟨r.target.uri, headers⟩

/-! ## Requests -/

section Requests

variable {site : Site}

theorem token_letters {words : List CppString} (h : ∀ w ∈ words, IsWord w) :
    RequestHead.Token (queryUri words) := by
  have hfront : RequestHead.Token (ascii "/query?terms=") :=
    List.all_iff_forall_prop.mp (by decide)
  intro c hc hsep
  rcases List.mem_append.mp hc with hc | hc
  · exact hfront c hc hsep
  · rcases isAlpha_or_eq_of_mem h hc with halpha | rfl
    · have hcases : c = 32 ∨ c = 13 ∨ c = 10 := by simpa [ascii] using hsep
      rcases hcases with rfl | rfl | rfl <;> exact absurd halpha (by decide)
    · exact absurd hsep (by decide)

/-- The URI is one token, and not empty. -/
theorem Target.Answerable.token {target : Target} (h : target.Answerable site) :
    RequestHead.Token target.uri ∧ target.uri ≠ [] := by
  cases target with
  | page => exact ⟨List.all_iff_forall_prop.mp (by decide), by decide⟩
  | search words => exact ⟨token_letters h.1, List.append_ne_nil_of_left_ne_nil (by decide) _⟩
  | file name =>
    have hstatic : RequestHead.Token staticPrefix := List.all_iff_forall_prop.mp (by decide)
    refine ⟨fun c hc => ?_, List.append_ne_nil_of_left_ne_nil (by decide) _⟩
    rcases List.mem_append.mp hc with hc | hc
    · exact hstatic c hc
    · exact h.1 c hc

theorem WebRequest.Fair.wellFormed {r : WebRequest} (h : r.Fair site) : r.head.WellFormed := by
  have hget : RequestHead.Token (ascii "GET") := List.all_iff_forall_prop.mp (by decide)
  have hprotocol : RequestHead.Token (ascii "HTTP/1.1") := List.all_iff_forall_prop.mp (by decide)
  exact ⟨hget, h.answerable.token.1, hprotocol, h.headers⟩

/-- The text of a header parses. -/
theorem WebRequest.Fair.parseSegment_text {r : WebRequest} (h : r.Fair site) :
    ∃ headers, parseSegment r.head.text = .ok ⟨r.target.uri, headers⟩ := by
  have hsecond := (second_requestLine_iff h.wellFormed).mpr
    ⟨h.answerable.token.2, .inr (show trimRight (ascii "HTTP/1.1") ≠ [] by decide)⟩
  have hparse := parseRequest_text h.wellFormed []
  rw [hsecond, List.append_nil] at hparse
  exact ⟨_, hparse⟩

theorem isLine_of_notCrlf {s : CppString} (h : ∀ c ∈ s, c ∉ crlf) : IsLine s :=
  ⟨fun hmem => h 13 hmem (by decide), fun hmem => h 10 hmem (by decide)⟩

/-- The lines of a header are lines, and not empty. -/
theorem RequestHead.WellFormed.lines {head : RequestHead} (h : head.WellFormed) :
    ∀ line ∈ head.requestLine :: head.headers.map RequestHead.headerLine,
      IsLine line ∧ line ≠ [] := by
  have hblank : IsLine (ascii " ") := ⟨by decide, by decide⟩
  have hcolon : IsLine (ascii ": ") := ⟨by decide, by decide⟩
  have htoken : ∀ {s}, RequestHead.Token s → IsLine s := fun hs =>
    isLine_of_notCrlf (not_mem_crlf_of_token hs)
  intro line hline
  rcases List.mem_cons.mp hline with rfl | hline
  · refine ⟨((((htoken h.method).append hblank).append (htoken h.uri)).append hblank).append
      (htoken h.protocol), ?_⟩
    simp [RequestHead.requestLine, ascii]
  · obtain ⟨e, he, rfl⟩ := List.mem_map.mp hline
    obtain ⟨hname, hvalue⟩ := h.headers e he
    have hsub : crlf ⊆ ascii ": \r\n" := by decide
    refine ⟨((isLine_of_notCrlf fun c hc hin => hname c hc (hsub hin)).append hcolon).append
      (isLine_of_notCrlf hvalue.oneLine), ?_⟩
    simp [RequestHead.headerLine, ascii]

/-- The first header of a stream is its first segment. -/
theorem requestSegments_text {head : RequestHead} (h : head.WellFormed) (rest : CppString) :
    requestSegments (head.text ++ rest) = head.text :: requestSegments rest := by
  have htext : head.text =
      block (head.requestLine :: head.headers.map RequestHead.headerLine) ++ crlf := rfl
  obtain ⟨pos, hpos, hlen⟩ := findSub_block h.lines (List.cons_ne_nil _ _) rest
  have hend : pos + headerEnd.length = head.text.length := by
    rw [htext, List.length_append, ← hlen]
    rfl
  rw [← List.append_assoc, ← htext] at hpos
  rw [requestSegments, frames_of_some headerEnd_ne hpos, hend, List.take_left, List.drop_left]
  rfl

/-- A request as it is parsed; the one that is there before any other asks for the bare page. -/
def WebRequest.Parsed (r : WebRequest) (req : HttpRequest) : Prop :=
  req.uri = r.target.uri ∨ r.target = .page ∧ req.uri = []

/-- The requests of the stream; nothing more comes of an incomplete tail. -/
theorem requests_requestStream {tail : List UInt8} (htail : findSub headerEnd tail = none) :
    ∀ {rs : List WebRequest}, (∀ r ∈ rs, r.Fair site) →
      ∃ reqs, Requests (requestStream rs ++ tail) reqs ∧ List.Forall₂ WebRequest.Parsed rs reqs ∧
        ∀ req ∈ reqs, AnswersFit site req
  | [], _ => by
    refine ⟨[], ?_, .nil, fun _ hreq => absurd hreq List.not_mem_nil⟩
    rw [Requests, requestSegments]
    exact List.forall₂_nil_right_iff.mpr (frames_of_none htail)
  | r :: rs, h => by
    obtain ⟨hr, hrs⟩ := List.forall_mem_cons.mp h
    obtain ⟨headers, hparse⟩ := hr.parseSegment_text
    obtain ⟨reqs, hreqs, hparsed, hfits⟩ := requests_requestStream htail hrs
    refine ⟨⟨r.target.uri, headers⟩ :: reqs, ?_, .cons (.inl rfl) hparsed,
      List.forall_mem_cons.mpr ⟨hr.fits headers, hfits⟩⟩
    rw [Requests, requestStream, List.flatMap_cons, List.append_assoc,
      requestSegments_text hr.wellFormed]
    exact .cons hparse hreqs

end Requests

/-! ## Responses -/

section Responses

variable {trees : List SourceTree} {files : List (List UInt8)} {basedir : CppString}
  {fs : FileSystem} {sort : List QueryResult → List QueryResult} {site : Site}

theorem isLine_protocol : IsLine (ascii "HTTP/1.1") := ⟨by decide, by decide⟩

theorem isLine_ok : IsLine (ascii "OK") := ⟨by decide, by decide⟩

theorem onLines_queryPage (results : CppString) : (queryPage results).OnLines where
  protocol := isLine_protocol
  message := isLine_ok
  headers := fun _ he => absurd he List.not_mem_nil

theorem onLines_fileNotFound (fname : CppString) : (fileNotFound fname).OnLines where
  protocol := isLine_protocol
  message := show IsLine (ascii "Not Found") from ⟨by decide, by decide⟩
  headers := fun _ he => absurd he List.not_mem_nil

theorem isLine_contentType (suffix : CppString) : IsLine (contentType suffix) := by
  have hline : ∀ s ∈ [ascii "text/html", ascii "image/jpeg", ascii "image/png", ascii "text.doc",
      ascii "text.odt", ascii "text.pdf", ascii "text.txt", ascii "text.wks", ascii "others"],
      IsLine s := by
    unfold IsLine
    decide
  refine hline _ ?_
  unfold contentType
  split_ifs <;> decide

theorem onLines_fileFound (suffix body : CppString) : (fileFound suffix body).OnLines where
  protocol := isLine_protocol
  message := isLine_ok
  headers := by
    have hname : IsLine (ascii "Content-type") := ⟨by decide, by decide⟩
    exact List.forall_mem_singleton.mpr ⟨hname, isLine_contentType suffix⟩

/-- The response for a static file. -/
theorem processFileRequest_offers {name : CppString} (hshort : ShortUrl (staticPrefix ++ name))
    {offer : Option (List UInt8)} (h : Offers site name offer) :
    Yields (processFileRequest site (staticPrefix ++ name)) (offerResponse name offer) := by
  cases h with
  | @served text hsafe hholds hfits hdot =>
    have hread : fileReaderReadFile site.fs (site.fullname (staticName name)) [] =
        .ok (some text, []) := by
      refine Run.Returns.bind (readFile_yields hholds hfits) ?_
      dsimp only
      rw [List.take_left]
      rfl
    have hrun := processFileRequest_static hshort hsafe hread
    rw [if_pos hdot] at hrun
    exact hrun
  | outside houtside =>
    rw [Site.fullname] at houtside
    unfold processFileRequest
    rw [requestedName_static hshort, Run.lift_ok, Run.pure_bind]
    dsimp only
    rw [if_neg (by rw [houtside]; exact Bool.false_ne_true)]
    rfl
  | unreadable hfails =>
    rw [Site.fullname] at hfails
    unfold processFileRequest
    rw [requestedName_static hshort, Run.lift_ok, Run.pure_bind]
    dsimp only
    split
    · refine Run.Returns.bind (Run.Returns.bind hfails rfl) rfl
    · rfl

/-- Every request has its response. -/
theorem processRequest_shows
    (hask : ∀ query, query ≠ [] → ∃ results, askIndices sort files query = .ok results ∧
      results.Perm (trees.flatMap fun t => t.hits query) ∧
        results.Pairwise fun x y => y.rank ≤ x.rank)
    {r : WebRequest} (hr : r.target.Answerable (indexSite basedir fs sort files))
    {req : HttpRequest} (hreq : r.Parsed req) :
    ∃ resp, Yields (processRequest (indexSite basedir fs sort files) req) resp ∧
      resp.OnLines ∧ Shows trees (indexSite basedir fs sort files) r (frameOf resp) := by
  obtain ⟨target, headers⟩ := r
  obtain ⟨uri, fields⟩ := req
  rcases hreq with huri | ⟨htarget, huri⟩
  swap
  · dsimp only at htarget huri
    subst htarget huri
    refine ⟨queryPage [], ?_, onLines_queryPage [], rfl⟩
    have hstatic : ([] : CppString).take 8 ≠ ascii "/static/" := by decide
    have hquery : findSub (ascii "query?terms") [] = none := by decide
    rw [processRequest_bare _ hstatic hquery]
    rfl
  dsimp only at huri
  subst huri
  cases target with
  | page =>
    refine ⟨queryPage [], ?_, onLines_queryPage [], rfl⟩
    have hstatic : (ascii "/").take 8 ≠ ascii "/static/" := by decide
    have hquery : findSub (ascii "query?terms") (ascii "/") = none := by decide
    rw [processRequest_bare _ hstatic hquery]
    rfl
  | search words =>
    obtain ⟨hwords, hlen⟩ := hr
    obtain ⟨results, hrun, hperm, hsorted⟩ :=
      hask [lowerCase (joinWords 32 words)] (List.cons_ne_nil _ _)
    have hquery : (queryUri words).take 8 ≠ ascii "/static/" := by
      intro heq
      have hfront : (queryUri words).take 8 = ascii "/query?t" := rfl
      rw [hfront] at heq
      exact absurd heq (by decide)
    refine ⟨_, ?_, onLines_queryPage _, results, hperm, hsorted, rfl⟩
    show (processRequest _ ⟨queryUri words, fields⟩).Returns [] _ []
    rw [processRequest, if_neg hquery, processQueryRequest_queryUri hwords, if_pos hlen]
    have hsite : (indexSite basedir fs sort files).processQuery
        [lowerCase (joinWords 32 words)] = pure results := by
      rw [indexSite]
      dsimp only
      rw [hrun, Run.lift_ok]
    rw [hsite, Run.pure_bind, List.flatten_singleton]
    rfl
  | file name =>
    obtain ⟨-, hshort, offer, hoffer⟩ := hr
    have hrun := processFileRequest_offers hshort hoffer
    have hstatic : (staticPrefix ++ name).take 8 = ascii "/static/" := rfl
    refine ⟨offerResponse name offer, ?_, ?_, offer, hoffer, rfl⟩
    · show (processRequest _ ⟨staticPrefix ++ name, fields⟩).Returns [] _ []
      rw [processRequest, if_pos hstatic]
      exact hrun
    · cases offer with
      | some text => exact onLines_fileFound _ _
      | none => exact onLines_fileNotFound _

/-- The responses to some requests. -/
theorem answers_show
    (hask : ∀ query, query ≠ [] → ∃ results, askIndices sort files query = .ok results ∧
      results.Perm (trees.flatMap fun t => t.hits query) ∧
        results.Pairwise fun x y => y.rank ≤ x.rank)
    {rs : List WebRequest} {reqs : List HttpRequest}
    (hrs : ∀ r ∈ rs, r.target.Answerable (indexSite basedir fs sort files))
    (hreqs : List.Forall₂ WebRequest.Parsed rs reqs) :
    ∃ hps, Yields (answers (indexSite basedir fs sort files) reqs) hps ∧
      (∀ hp ∈ hps, hp.OnLines) ∧
        List.Forall₂ (Shows trees (indexSite basedir fs sort files)) rs (hps.map frameOf) := by
  induction hreqs with
  | nil => exact ⟨[], rfl, fun _ hhp => absurd hhp List.not_mem_nil, .nil⟩
  | cons hreq _ ih =>
    obtain ⟨hr, hrest⟩ := List.forall_mem_cons.mp hrs
    obtain ⟨hp, hrun, hlines, hshows⟩ := processRequest_shows hask hr hreq
    obtain ⟨hps, hruns, hall, hframes⟩ := ih hrest
    exact ⟨hp :: hps, Run.Returns.bind hrun (Run.Returns.bind hruns rfl),
      List.forall_mem_cons.mpr ⟨hlines, hall⟩, .cons hshows hframes⟩

theorem parsed_getLastD {rs : List WebRequest} {reqs : List HttpRequest}
    (h : List.Forall₂ WebRequest.Parsed rs reqs) {r : WebRequest} {req : HttpRequest}
    (hdefault : r.Parsed req) : (rs.getLastD r).Parsed (reqs.getLastD req) := by
  induction h generalizing r req with
  | nil => exact hdefault
  | cons hhead _ ih =>
    rw [List.getLastD_cons, List.getLastD_cons]
    exact ih hhead

end Responses

/-- From the indexed directories and the served directory to the socket: a client sends any
number of requests, in pieces of any size, and `HttpServer_ThrFn` sends back bytes that are cut
into responses, one for each request, in order: the bare page, a page with what a search of the
directories should find, or the text of a file. The last request is answered once more. -/
theorem web_search_answers_requests (trees : List SourceTree) (hne : trees ≠ [])
    (h : ∀ t ∈ trees, t.Indexable) (sort : List QueryResult → List QueryResult)
    (hsort : ∀ results, (sort results).Perm results ∧
      (sort results).Pairwise fun x y => y.less x = false)
    (files : List (List UInt8)) (hfiles : List.Forall₂ Built trees files)
    (basedir : CppString) (fs : FileSystem) (client : Client) (rs : List WebRequest)
    (hrs : ∀ r ∈ rs, r.Fair (indexSite basedir fs sort files)) (tail : List UInt8)
    (htail : findSub headerEnd tail = none)
    (hsends : delivered client.socket.reads = requestStream rs ++ tail)
    (hreads : Healthy client.socket.reads) (hwrites : WritesSucceed client.socket.writes)
    (hmallocs : client.mallocs = []) :
    ∃ client' bytes frames,
      (httpServerThrFn (indexSite basedir fs sort files)).Returns client () client' ∧
      client'.socket.sent = client.socket.sent ++ bytes ∧ cutResponses bytes = some frames ∧
      List.Forall₂ (Shows trees (indexSite basedir fs sort files))
        (rs ++ [rs.getLastD ⟨.page, []⟩]) frames := by
  have hfilesne : files ≠ [] := by
    rintro rfl
    exact hne (List.forall₂_nil_right_iff.mp hfiles)
  obtain ⟨qp, hopen, hqp⟩ := openIndices_built true hfiles h
  have hask : ∀ query, query ≠ [] → ∃ results, askIndices sort files query = .ok results ∧
      results.Perm (trees.flatMap fun t => t.hits query) ∧
        results.Pairwise fun x y => y.rank ≤ x.rank := fun query hquery => by
    obtain ⟨results, hrun, hperm, hsorted⟩ := processQuery_hits hsort hqp hquery
    refine ⟨results, ?_, hperm, hsorted⟩
    rw [askIndices, newQueryProcessor, if_neg hfilesne, hopen, ok_bind, hrun]
  obtain ⟨reqs, hreqs, hparsed, hfits⟩ := requests_requestStream htail hrs
  have hclient : client.Sends (indexSite basedir fs sort files) reqs := by
    refine ⟨hreads, hwrites, by rwa [hsends], List.forall_mem_cons.mpr ⟨?_, hfits⟩⟩
    exact answersFit_bare _ (by decide) (by decide)
  have hnew : WebRequest.Parsed ⟨.page, []⟩ HttpRequest.new := .inr ⟨rfl, rfl⟩
  have hlast := parsed_getLastD hparsed hnew
  have hanswerable : ∀ r ∈ rs ++ [rs.getLastD ⟨.page, []⟩],
      r.target.Answerable (indexSite basedir fs sort files) := by
    refine List.forall_mem_append.mpr ⟨fun r hr => (hrs r hr).answerable, ?_⟩
    rw [List.forall_mem_singleton]
    rcases List.eq_nil_or_concat' rs with rfl | ⟨front, last, rfl⟩
    · trivial
    · rw [List.getLastD_concat]
      exact (hrs last (List.mem_append_right _ List.mem_cons_self)).answerable
  obtain ⟨hps, hruns, hlines, hframes⟩ := answers_show hask hanswerable
    (List.rel_append hparsed (.cons hlast .nil))
  have hserves := httpServerThrFn_serves hclient
  unfold Serves at hserves
  rw [hmallocs, hruns] at hserves
  obtain ⟨client', hout, -, hsent⟩ := hserves
  exact ⟨client', _, _, hout, hsent, cutResponsesUpTo_flatMap hps hlines (Nat.le_refl _), hframes⟩

/-! ## A small server -/

/-- A search has a response that can be written, if the page with the results can. -/
theorem answersFit_search {basedir : CppString} {fs : FileSystem}
    {sort : List QueryResult → List QueryResult} {files : List (List UInt8)}
    {words : List CppString} (hwords : ∀ w ∈ words, IsWord w) (headers : StringMap)
    (h : ∀ results, askIndices sort files [lowerCase (joinWords 32 words)] = .ok results →
      FitsInt (queryPage (resultsPart (trim (lowerCase (joinWords 32 words))) results))) :
    AnswersFit (indexSite basedir fs sort files) ⟨queryUri words, headers⟩ := by
  intro m hp m' hrun
  have hquery : (queryUri words).take 8 ≠ ascii "/static/" := by
    intro heq
    have hfront : (queryUri words).take 8 = ascii "/query?t" := rfl
    rw [hfront] at heq
    exact absurd heq (by decide)
  rw [processRequest, if_neg hquery, processQueryRequest_queryUri hwords] at hrun
  split at hrun
  · obtain ⟨results, m₁, hask, hpage⟩ := Run.bind_eq_ok hrun
    cases hpage
    rw [List.flatten_singleton]
    refine h results ?_
    rw [indexSite] at hask
    dsimp only at hask
    rcases hres : askIndices sort files [lowerCase (joinWords 32 words)] with e | found
    · rw [hres] at hask
      cases hask
    · rw [hres] at hask
      cases hask
      rfl
  · cases hrun

/-- A file has a response that can be written, if both the text and the message can. -/
theorem answersFit_file {site : Site} {name : CppString} {text : List UInt8}
    (hshort : ShortUrl (staticPrefix ++ name)) (hoffer : Offers site name (some text))
    (headers : StringMap) (hfound : FitsInt (fileFound (secondPart (staticName name)) text))
    (hmissing : FitsInt (fileNotFound (staticName name))) :
    AnswersFit site ⟨staticPrefix ++ name, headers⟩ := by
  cases hoffer with
  | served hsafe hholds hfits hdot =>
    intro m hp m' hrun
    have hstatic : (staticPrefix ++ name).take 8 = ascii "/static/" := rfl
    rw [processRequest, if_pos hstatic] at hrun
    have hread := readFile_spec hholds hfits m
    cases hverdict : verdict m with
    | true =>
      rw [hverdict, if_pos rfl] at hread
      have hreader : fileReaderReadFile site.fs (site.fullname (staticName name)) m =
          .ok (some text, m.tail) := by
        refine Run.Returns.bind hread ?_
        dsimp only
        rw [List.take_left]
        rfl
      rw [Run.Returns, processFileRequest_static hshort hsafe hreader, if_pos hdot] at hrun
      cases hrun
      exact hfound
    | false =>
      rw [hverdict, if_neg Bool.false_ne_true] at hread
      rw [Site.fullname] at hsafe hread
      unfold processFileRequest at hrun
      rw [requestedName_static hshort, Run.lift_ok, Run.pure_bind, if_pos hsafe] at hrun
      have hreader : fileReaderReadFile site.fs (site.basedir ++ ascii "/" ++ staticName name) m =
          .ok (none, m.tail) := Run.Returns.bind hread rfl
      rw [Run.Returns, Run.bind_ok hreader] at hrun
      cases hrun
      exact hmissing

/-- A search for a word and a file, over the index file of the small tree. -/
theorem web_search_answers_requests_small : ∃ file, Built smallTree file ∧
    ∃ client' bytes frames,
      (httpServerThrFn (indexSite (ascii "/srv/www") wwwSite.fs sortResults [file])).Returns
        (clientOf (requestStream [⟨.search [ascii "A"], []⟩, ⟨.file (ascii "a.html"), []⟩]))
        () client' ∧
      client'.socket.sent = bytes ∧ cutResponses bytes = some frames ∧
      List.Forall₂ (Shows [smallTree]
        (indexSite (ascii "/srv/www") wwwSite.fs sortResults [file]))
        [⟨.search [ascii "A"], []⟩, ⟨.file (ascii "a.html"), []⟩, ⟨.file (ascii "a.html"), []⟩]
        frames := by
  obtain ⟨file, hbuilt⟩ := indexable_smallTree.exists_built
  have htrees : ∀ t ∈ [smallTree], t.Indexable := List.forall_mem_singleton.mpr indexable_smallTree
  have hwords : ∀ w ∈ [ascii "A"], IsWord w := by
    rw [List.forall_mem_singleton]
    exact ⟨by decide, List.all_iff_forall_prop.mp (by decide)⟩
  have hsearch : WebRequest.Fair (indexSite (ascii "/srv/www") wwwSite.fs sortResults [file])
      ⟨.search [ascii "A"], []⟩ := by
    refine ⟨⟨hwords, by decide⟩, fun e he => absurd he List.not_mem_nil, fun headers => ?_⟩
    refine answersFit_search hwords headers fun results hask => ?_
    obtain ⟨qp, hopen, hqp⟩ := openIndices_built true (.cons hbuilt .nil) htrees
    have hquery : [lowerCase (joinWords 32 [ascii "A"])] ≠ [] := List.cons_ne_nil _ _
    obtain ⟨found, hfound, hperm, -⟩ := processQuery_hits sortResults_spec hqp hquery
    have hsame : askIndices sortResults [file] [lowerCase (joinWords 32 [ascii "A"])] =
        .ok found := by
      rw [askIndices, newQueryProcessor, if_neg (List.cons_ne_nil _ _), hopen, ok_bind, hfound]
    obtain rfl := Except.ok.inj (hsame.symm.trans hask)
    have hhits : [smallTree].flatMap (fun t => t.hits [lowerCase (joinWords 32 [ascii "A"])]) =
        [⟨ascii "a/a", 1⟩, ⟨ascii "a/b", 1⟩] := by
      decide +kernel
    rw [hhits] at hperm
    rcases List.perm_pair.mp hperm with rfl | rfl
    · unfold FitsInt
      decide +kernel
    · unfold FitsInt
      decide +kernel
  have hshort : ShortUrl (staticPrefix ++ ascii "a.html") :=
    ⟨by decide, by decide, fun e he => by cases he⟩
  have hoffer : Offers (indexSite (ascii "/srv/www") wwwSite.fs sortResults [file])
      (ascii "a.html") (some (ascii "hi")) := by
    have hsafe : isPathSafe wwwSite.fs wwwSite.basedir
        (wwwSite.fullname (staticName (ascii "a.html"))) = true := by decide
    have hreads : ∀ o ∈ [ReadOutcome.bytes (ascii "hi")], o ≠ .fatal ∧ o ≠ .bytes [] := by decide
    exact .served hsafe ⟨rfl, rfl, rfl, rfl, hreads, rfl⟩ (by decide) (by decide)
  have hpage : WebRequest.Fair (indexSite (ascii "/srv/www") wwwSite.fs sortResults [file])
      ⟨.file (ascii "a.html"), []⟩ := by
    refine ⟨⟨List.all_iff_forall_prop.mp (by decide), hshort, _, hoffer⟩,
      fun e he => absurd he List.not_mem_nil, fun headers => ?_⟩
    refine answersFit_file hshort hoffer headers ?_ ?_
    · unfold FitsInt
      decide +kernel
    · unfold FitsInt
      decide +kernel
  have hreads : Healthy (clientOf (requestStream
      [⟨.search [ascii "A"], []⟩, ⟨.file (ascii "a.html"), []⟩])).socket.reads := by
    refine List.forall_mem_singleton.mpr ⟨?_, ?_⟩
    · decide
    · decide
  obtain ⟨client', bytes, frames, hrun, hsent, hcut, hframes⟩ := web_search_answers_requests
    [smallTree] (List.cons_ne_nil _ _) htrees sortResults sortResults_spec [file]
    (.cons hbuilt .nil) (ascii "/srv/www") wwwSite.fs
    (clientOf (requestStream [⟨.search [ascii "A"], []⟩, ⟨.file (ascii "a.html"), []⟩]))
    [⟨.search [ascii "A"], []⟩, ⟨.file (ascii "a.html"), []⟩]
    (List.forall_mem_cons.mpr ⟨hsearch, List.forall_mem_singleton.mpr hpage⟩) [] (by decide)
    rfl hreads (fun _ hw => absurd hw List.not_mem_nil) rfl
  exact ⟨file, hbuilt, client', bytes, frames, hrun, hsent, hcut, hframes⟩

end MultithreadedWebServer
