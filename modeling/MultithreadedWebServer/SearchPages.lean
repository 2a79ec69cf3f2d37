import Mathlib.Data.Bool.AllAny
import MultithreadedWebServer.StaticRequests

/-!
# Pages with results

Two things about the pages of `ProcessQueryRequest`, for every run in which it gets results
from the query engine. The words of the user are escaped, the names of the documents are
not, so the markup of a page is the one that the names bring along. And a link leads back to
the document only if its name survives the parsing of a URL.
-/

namespace MultithreadedWebServer

/-! ## Runs with search terms -/

/-- What `ProcessQueryRequest` makes of the search terms. -/
def queryWords (searchTerms : CppString) : List CppString :=
  (splitCompress (ascii "+") searchTerms).map (List.map toLower)

/-- A run of `ProcessQueryRequest` that carries search terms, the results that it gets from
the query engine, and the page. -/
structure SearchRun (site : Site) (uri : CppString) (mallocs mallocs' : Schedule)
    (retQr : List QueryResult) (page : HttpResponse) : Prop where
  /-- the URI asks for results -/
  asks : (findSub (ascii "query?terms") uri).isSome = true
  /-- the query engine is asked, and answers -/
  results : ∃ parser searchTerms, URLParser.new.parse uri = .ok parser ∧
    StringMap.find? parser.args (ascii "terms") = some searchTerms ∧
    site.processQuery (queryWords searchTerms) mallocs = .ok (retQr, mallocs')
  /-- the page -/
  answer : processQueryRequest site uri mallocs = .ok (page, mallocs')

section Runs

variable {site : Site} {uri : CppString} {mallocs mallocs' : Schedule}
  {retQr : List QueryResult} {page : HttpResponse}

/-- With search terms the query engine is asked. -/
theorem processQueryRequest_terms {parser : URLParser} {searchTerms : CppString}
    (hasks : (findSub (ascii "query?terms") uri).isSome = true)
    (hparse : URLParser.new.parse uri = .ok parser)
    (hfind : StringMap.find? parser.args (ascii "terms") = some searchTerms) :
    processQueryRequest site uri = do
      let retQr ← site.processQuery (queryWords searchTerms)
      return queryPage (resultsPart (trim (queryWords searchTerms).flatten) retQr) := by
  unfold processQueryRequest
  rw [if_pos hasks, hparse, Run.lift_ok, Run.pure_bind]
  dsimp only
  rw [hfind]
  rfl

/-- The page shows the results. -/
theorem SearchRun.page_eq (h : SearchRun site uri mallocs mallocs' retQr page) :
    ∃ queriesStr, page = queryPage (resultsPart queriesStr retQr) := by
  obtain ⟨hasks, ⟨parser, searchTerms, hparse, hfind, hquery⟩, hanswer⟩ := h
  refine ⟨trim (queryWords searchTerms).flatten, ?_⟩
  rw [processQueryRequest_terms hasks hparse hfind, Run.bind_ok hquery] at hanswer
  exact (Prod.mk.inj (Except.ok.inj hanswer)).1.symm

end Runs

/-- A site whose query engine always has the same results. -/
def knownSite (results : List QueryResult) : Site where
  basedir := []
  fs := ⟨fun _ => none, fun _ => ⟨false, false, 0, false, []⟩⟩
  processQuery := fun _ => pure results

/-- Asking it. -/
theorem searchRun_knownSite (results : List QueryResult) :
    ∃ page, SearchRun (knownSite results) (ascii "/query?terms=a") [] [] results page := by
  refine ⟨_, by decide, ⟨_, ascii "a", rfl, rfl, rfl⟩, rfl⟩

/-! ## Markup -/

/-- The characters of a text that are markup. -/
def markup (s : CppString) : CppString := s.filter fun c => c = 60 ∨ c = 62 ∨ c = 34

theorem markup_append (s t : CppString) : markup (s ++ t) = markup s ++ markup t :=
  List.filter_append s t

theorem markup_eq_nil {s : CppString} (h : ∀ c ∈ s, c ≠ 60 ∧ c ≠ 62 ∧ c ≠ 34) :
    markup s = [] := by
  refine List.filter_eq_nil_iff.mpr fun c hc => ?_
  simp [h c hc]

theorem mem_replaceAll {s replacement : CppString} {c d : UInt8}
    (h : d ∈ replaceAll s c replacement) : d ∈ replacement ∨ (d ∈ s ∧ d ≠ c) := by
  obtain ⟨e, he, hd⟩ := List.mem_flatMap.mp h
  split at hd
  · exact .inl hd
  · rename_i hne
    obtain rfl := List.mem_singleton.mp hd
    exact .inr ⟨he, hne⟩

/-- Escaped text has no markup. -/
theorem markup_escapeHTML (s : CppString) : markup (escapeHTML s) = [] := by
  have hplain : ∀ replacement ∈ [ascii "&gt;", ascii "&lt;", ascii "&apos;", ascii "&quot;"],
      markup replacement = [] := by decide
  have hnot {replacement : CppString} (hr : markup replacement = []) {c : UInt8}
      (hc : c ∈ replacement) : c ≠ 60 ∧ c ≠ 62 ∧ c ≠ 34 := by
    have hfilter := List.filter_eq_nil_iff.mp hr c hc
    simpa using hfilter
  refine markup_eq_nil fun c hc => ?_
  rcases mem_replaceAll hc with hin | ⟨hc, hgt⟩
  · exact hnot (hplain _ (by simp)) hin
  rcases mem_replaceAll hc with hin | ⟨hc, hlt⟩
  · exact hnot (hplain _ (by simp)) hin
  rcases mem_replaceAll hc with hin | ⟨hc, -⟩
  · exact hnot (hplain _ (by simp)) hin
  rcases mem_replaceAll hc with hin | ⟨-, hquot⟩
  · exact hnot (hplain _ (by simp)) hin
  · exact ⟨hlt, hgt, hquot⟩

/-- A number has no markup. -/
theorem markup_decimal (n : ℕ) : markup (decimal n) = [] := by
  refine markup_eq_nil fun c hc => ?_
  obtain ⟨d, hd, rfl⟩ := List.mem_map.mp hc
  have hdigit : d.isDigit = true := Nat.isDigit_of_mem_toDigits (by decide) (by decide) hd
  obtain ⟨hlow, hhigh⟩ := Char.isDigit_iff_toNat.mp hdigit
  have hle : d.toNat ≤ 57 := hhigh
  have hge : 48 ≤ d.toNat := hlow
  have htoNat : (UInt8.ofNat d.toNat).toNat = d.toNat :=
    UInt8.toNat_ofNat_of_lt' (Nat.lt_of_le_of_lt hle (by decide))
  have hne (m : ℕ) (hm : m < 48 ∨ 57 < m) (hsmall : m < 256) :
      UInt8.ofNat d.toNat ≠ UInt8.ofNat m := by
    intro heq
    have hnat := congrArg UInt8.toNat heq
    rw [htoNat, UInt8.toNat_ofNat_of_lt' hsmall] at hnat
    omega
  exact ⟨hne 60 (by decide) (by decide), hne 62 (by decide) (by decide),
    hne 34 (by decide) (by decide)⟩

/-- The markup of a link to a document with some markup in its name. -/
def linkMarkup (name : CppString) : CppString :=
  ascii "<><\"" ++ name ++ ascii "\">" ++ name ++ ascii "<><>"

theorem markup_resultLine (qr : QueryResult) :
    markup (resultLine qr) = linkMarkup (markup qr.documentName) := by
  have hstatic : markup (if qr.documentName.take 4 ≠ ascii "http" then ascii "/static/" else []) =
      [] := by
    split <;> decide
  have hopen : markup (ascii " <li> <a href=\"") = ascii "<><\"" := by decide
  have hmiddle : markup (ascii "\">") = ascii "\">" := by decide
  have hclose : markup (ascii "</a> [") = ascii "<>" := by decide
  have hend : markup (ascii "]<br>\r\n") = ascii "<>" := by decide
  rw [resultLine]
  simp only [markup_append, hstatic, hopen, hmiddle, hclose, hend, markup_decimal,
    List.append_nil]
  rw [linkMarkup, List.append_assoc]
  rfl

theorem markup_resultLines (retQr : List QueryResult) : markup (retQr.flatMap resultLine) =
    retQr.flatMap fun qr => linkMarkup (markup qr.documentName) := by
  induction retQr with
  | nil => rfl
  | cons qr retQr ih =>
    rw [List.flatMap_cons, List.flatMap_cons, markup_append, markup_resultLine, ih]

/-- Apart from the links the markup of the results is always the same. -/
theorem markup_resultsPart (queriesStr : CppString) (retQr : List QueryResult) :
    markup (resultsPart queriesStr retQr) = if retQr.length > 0 then
      ascii "<><><><><><>" ++ (retQr.flatMap fun qr => linkMarkup (markup qr.documentName)) ++
        ascii "<>"
      else ascii "<><><><><>" := by
  have htop : markup (ascii "<p><br>\r\n") = ascii "<><>" := by decide
  have hfound : markup (ascii " results found for <b>") = ascii "<>" := by decide
  have hnone : markup (ascii "No results found for <b>") = ascii "<>" := by decide
  have hbold : markup (ascii "</b>\r\n") = ascii "<>" := by decide
  have hpar : markup (ascii "<p>\r\n") = ascii "<>" := by decide
  have hline : markup (ascii "\r\n") = [] := by decide
  have hlist : markup (ascii "<ul>\r\n") = ascii "<>" := by decide
  have hlistEnd : markup (ascii "</ul>\r\n") = ascii "<>" := by decide
  rw [resultsPart, markup_append, htop]
  split
  · simp only [markup_append, hfound, hbold, hpar, hline, hlist, hlistEnd, markup_decimal,
      markup_escapeHTML, markup_resultLines, List.append_nil, List.nil_append]
    rfl
  · simp only [markup_append, hnone, hbold, hpar, hline, markup_escapeHTML, List.append_nil]
    rfl

/-- The markup of a page. -/
theorem markup_queryPage (results : CppString) : markup (queryPage results).body =
    markup queryPageTop ++ markup results ++ markup queryPageBottom := by
  rw [queryPage, markup_append, markup_append]

section TwoRuns

variable {site site' : Site} {uri uri' : CppString} {m₁ m₂ m₁' m₂' : Schedule}
  {retQr retQr' : List QueryResult} {page page' : HttpResponse}

/-- Two pages with the same number of results have the same markup exactly if their links
have. -/
theorem SearchRun.markup_eq_iff (h : SearchRun site uri m₁ m₂ retQr page)
    (h' : SearchRun site' uri' m₁' m₂' retQr' page') (hlen : retQr.length = retQr'.length) :
    markup page.body = markup page'.body ↔
      (retQr.flatMap fun qr => linkMarkup (markup qr.documentName)) =
        retQr'.flatMap fun qr => linkMarkup (markup qr.documentName) := by
  obtain ⟨queriesStr, rfl⟩ := h.page_eq
  obtain ⟨queriesStr', rfl⟩ := h'.page_eq
  rw [markup_queryPage, markup_queryPage, List.append_left_inj, List.append_right_inj,
    markup_resultsPart, markup_resultsPart, ← hlen]
  split
  · rw [List.append_left_inj, List.append_right_inj]
  · rename_i hzero
    obtain rfl : retQr = [] := List.length_eq_zero_iff.mp (Nat.eq_zero_of_not_pos hzero)
    obtain rfl : retQr' = [] := List.length_eq_zero_iff.mp hlen.symm
    exact ⟨fun _ => rfl, fun _ => rfl⟩

end TwoRuns

/-- Whatever the sites, the URIs and the words: as long as all documents have one of these
names, pages with the same number of results have the same markup. -/
def SameMarkup (names : Set CppString) : Prop :=
  ∀ (site site' : Site) (uri uri' : CppString) (m₁ m₂ m₁' m₂' : Schedule)
    (retQr retQr' : List QueryResult) (page page' : HttpResponse),
    SearchRun site uri m₁ m₂ retQr page → SearchRun site' uri' m₁' m₂' retQr' page' →
    (∀ qr ∈ retQr, qr.documentName ∈ names) → (∀ qr ∈ retQr', qr.documentName ∈ names) →
    retQr.length = retQr'.length → markup page.body = markup page'.body

/-- Links to documents whose names have the same markup have the same markup. -/
theorem linkMarkups_eq {m : CppString} : ∀ {retQr retQr' : List QueryResult},
    retQr.length = retQr'.length → (∀ qr ∈ retQr, markup qr.documentName = m) →
    (∀ qr ∈ retQr', markup qr.documentName = m) →
    (retQr.flatMap fun qr => linkMarkup (markup qr.documentName)) =
      retQr'.flatMap fun qr => linkMarkup (markup qr.documentName) := by
  intro retQr retQr' hlen h h'
  have hsame : ∀ l : List QueryResult, (∀ qr ∈ l, markup qr.documentName = m) →
      (l.flatMap fun qr => linkMarkup (markup qr.documentName)) =
        (List.replicate l.length (linkMarkup m)).flatten := by
    intro l hl
    induction l with
    | nil => rfl
    | cons qr l ih =>
      obtain ⟨hqr, hl⟩ := List.forall_mem_cons.mp hl
      rw [List.flatMap_cons, hqr, ih hl]
      rfl
  rw [hsame retQr h, hsame retQr' h', hlen]

/-- Neither the words of the user nor the names of the documents change the markup of a
page, exactly if all names have the same markup in them. And two given pages have the same
markup exactly if the links to their documents have. -/
theorem same_markup_iff (names : Set CppString) :
    (SameMarkup names ↔ ∀ name ∈ names, ∀ name' ∈ names, markup name = markup name') ∧
    ∀ (site site' : Site) (uri uri' : CppString) (m₁ m₂ m₁' m₂' : Schedule)
      (retQr retQr' : List QueryResult) (page page' : HttpResponse),
      SearchRun site uri m₁ m₂ retQr page → SearchRun site' uri' m₁' m₂' retQr' page' →
      retQr.length = retQr'.length →
      (markup page.body = markup page'.body ↔
        (retQr.flatMap fun qr => linkMarkup (markup qr.documentName)) =
          retQr'.flatMap fun qr => linkMarkup (markup qr.documentName)) := by
  refine ⟨⟨fun h name hname name' hname' => ?_, fun h => ?_⟩, ?_⟩
  · -- one result is enough to tell two names apart
    obtain ⟨page, hrun⟩ := searchRun_knownSite [⟨name, 1⟩]
    obtain ⟨page', hrun'⟩ := searchRun_knownSite [⟨name', 1⟩]
    have hmarkup := h _ _ _ _ _ _ _ _ _ _ _ _ hrun hrun'
      (List.forall_mem_singleton.mpr hname) (List.forall_mem_singleton.mpr hname') rfl
    have hlink : linkMarkup (markup name) = linkMarkup (markup name') := by
      have hlinks := (hrun.markup_eq_iff hrun' rfl).mp hmarkup
      simpa using hlinks
    have hlen := congrArg List.length hlink
    simp only [linkMarkup, List.length_append] at hlen
    rw [linkMarkup, linkMarkup] at hlink
    simp only [List.append_assoc] at hlink
    exact (List.append_inj (List.append_cancel_left hlink) (by omega)).1
  · intro site site' uri uri' m₁ m₂ m₁' m₂' retQr retQr' page page' hrun hrun' hin hin' hlen
    refine (hrun.markup_eq_iff hrun' hlen).mpr ?_
    cases retQr with
    | nil =>
      obtain rfl : retQr' = [] := List.length_eq_zero_iff.mp hlen.symm
      rfl
    | cons qr retQr =>
      have hqr := hin qr List.mem_cons_self
      exact linkMarkups_eq hlen (fun qr' hqr' => h _ (hin qr' hqr') _ hqr)
        fun qr' hqr' => h _ (hin' qr' hqr') _ hqr
  · intro site site' uri uri' m₁ m₂ m₁' m₂' retQr retQr' page page' hrun hrun' hlen
    exact hrun.markup_eq_iff hrun' hlen

/-- A document whose name is a script element adds it to the page. -/
theorem script_in_page : ∃ page page',
    SearchRun (knownSite [⟨ascii "a.html", 1⟩]) (ascii "/query?terms=a") [] []
      [⟨ascii "a.html", 1⟩] page ∧
    SearchRun (knownSite [⟨ascii "<script>", 1⟩]) (ascii "/query?terms=a") [] []
      [⟨ascii "<script>", 1⟩] page' ∧
    markup page.body ≠ markup page'.body := by
  obtain ⟨page, hrun⟩ := searchRun_knownSite [⟨ascii "a.html", 1⟩]
  obtain ⟨page', hrun'⟩ := searchRun_knownSite [⟨ascii "<script>", 1⟩]
  refine ⟨page, page', hrun, hrun', fun heq => ?_⟩
  exact absurd ((hrun.markup_eq_iff hrun' rfl).mp heq) (by decide)

/-! ## Links -/

/-- The target of the link to a document. -/
def hrefOf (name : CppString) : CppString :=
  (if name.take 4 ≠ ascii "http" then ascii "/static/" else []) ++ name

/-- The text of a link. -/
def linkText (name : CppString) : CppString :=
  ascii "<a href=\"" ++ hrefOf name ++ ascii "\">" ++ name ++ ascii "</a>"

/-- A name that the web server can have for a file of its own. -/
structure IsFileName (name : CppString) : Prop where
  /-- there are characters -/
  ne : name ≠ []
  /-- they are printable, and no spaces -/
  range : ∀ c ∈ name, 33 ≤ c ∧ c ≤ 127
  /-- it is not the name of another web server's document -/
  notHttp : name.take 4 ≠ ascii "http"

/-- The page has a link for the document, a request for its target is one for a static file,
and the name of this file is the name of the document. The target is the text that the code
appends, `/static/` and the name as it is, and not what an HTML parser would read there. -/
structure LeadsBack (site : Site) (page : HttpResponse) (name : CppString) : Prop where
  /-- the link -/
  linked : linkText name <:+: page.body
  /-- the request -/
  routed : ∀ headers, processRequest site ⟨hrefOf name, headers⟩ =
    processFileRequest site (hrefOf name)
  /-- the name -/
  named : requestedName (hrefOf name) = .ok name

theorem hrefOf_file {name : CppString} (h : IsFileName name) :
    hrefOf name = staticPrefix ++ name := by
  rw [hrefOf, if_pos h.notHttp, staticPrefix]

/-- What follows a question mark is lost. -/
theorem length_staticName_lt {name : CppString} (h : (63 : UInt8) ∈ name) :
    (staticName name).length < name.length := by
  have hdecode := length_decodeLoop_le (name.takeWhile (· ≠ 63))
  have htake : (name.takeWhile (· ≠ 63)).length < name.length := by
    refine Nat.lt_of_le_of_ne (List.takeWhile_prefix _).length_le fun hsame => ?_
    have hself := (List.takeWhile_prefix _).eq_of_length hsame
    exact absurd (List.takeWhile_eq_self_iff.mp hself 63 h) (by decide)
  rw [staticName]
  exact Nat.lt_of_le_of_lt hdecode htake

theorem staticName_of_noQuestion {name : CppString} (h : (63 : UInt8) ∉ name) :
    staticName name = decodeLoop name := by
  rw [staticName, List.takeWhile_eq_self_iff.mpr]
  intro c hc
  rw [decide_eq_true_iff]
  rintro rfl
  exact h hc

/-- The name survives parsing exactly if nothing in it means something in a URL. -/
theorem requestedName_eq_self_iff (name : CppString) :
    requestedName (staticPrefix ++ name) = .ok name ↔
      63 ∉ name ∧ 43 ∉ name ∧ hasEscape name = false ∧ name.length + 8 < 2 ^ 32 := by
  by_cases hquestion : (63 : UInt8) ∈ name
  · refine iff_of_false ?_ fun hnone => hnone.1 hquestion
    intro hname
    by_cases hshort : ShortUrl (staticPrefix ++ name)
    · rw [requestedName_static hshort] at hname
      have hlen := length_staticName_lt hquestion
      rw [Except.ok.inj hname] at hlen
      exact Nat.lt_irrefl _ hlen
    · rw [requestedName_long hshort] at hname
      cases hname
  · have hplain : (63 : UInt8) ∉ staticPrefix ++ name := by
      intro hin
      rcases List.mem_append.mp hin with hin | hin
      · exact absurd hin (by decide)
      · exact hquestion hin
    have hlen : (staticPrefix ++ name).length = name.length + 8 := by
      rw [List.length_append, Nat.add_comm]
      rfl
    rw [← hlen, ← shortUrl_of_noQuestion hplain, ← and_assoc (a := 43 ∉ name),
      ← decodeLoop_eq_self_iff, ← staticName_of_noQuestion hquestion]
    constructor
    · intro hname
      by_cases hshort : ShortUrl (staticPrefix ++ name)
      · rw [requestedName_static hshort] at hname
        exact ⟨hquestion, Except.ok.inj hname, hshort⟩
      · rw [requestedName_long hshort] at hname
        cases hname
    · rintro ⟨-, hdecode, hshort⟩
      rw [requestedName_static hshort, hdecode]

theorem linkText_within (qr : QueryResult) : linkText qr.documentName <:+: resultLine qr := by
  have hopen : ascii " <li> <a href=\"" = ascii " <li> " ++ ascii "<a href=\"" := by decide
  have hclose : ascii "</a> [" = ascii "</a>" ++ ascii " [" := by decide
  refine ⟨ascii " <li> ", ascii " [" ++ decimal qr.rank ++ ascii "]<br>\r\n", ?_⟩
  rw [resultLine, hopen, hclose, linkText, hrefOf]
  simp only [List.append_assoc]

/-- A result has its line in the page. -/
theorem resultLine_within {qr : QueryResult} {retQr : List QueryResult} (h : qr ∈ retQr)
    (queriesStr : CppString) :
    resultLine qr <:+: (queryPage (resultsPart queriesStr retQr)).body := by
  have hpos : retQr.length > 0 := List.length_pos_of_mem h
  have hline : resultLine qr <:+: retQr.flatMap resultLine := by
    obtain ⟨before, after, rfl⟩ := List.append_of_mem h
    rw [List.flatMap_append, List.flatMap_cons, ← List.append_assoc]
    exact List.infix_append _ _ _
  have hlines : retQr.flatMap resultLine <:+: resultsPart queriesStr retQr := by
    rw [resultsPart, if_pos hpos]
    exact (List.infix_append _ _ _).trans (List.suffix_append _ _).isInfix
  have hpart : resultsPart queriesStr retQr <:+:
      (queryPage (resultsPart queriesStr retQr)).body := by
    rw [queryPage]
    exact List.infix_append _ _ _
  exact (hline.trans hlines).trans hpart

section Links

variable {site : Site} {uri : CppString} {mallocs mallocs' : Schedule}
  {retQr : List QueryResult} {page : HttpResponse}

/-- The link of a result leads back to the document exactly if its name has no question mark,
no plus sign and no escape sequence, and is not too long for the index of `URIDecode`. -/
theorem result_link_leads_back_iff (h : SearchRun site uri mallocs mallocs' retQr page)
    {qr : QueryResult} (hqr : qr ∈ retQr) (hname : IsFileName qr.documentName) :
    LeadsBack site page qr.documentName ↔ 63 ∉ qr.documentName ∧ 43 ∉ qr.documentName ∧
      hasEscape qr.documentName = false ∧ qr.documentName.length + 8 < 2 ^ 32 := by
  rw [← requestedName_eq_self_iff, ← hrefOf_file hname]
  constructor
  · exact LeadsBack.named
  · intro hnamed
    obtain ⟨queriesStr, rfl⟩ := h.page_eq
    have hlinked := (linkText_within qr).trans (resultLine_within hqr queriesStr)
    refine ⟨hlinked, fun headers => ?_, hnamed⟩
    rw [processRequest, hrefOf_file hname, if_pos]
    exact List.take_left' rfl

end Links

/-- An ordinary name. -/
theorem result_link_leads_back_iff_html : ∃ page,
    SearchRun (knownSite [⟨ascii "a/b.html", 1⟩]) (ascii "/query?terms=a") [] []
      [⟨ascii "a/b.html", 1⟩] page ∧
    LeadsBack (knownSite [⟨ascii "a/b.html", 1⟩]) page (ascii "a/b.html") := by
  obtain ⟨page, hrun⟩ := searchRun_knownSite [⟨ascii "a/b.html", 1⟩]
  have hname : IsFileName (ascii "a/b.html") :=
    ⟨by decide, List.all_iff_forall_prop.mp (by decide), by decide⟩
  exact ⟨page, hrun, (result_link_leads_back_iff hrun List.mem_cons_self hname).mpr
    ⟨by decide, by decide, by decide, by decide⟩⟩

/-- The link to a document with a plus sign in its name asks for a name with a space. -/
theorem plus_link_leads_astray : ∃ page,
    SearchRun (knownSite [⟨ascii "c++.txt", 1⟩]) (ascii "/query?terms=a") [] []
      [⟨ascii "c++.txt", 1⟩] page ∧ IsFileName (ascii "c++.txt") ∧
    requestedName (hrefOf (ascii "c++.txt")) = .ok (ascii "c  .txt") ∧
    ¬ LeadsBack (knownSite [⟨ascii "c++.txt", 1⟩]) page (ascii "c++.txt") := by
  obtain ⟨page, hrun⟩ := searchRun_knownSite [⟨ascii "c++.txt", 1⟩]
  have hnamed : requestedName (hrefOf (ascii "c++.txt")) = .ok (ascii "c  .txt") := by decide
  refine ⟨page, hrun, ⟨by decide, List.all_iff_forall_prop.mp (by decide), by decide⟩, hnamed,
    fun hleads => ?_⟩
  have heq := hnamed.symm.trans hleads.named
  exact absurd heq (by decide)

end MultithreadedWebServer
