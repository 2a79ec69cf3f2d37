import MultithreadedWebServer.DiskSearch
import MultithreadedWebServer.SearchPages

/-!
# Queries that are always answered

Over files of the index writer the query engine has an answer to any list of words, those
that no file could contain included. So whether `ProcessQueryRequest` returns a page is up
to the URI alone: where its text asks for results, the parsed URL has to have the search
terms.
-/

namespace MultithreadedWebServer

/-! ## The query engine -/

/-- A pair of readers that comes to an answer, whatever it is asked. -/
structure AlwaysAnswers (index : HashTableReader × HashTableReader) : Prop where
  /-- the name of a document -/
  docs : ∀ docid, ∃ name, docTableLookupDocID index.1 docid = .ok name
  /-- a word, and the documents it is in -/
  words : ∀ word, lookupWord index.2 word = .ok none ∨
    ∃ docs headers, lookupWord index.2 word = .ok (some docs) ∧ getDocIDList docs = .ok headers

section Engine

variable {index : HashTableReader × HashTableReader}

theorem addQueryResult_total (h : AlwaysAnswers index) (headers : List DocidElementHeader) :
    ∃ results, addQueryResult index.1 headers = .ok results := by
  induction headers with
  | nil => exact ⟨[], rfl⟩
  | cons header headers ih =>
    obtain ⟨results, hresults⟩ := ih
    obtain ⟨name, hname⟩ := h.docs header.docid
    rw [addQueryResult, hname, ok_bind, hresults, ok_bind]
    cases name with
    | none => exact ⟨_, rfl⟩
    | some name => exact ⟨_, rfl⟩

theorem intersectDocIDs_total (h : AlwaysAnswers index) (words : List CppString)
    (headers : List DocidElementHeader) :
    ∃ final, intersectDocIDs index.2 words headers = .ok final := by
  induction words generalizing headers with
  | nil => exact ⟨headers, rfl⟩
  | cons word words ih =>
    rw [intersectDocIDs]
    rcases h.words word with hnone | ⟨docs, cur, hsome, hlist⟩
    · rw [hnone]
      exact ⟨[], rfl⟩
    · obtain ⟨final, hfinal⟩ := ih (combineDocIDList headers cur)
      refine ⟨final, ?_⟩
      rw [hsome, ok_bind]
      dsimp only
      rw [hlist, ok_bind, hfinal]

theorem processIndex_total (h : AlwaysAnswers index) (word : CppString) (words : List CppString) :
    ∃ results, processIndex index.1 index.2 word words = .ok results := by
  rw [processIndex]
  rcases h.words word with hnone | ⟨docs, headers, hsome, hlist⟩
  · rw [hnone]
    exact ⟨[], rfl⟩
  · rw [hsome, ok_bind]
    dsimp only
    rw [hlist, ok_bind]
    obtain ⟨final, hfinal⟩ := intersectDocIDs_total h words headers
    by_cases hwords : words = []
    · rw [if_pos hwords]
      exact addQueryResult_total h headers
    · rw [if_neg hwords, hfinal, ok_bind]
      by_cases hempty : final.length ≠ 0
      · rw [if_pos hempty]
        exact addQueryResult_total h final
      · rw [if_neg hempty]
        exact ⟨[], rfl⟩

theorem processIndices_total {qp : QueryProcessor} (h : ∀ index ∈ qp, AlwaysAnswers index)
    (word : CppString) (words : List CppString) :
    ∃ results, processIndices word words qp = .ok results := by
  induction qp with
  | nil => exact ⟨[], rfl⟩
  | cons index qp ih =>
    obtain ⟨hindex, hqp⟩ := List.forall_mem_cons.mp h
    obtain ⟨results, hresults⟩ := processIndex_total hindex word words
    obtain ⟨rest, hrest⟩ := ih hqp
    refine ⟨results ++ rest, ?_⟩
    rw [processIndices, hresults, ok_bind, hrest, ok_bind]
    rfl

end Engine

/-! ## Files of the index writer -/

/-- The content of a file that `WriteIndex` has written, for an index that fits the format. -/
def ValidIndexFile (file : List UInt8) : Prop :=
  ∃ mi dt, FitsFormat mi dt ∧ Written mi dt file

/-- The readers of such a file. -/
theorem alwaysAnswers_fileImage {mi : MemIndex} {dt : DocTable} (h : FitsFormat mi dt) :
    AlwaysAnswers (readerAt (fileImage mi dt) 16 (dtGetDocidTable dt).chains,
      readerAt (fileImage mi dt) (16 + (docTableImage dt).length) mi.table.chains) where
  docs docid := ⟨_, readsDocs_fileImage h docid⟩
  words word := by
    rcases lookupWord_spec h.index h.words h.indexTable_at word with
      ⟨key, set, docs, -, -, hat, hlookup⟩ | ⟨-, hlookup⟩
    · exact .inr ⟨_, _, hlookup, getDocIDList_spec hat⟩
    · exact .inl hlookup

/-- The constructor of `QueryProcessor` opens such files. -/
theorem openIndices_total (validate : Bool) {files : List (List UInt8)}
    (h : ∀ file ∈ files, ValidIndexFile file) :
    ∃ qp, openIndices validate files = .ok qp ∧ ∀ index ∈ qp, AlwaysAnswers index := by
  induction files with
  | nil => exact ⟨[], rfl, nofun⟩
  | cons file files ih =>
    obtain ⟨⟨mi, dt, hfits, hwritten⟩, hfiles⟩ := List.forall_mem_cons.mp h
    obtain ⟨qp, hopen, hqp⟩ := ih hfiles
    obtain ⟨fir, hfir, hdtr, hitr⟩ := readers_fileImage hfits validate
    refine ⟨_ :: qp, ?_, List.forall_mem_cons.mpr ⟨alwaysAnswers_fileImage hfits, hqp⟩⟩
    rw [hwritten.eq_fileImage hfits, openIndices, hfir, ok_bind, hdtr, ok_bind, hitr, ok_bind,
      hopen, ok_bind]
    rfl

/-- What `ProcessQueryRequest` asks: a new `QueryProcessor` over the files. -/
def askIndices (sort : List QueryResult → List QueryResult) (files : List (List UInt8))
    (queries : List CppString) : Except Stop (List QueryResult) := do
  let qp ← newQueryProcessor files true
  processQuery sort qp queries

/-- Over a list of such files there is an answer to every query. -/
theorem askIndices_total (sort : List QueryResult → List QueryResult) {files : List (List UInt8)}
    (hne : files ≠ []) (h : ∀ file ∈ files, ValidIndexFile file) {queries : List CppString}
    (hqueries : queries ≠ []) : ∃ results, askIndices sort files queries = .ok results := by
  obtain ⟨word, words, rfl⟩ := List.exists_cons_of_ne_nil hqueries
  obtain ⟨qp, hopen, hqp⟩ := openIndices_total true h
  obtain ⟨results, hresults⟩ := processIndices_total hqp word words
  refine ⟨sort results, ?_⟩
  rw [askIndices, newQueryProcessor, if_neg hne, hopen, ok_bind, processQuery, hresults, ok_bind]
  rfl

/-! ## Pages -/

/-- A site over index files. -/
def indexSite (basedir : CppString) (fs : FileSystem)
    (sort : List QueryResult → List QueryResult) (files : List (List UInt8)) : Site where
  basedir := basedir
  fs := fs
  processQuery := fun queries => Run.lift (askIndices sort files queries)

/-- `ProcessQueryRequest` returns a response with code 200. -/
def AnswersPage (site : Site) (uri : CppString) (mallocs : Schedule) : Prop :=
  ∃ page mallocs', (processQueryRequest site uri).Returns mallocs page mallocs' ∧
    page.responseCode = 200

/-- The query words are never the empty list. -/
theorem queryWords_ne_nil (searchTerms : CppString) : queryWords searchTerms ≠ [] := by
  intro hnil
  exact splitCompress_ne_nil _ _ (List.map_eq_nil_iff.mp hnil)

section Pages

variable {site : Site} {uri : CppString} {mallocs : Schedule}

/-- Without results there is the bare page. -/
theorem answersPage_bare (hbare : ¬ (findSub (ascii "query?terms") uri).isSome = true) :
    AnswersPage site uri mallocs := by
  refine ⟨queryPage [], mallocs, ?_, rfl⟩
  rw [Run.Returns, processQueryRequest, if_neg hbare]
  rfl

/-- A URI that is too long is not parsed. -/
theorem not_answersPage_of_long (hasks : (findSub (ascii "query?terms") uri).isSome = true)
    (hlong : ¬ ShortUrl uri) : ¬ AnswersPage site uri mallocs := by
  rintro ⟨page, mallocs', hreturns, -⟩
  rw [Run.Returns, processQueryRequest, if_pos hasks, parse_of_not_short hlong] at hreturns
  cases hreturns

/-- Without search terms `at` throws. -/
theorem processQueryRequest_throws (hasks : (findSub (ascii "query?terms") uri).isSome = true)
    (hshort : ShortUrl uri) (hterms : ascii "terms" ∉ urlFields uri) :
    processQueryRequest site uri = Run.stop .exception := by
  have hfind : StringMap.find? (StringMap.assignAll URLParser.new.args (urlPairs uri))
      (ascii "terms") = none := by
    change StringMap.find? (StringMap.ofPairs (urlPairs uri)) (ascii "terms") = none
    rw [StringMap.find?_ofPairs]
    exact StringMap.lastValue_eq_none_iff.mpr hterms
  unfold processQueryRequest
  rw [if_pos hasks, parse_of_short hshort, Run.lift_ok, Run.pure_bind]
  dsimp only
  rw [hfind]

/-- With search terms the page shows what the query engine answers. -/
theorem answersPage_of_terms (hsite : ∀ queries ≠ [], ∃ results mallocs',
      (site.processQuery queries).Returns mallocs results mallocs')
    (hasks : (findSub (ascii "query?terms") uri).isSome = true)
    (hshort : ShortUrl uri) (hterms : ascii "terms" ∈ urlFields uri) :
    AnswersPage site uri mallocs := by
  have hfind : StringMap.find? (StringMap.assignAll URLParser.new.args (urlPairs uri))
      (ascii "terms") = StringMap.lastValue (urlPairs uri) (ascii "terms") :=
    StringMap.find?_ofPairs (urlPairs uri)
  cases hlast : StringMap.lastValue (urlPairs uri) (ascii "terms") with
  | none => exact absurd hterms (StringMap.lastValue_eq_none_iff.mp hlast)
  | some searchTerms =>
    obtain ⟨results, mallocs', hquery⟩ := hsite _ (queryWords_ne_nil searchTerms)
    have hrun : (processQueryRequest site uri).Returns mallocs
        (queryPage (resultsPart (trim (queryWords searchTerms).flatten) results)) mallocs' := by
      rw [processQueryRequest_terms hasks (parse_of_short hshort _) (hfind.trans hlast)]
      exact Run.Returns.bind hquery rfl
    exact ⟨_, mallocs', hrun, rfl⟩

end Pages

/-- Over a list of index files `ProcessQueryRequest` returns a page with code 200 exactly
if a URI that asks for results gives a value to the field `terms`, and is not too long to
be parsed. -/
theorem query_handling_total_iff (basedir : CppString) (fs : FileSystem)
    (sort : List QueryResult → List QueryResult) {files : List (List UInt8)} (hne : files ≠ [])
    (hfiles : ∀ file ∈ files, ValidIndexFile file) (uri : CppString) (mallocs : Schedule) :
    AnswersPage (indexSite basedir fs sort files) uri mallocs ↔
      ((findSub (ascii "query?terms") uri).isSome = true →
        ShortUrl uri ∧ ascii "terms" ∈ urlFields uri) := by
  by_cases hasks : (findSub (ascii "query?terms") uri).isSome = true
  · rw [forall_prop_of_true hasks]
    by_cases hshort : ShortUrl uri
    · by_cases hterms : ascii "terms" ∈ urlFields uri
      · refine iff_of_true ?_ ⟨hshort, hterms⟩
        refine answersPage_of_terms (fun queries hqueries => ?_) hasks hshort hterms
        obtain ⟨results, hresults⟩ := askIndices_total sort hne hfiles hqueries
        refine ⟨results, mallocs, ?_⟩
        simp only [indexSite, hresults]
        rfl
      · refine iff_of_false ?_ fun h => hterms h.2
        rintro ⟨page, mallocs', hreturns, -⟩
        rw [processQueryRequest_throws hasks hshort hterms] at hreturns
        cases hreturns
    · exact iff_of_false (not_answersPage_of_long hasks hshort) fun h => hshort h.1
  · exact iff_of_true (answersPage_bare hasks) fun h => absurd h hasks

/-- The file of the small index is one. -/
theorem validIndexFile_small : ValidIndexFile (fileImage smallIndex smallDocTable) := by
  obtain ⟨pos, hrun⟩ := writeIndex_returns fitsFormat_small (f := ⟨false, [], 0, [], []⟩) rfl rfl
  exact ⟨smallIndex, smallDocTable, fitsFormat_small, _, _, _, rfl, rfl, hrun, rfl⟩

/-- A site over it. -/
def smallSite : Site :=
  indexSite (ascii "/srv") ⟨fun _ => none, fun _ => ⟨false, false, 0, false, []⟩⟩ sortResults
    [fileImage smallIndex smallDocTable]

/-- A query for a word. -/
theorem query_handling_total_iff_word : AnswersPage smallSite (ascii "/query?terms=a") [] := by
  refine (query_handling_total_iff _ _ _ (List.cons_ne_nil _ _)
    (List.forall_mem_singleton.mpr validIndexFile_small) _ _).mpr fun _ => ⟨?_, by decide⟩
  refine ⟨by decide, by decide, ?_⟩
  have htexts : urlTexts (ascii "/query?terms=a") = [(ascii "terms", ascii "a")] := by decide
  rw [htexts]
  exact List.forall_mem_singleton.mpr ⟨by decide, by decide⟩

/-- A URI with the field but without a value for it. -/
theorem query_without_value_throws : ∃ uri : CppString, uri = ascii "/query?terms" ∧
    uri.take 8 ≠ ascii "/static/" ∧ ValidIndexFile (fileImage smallIndex smallDocTable) ∧
    processQueryRequest smallSite uri [] = .error .exception ∧ ¬ AnswersPage smallSite uri [] := by
  have hshort : ShortUrl (ascii "/query?terms") := by
    refine ⟨by decide, by decide, ?_⟩
    have htexts : urlTexts (ascii "/query?terms") = [] := by decide
    rw [htexts]
    exact fun _ hin => nomatch hin
  have hthrows : processQueryRequest smallSite (ascii "/query?terms") = Run.stop .exception :=
    processQueryRequest_throws (by decide) hshort (by decide)
  refine ⟨_, rfl, by decide, validIndexFile_small, by rw [hthrows]; rfl, ?_⟩
  rintro ⟨page, mallocs', hreturns, -⟩
  rw [hthrows] at hreturns
  cases hreturns

end MultithreadedWebServer
