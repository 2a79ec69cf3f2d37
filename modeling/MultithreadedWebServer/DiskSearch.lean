import MultithreadedWebServer.IndexRoundTrip
import MultithreadedWebServer.QueryProcessor

/-!
# Searching on disk and in memory

The headers that `ProcessQuery` combines are search results in another representation:
`CombineDocIDList` does to them what one further word does to the result list of
`MIProcessQuery`, up to the order. So both engines end with the same results for an
index, and `ProcessQuery` replaces the documents by their names.
-/

namespace MultithreadedWebServer

/-! ## Headers as search results -/

/-- What a header says about a document. -/
def DocidElementHeader.result (header : DocidElementHeader) : SearchResult :=
  ⟨header.docid, header.numPositions.toNat⟩

theorem mem_combineDocIDList {retList partialList : List DocidElementHeader}
    {header : DocidElementHeader} : header ∈ combineDocIDList retList partialList ↔
      ∃ p ∈ partialList, ∃ r ∈ retList, r.docid = p.docid ∧
        ⟨r.docid, r.numPositions + p.numPositions⟩ = header := by
  simp only [combineDocIDList, List.mem_flatMap, List.mem_map, List.mem_filter,
    decide_eq_true_eq, and_assoc]

/-- Combining keeps every document once. -/
theorem nodup_combineDocIDList {retList partialList : List DocidElementHeader}
    (hret : (retList.map DocidElementHeader.docid).Nodup)
    (hcur : (partialList.map DocidElementHeader.docid).Nodup) :
    ((combineDocIDList retList partialList).map DocidElementHeader.docid).Nodup := by
  rw [combineDocIDList, List.map_flatMap, List.nodup_flatMap]
  constructor
  · intro p _
    rw [List.map_map]
    exact hret.sublist (List.filter_sublist.map DocidElementHeader.docid)
  · have hne := List.pairwise_map.mp hcur
    refine hne.imp fun {p q} hpq => ?_
    intro docid hp hq
    simp only [List.map_map, List.mem_map, List.mem_filter, decide_eq_true_eq] at hp hq
    obtain ⟨r, ⟨-, hrp⟩, rfl⟩ := hp
    obtain ⟨r', ⟨-, hrq⟩, heq⟩ := hq
    exact hpq (hrp.symm.trans (heq.symm.trans hrq))

/-- Results with pairwise distinct documents are the same up to order if they have the
same elements. -/
theorem results_perm {xs ys : List SearchResult} (hx : (xs.map SearchResult.docid).Nodup)
    (hy : (ys.map SearchResult.docid).Nodup) (h : ∀ sr, sr ∈ xs ↔ sr ∈ ys) : xs.Perm ys :=
  (List.perm_ext_iff_of_nodup (.of_map _ hx) (.of_map _ hy)).mpr h

/-- `CombineDocIDList` does what a further word does. -/
theorem combineDocIDList_perm {retList partialList : List DocidElementHeader} {m : DocMap}
    (hret : (retList.map DocidElementHeader.docid).Nodup) (hcur : HeadersOf m partialList)
    (hm : ∀ docid list, m.lookup docid = some list → list.WF) :
    ((combineDocIDList retList partialList).map DocidElementHeader.result).Perm
      ((retList.map DocidElementHeader.result).filterMap (keepResult m)) := by
  have hdocids : ∀ headers : List DocidElementHeader,
      (headers.map DocidElementHeader.result).map SearchResult.docid =
        headers.map DocidElementHeader.docid := fun headers => List.map_map
  refine results_perm ?_ ?_ fun sr => ?_
  · rw [hdocids]
    exact nodup_combineDocIDList hret hcur.nodup
  · refine List.Nodup.sublist (docids_filterMap (fun sr sr' h => ?_) _) (by rwa [hdocids])
    obtain ⟨list, -, rfl⟩ := Option.map_eq_some_iff.mp h
    rfl
  · simp only [List.mem_map, List.mem_filterMap, mem_combineDocIDList]
    constructor
    · rintro ⟨_, ⟨p, hp, r, hr, hdocid, rfl⟩, rfl⟩
      obtain ⟨list, hlist, hnum⟩ := (hcur.mem p).mp hp
      refine ⟨r.result, ⟨r, hr, rfl⟩, ?_⟩
      have hlookup : m.lookup r.result.docid = some list := by
        rw [← hlist, ← hdocid]
        rfl
      rw [keepResult, hlookup, Option.map_some, numElementsInLinkedList,
        (hm _ _ hlist).numElements_eq, ← hnum]
      refine congrArg some ?_
      simp only [DocidElementHeader.result, UInt32.toNat_add]
      rfl
    · rintro ⟨_, ⟨r, hr, rfl⟩, hkeep⟩
      obtain ⟨list, hlookup, rfl⟩ := Option.map_eq_some_iff.mp hkeep
      have hwf := hm _ _ hlookup
      have hlen : (UInt32.ofNat list.toList.length).toNat = list.toList.length := by
        rw [← hwf.numElements_eq, hwf.count]
        exact UInt32.toNat_ofNat_of_lt' hwf.small
      have hp := (hcur.mem ⟨r.docid, UInt32.ofNat list.toList.length⟩).mpr
        ⟨list, hlookup, hlen⟩
      refine ⟨_, ⟨_, hp, r, hr, rfl, rfl⟩, ?_⟩
      rw [numElementsInLinkedList, hwf.numElements_eq]
      simp only [DocidElementHeader.result, UInt32.toNat_add, hlen]
      rfl

/-! ## Looking words up -/

/-- The word hashes tell the words of a query from those of an index. -/
def MemIndex.TellsApart (mi : MemIndex) (query : List CString) : Prop :=
  ∀ key set, mi.get? key = some set → ∀ word ∈ query, wordKey set.word = wordKey word →
    set.word = word

/-- Looking a word up finds a reader for what is filed under the word. -/
theorem FindsWords.lookup_word {reads : HashTableReader → DocMap → Prop} {itr : HashTableReader}
    {mi : MemIndex} (h : FindsWords reads itr mi) (hmi : mi.Wired) {word : CString}
    (hapart : mi.TellsApart [word]) :
    (mi.postings (wordKey word) = ∅ ∧ lookupWord itr word.bytes = .ok none) ∨
    ∃ set docs, mi.get? (wordKey word) = some set ∧
      lookupWord itr word.bytes = .ok (some docs) ∧ reads docs (mi.postings (wordKey word)) := by
  rcases hget : mi.get? (wordKey word) with _ | set
  · refine .inl ⟨MemIndex.postings_of_none hget, h.missing _ fun key set hset hword => ?_⟩
    obtain rfl : set.word = word := CString.ext hword
    rw [← hmi.key _ _ hset, hset] at hget
    cases hget
  · obtain rfl := hapart _ _ hget word List.mem_cons_self (hmi.key _ _ hget).symm
    obtain ⟨docs, hlookup, hreads⟩ := h.found _ _ hget
    rw [MemIndex.postings_of_some hget]
    exact .inr ⟨set, docs, rfl, hlookup, hreads⟩

/-- A reader for the documents of a word, of which there are not too many for an `int`. -/
def ListsFew (r : HashTableReader) (postings : DocMap) : Prop :=
  ListsPostings r postings ∧ postings.keys.card < 2 ^ 31

/-! ## One index -/

/-- `MIProcessQuery` answers with a list, or with `NULL`. -/
def Answers (mi : MemIndex) (query : List CString) (res : Option (LinkedList SearchResult)) :
    Prop :=
  Yields (miProcessQuery mi query) res ∧ ∀ list, res = some list → list.WF

/-- The results of `MIProcessQuery`: none for `NULL`. -/
def searchResults (res : Option (LinkedList SearchResult)) : List SearchResult :=
  match res with
  | none => []
  | some list => list.toList

/-- A result with the name that the document table has for the document. -/
def nameResult (dt : DocTable) (sr : SearchResult) : Option QueryResult :=
  ((dtGetDocidTable dt).toFinmap.lookup sr.docid).map fun name => ⟨name.bytes, sr.rank⟩

/-- `AddQueryResult` names the results. -/
theorem addQueryResult_spec {dtr : HashTableReader} {dt : DocTable} (h : ReadsDocs dtr dt) :
    ∀ headers : List DocidElementHeader, addQueryResult dtr headers =
      .ok ((headers.map DocidElementHeader.result).filterMap (nameResult dt))
  | [] => rfl
  | header :: headers => by
    rw [addQueryResult, h header.docid, ok_bind, addQueryResult_spec h headers, ok_bind,
      List.map_cons]
    rcases hname : (dtGetDocidTable dt).toFinmap.lookup header.docid with _ | name
    · have hskip : nameResult dt header.result = none := by
        rw [nameResult, DocidElementHeader.result, hname]
        rfl
      rw [List.filterMap_cons_none hskip]
      rfl
    · have hkeep : nameResult dt header.result =
          some ⟨name.bytes, header.numPositions.toNat⟩ := by
        rw [nameResult, DocidElementHeader.result, hname]
        rfl
      rw [List.filterMap_cons_some hkeep]
      rfl

section Index

variable {dtr itr : HashTableReader} {mi : MemIndex} {dt : DocTable}

theorem MemIndex.TellsApart.word {query : List CString} (h : mi.TellsApart query) {word : CString}
    (hword : word ∈ query) : mi.TellsApart [word] := fun key set hget w hw hkey => by
  obtain rfl := List.mem_singleton.mp hw
  exact h key set hget _ hword hkey

/-- The loop of `ProcessQuery` over the further words. -/
theorem intersectDocIDs_spec (h : FindsWords ListsFew itr mi) (hmi : mi.Wired) :
    ∀ (words : List CString) {headers : List DocidElementHeader}, mi.TellsApart words →
      (headers.map DocidElementHeader.docid).Nodup →
      ∃ final, intersectDocIDs itr (words.map CString.bytes) headers = .ok final ∧
        (final.map DocidElementHeader.result).Perm
          ((headers.map DocidElementHeader.result).filterMap (keepAll mi words))
  | [], headers, _, _ => by
    refine ⟨headers, rfl, ?_⟩
    have hall : (headers.map DocidElementHeader.result).filterMap (keepAll mi []) =
        headers.map DocidElementHeader.result := by
      simp [keepAll]
    rw [hall]
  | word :: words, headers, hapart, hnodup => by
    have hsplit : (headers.map DocidElementHeader.result).filterMap (keepAll mi (word :: words)) =
        ((headers.map DocidElementHeader.result).filterMap
          (keepResult (mi.postings (wordKey word)))).filterMap (keepAll mi words) := by
      rw [List.filterMap_filterMap]
      rfl
    rw [hsplit, List.map_cons, intersectDocIDs]
    rcases h.lookup_word hmi (hapart.word List.mem_cons_self) with
      ⟨hempty, hlookup⟩ | ⟨-, docs, -, hlookup, ⟨cur, hlist, hcur⟩, -⟩
    · have hnil : (headers.map DocidElementHeader.result).filterMap
          (keepResult (mi.postings (wordKey word))) = [] := by
        rw [hempty]
        exact List.filterMap_eq_nil_iff.mpr fun sr _ => rfl
      rw [hlookup, hnil]
      exact ⟨[], rfl, .nil⟩
    · obtain ⟨final, hfinal, hperm⟩ := intersectDocIDs_spec h hmi words
        (fun key set hget w hw => hapart key set hget w (List.mem_cons_of_mem _ hw))
        (nodup_combineDocIDList hnodup hcur.nodup)
      refine ⟨final, ?_, hperm.trans (.filterMap _ (combineDocIDList_perm hnodup hcur
        fun docid list hl => (hmi.posting_wf hl).1))⟩
      rw [hlookup, ok_bind]
      dsimp only
      rw [hlist, ok_bind, hfinal]

/-- The headers of the first word are its results. -/
theorem HeadersOf.firstResults_perm {m : DocMap} {headers : List DocidElementHeader}
    {results : List SearchResult} (h : HeadersOf m headers) (hfirst : FirstResults m results)
    (hm : ∀ docid list, m.lookup docid = some list → list.WF) :
    (headers.map DocidElementHeader.result).Perm results := by
  refine results_perm (by rw [List.map_map]; exact h.nodup) hfirst.nodup fun sr => ?_
  rw [hfirst.mem, List.mem_map]
  constructor
  · rintro ⟨header, hheader, rfl⟩
    obtain ⟨list, hl, hnum⟩ := (h.mem header).mp hheader
    refine ⟨list, hl, ?_⟩
    rw [numElementsInLinkedList, (hm _ _ hl).numElements_eq, ← hnum]
    rfl
  · rintro ⟨list, hl, hrank⟩
    have hwf := hm _ _ hl
    have hlen : (UInt32.ofNat list.toList.length).toNat = list.toList.length := by
      rw [← hwf.numElements_eq, hwf.count]
      exact UInt32.toNat_ofNat_of_lt' hwf.small
    refine ⟨⟨sr.docid, UInt32.ofNat list.toList.length⟩, (h.mem _).mpr ⟨list, hl, hlen⟩, ?_⟩
    rw [numElementsInLinkedList, hwf.numElements_eq] at hrank
    rw [DocidElementHeader.result, hlen, ← hrank]

/-- For a word that the index has, `ProcessQuery` adds the named results that the further
words leave of its documents. -/
theorem processIndex_found (h : FindsWords ListsFew itr mi) (hdocs : ReadsDocs dtr dt)
    (hmi : mi.Wired) {word : CString} {words : List CString} (hapart : mi.TellsApart words)
    {docs : HashTableReader} (hlookup : lookupWord itr word.bytes = .ok (some docs))
    {headers : List DocidElementHeader} (hlist : getDocIDList docs = .ok headers)
    (hnodup : (headers.map DocidElementHeader.docid).Nodup) :
    ∃ final : List DocidElementHeader, processIndex dtr itr word.bytes (words.map CString.bytes) =
        .ok ((final.map DocidElementHeader.result).filterMap (nameResult dt)) ∧
      (final.map DocidElementHeader.result).Perm
        ((headers.map DocidElementHeader.result).filterMap (keepAll mi words)) := by
  obtain ⟨final, hfinal, hperm⟩ := intersectDocIDs_spec h hmi words hapart hnodup
  refine ⟨final, ?_, hperm⟩
  rw [processIndex, hlookup, ok_bind]
  dsimp only
  rw [hlist, ok_bind]
  by_cases hwords : words = []
  · subst hwords
    obtain rfl : headers = final := Except.ok.inj hfinal
    rw [List.map_nil, if_pos rfl, addQueryResult_spec hdocs]
  · rw [if_neg (fun hnil => hwords (List.map_eq_nil_iff.mp hnil)), hfinal, ok_bind]
    by_cases hempty : final.length = 0
    · rw [if_neg (not_not.mpr hempty), List.length_eq_zero_iff.mp hempty]
      rfl
    · rw [if_pos hempty, addQueryResult_spec hdocs]

/-- For an index `ProcessQuery` adds the named results of `MIProcessQuery`. -/
theorem processIndex_spec (h : FindsWords ListsFew itr mi) (hdocs : ReadsDocs dtr dt)
    (hmi : mi.WF) (word : CString) (words : List CString)
    (hapart : mi.TellsApart (word :: words)) :
    ∃ res results, Answers mi (word :: words) res ∧
      processIndex dtr itr word.bytes (words.map CString.bytes) = .ok results ∧
      results.Perm ((searchResults res).filterMap (nameResult dt)) := by
  rcases h.lookup_word hmi.toWired (hapart.word List.mem_cons_self) with
    ⟨hempty, hlookup⟩ | ⟨set, docs, hget, hlookup, ⟨headers, hlist, hheaders⟩, hfew⟩
  · rcases miProcessQuery_first hmi word words with ⟨-, hrun⟩ | ⟨first, -, hne, hfirst, -⟩
    · refine ⟨none, [], ⟨hrun, nofun⟩, ?_, .nil⟩
      rw [processIndex, hlookup]
      rfl
    · obtain ⟨sr, hsr⟩ := List.exists_mem_of_ne_nil _ hne
      obtain ⟨list, hl, -⟩ := (hfirst.mem sr).mp hsr
      rw [hempty] at hl
      cases hl
  · rcases miProcessQuery_first hmi word words with
      ⟨hempty, -⟩ | ⟨first, hwf, hne, hfirst, hrun⟩
    · exact absurd hempty (hmi.postings_ne hget)
    · obtain ⟨final, hfinal, hperm⟩ := processIndex_found h hdocs hmi.toWired
        (fun key set hget w hw => hapart key set hget w (List.mem_cons_of_mem _ hw)) hlookup hlist
        hheaders.nodup
      have hsame := hheaders.firstResults_perm hfirst
        fun docid list hl => (hmi.toWired.posting_wf hl).1
      replace hperm := hperm.trans (hsame.filterMap (keepAll mi words))
      rw [← hfirst.length] at hfew
      rcases intersectWords_yields hmi.toWired words hwf hne hfew with
        ⟨hnil, hrun'⟩ | ⟨-, list, hrun', hwf', hperm', -⟩
      · rw [hnil] at hperm
        exact ⟨none, _, ⟨hrun.trans hrun', nofun⟩, hfinal, hperm.filterMap _⟩
      · exact ⟨some list, _, ⟨hrun.trans hrun', fun _ h => Option.some.inj h ▸ hwf'⟩, hfinal,
          (hperm.trans hperm'.symm).filterMap (nameResult dt)⟩

end Index

/-! ## All indices -/

/-- The file that `WriteIndex` leaves when no call of the C library fails. -/
def Written (mi : MemIndex) (dt : DocTable) (file : List UInt8) : Prop :=
  ∃ f size f', f.verdicts = [] ∧ f.mallocs = [] ∧ (writeIndex mi dt).Returns f size f' ∧
    f'.content = file

theorem Written.eq_fileImage {mi : MemIndex} {dt : DocTable} {file : List UInt8}
    (h : Written mi dt file) (hfits : FitsFormat mi dt) : file = fileImage mi dt := by
  obtain ⟨f, size, f', hio, hmallocs, hrun, rfl⟩ := h
  obtain ⟨pos, hrun'⟩ := writeIndex_returns hfits hio hmallocs
  rw [(hrun.unique hrun').2]
  rfl

/-- A table in a file has fewer than `2 ^ 31` entries. -/
theorem listsFew_of_table {file : List UInt8} {offset : ℕ} {t : HashTable (LinkedList UInt64)}
    (h : t.WF) (hat : TableAt postingElem file offset t.chains)
    (hlists : ∀ kv ∈ t.entries, kv.value.WF) :
    ListsFew (readerAt file offset t.chains) t.toFinmap := by
  refine ⟨listsPostings_of_table h hat hlists, ?_⟩
  have hfits := hat.fits
  have hle := length_le_bucketsImage postingElem (offset + 4 + 8 * t.chains.length) t.chains
  rw [length_tableImage] at hfits
  rw [HashTable.toFinmap, card_asFinmap h.distinct, t.entries_eq_flatten]
  omega

/-- The constructor of `QueryProcessor` opens what `WriteIndex` has written, and then the
loop over the indices finds the named results of `MIProcessQuery` in each. -/
theorem processIndices_spec (word : CString) (words : List CString) (validate : Bool)
    {indices : List (MemIndex × DocTable)} {files : List (List UInt8)}
    (hfiles : List.Forall₂ (fun index file => Written index.1 index.2 file) indices files)
    (hwf : ∀ index ∈ indices, index.1.WF ∧ FitsFormat index.1 index.2)
    (hapart : ∀ index ∈ indices, index.1.TellsApart (word :: words)) :
    ∃ qp answers results, openIndices validate files = .ok qp ∧
      List.Forall₂ (fun index res => Answers index.1 (word :: words) res) indices answers ∧
      processIndices word.bytes (words.map CString.bytes) qp = .ok results ∧
      results.Perm ((indices.zip answers).flatMap fun (index, res) =>
        (searchResults res).filterMap (nameResult index.2)) := by
  induction hfiles with
  | nil => exact ⟨[], [], [], rfl, .nil, rfl, .nil⟩
  | @cons index file indices files hfile _ ih =>
    obtain ⟨mi, dt⟩ := index
    obtain ⟨⟨hmi, hfits⟩, hwf⟩ := List.forall_mem_cons.mp hwf
    obtain ⟨hword, hapart⟩ := List.forall_mem_cons.mp hapart
    obtain ⟨qp, answers, results, hopen, hanswers, hrun, hperm⟩ := ih hwf hapart
    obtain ⟨fir, hfir, hdtr, hitr⟩ := readers_fileImage hfits validate
    have hfinds : FindsWords ListsFew _ mi :=
      findsWords_fileImage hfits fun key set offset hget hat =>
      listsFew_of_table (hmi.docIDs key set hget) hat
        fun kv hkv => (hmi.lists key set hget kv hkv).1
    obtain ⟨res, results₁, hanswer, hindex, hperm₁⟩ :=
      processIndex_spec hfinds (readsDocs_fileImage hfits) hmi word words hword
    have hopen' : openIndices validate (file :: files) =
        .ok ((readerAt (fileImage mi dt) 16 (dtGetDocidTable dt).chains,
          readerAt (fileImage mi dt) (16 + (docTableImage dt).length) mi.table.chains) :: qp) := by
      rw [hfile.eq_fileImage hfits, openIndices, hfir, ok_bind, hdtr, ok_bind, hitr, ok_bind,
        hopen, ok_bind]
      rfl
    refine ⟨_, res :: answers, results₁ ++ results, hopen', .cons hanswer hanswers, ?_, ?_⟩
    · rw [processIndices, hindex, ok_bind, hrun, ok_bind]
      rfl
    · rw [List.zip_cons_cons, List.flatMap_cons]
      exact hperm₁.append hperm

/-- `ProcessQuery` over the files of some indices returns the results of `MIProcessQuery`
for each, named by its document table, best rank first. -/
theorem disk_search_agrees (sort : List QueryResult → List QueryResult)
    (hsort : ∀ results, (sort results).Perm results ∧
      (sort results).Pairwise fun x y => y.less x = false)
    (indices : List (MemIndex × DocTable)) (hne : indices ≠ []) (files : List (List UInt8))
    (hfiles : List.Forall₂ (fun index file => Written index.1 index.2 file) indices files)
    (hwf : ∀ index ∈ indices, index.1.WF ∧ FitsFormat index.1 index.2) (query : List CString)
    (hquery : query ≠ []) (hapart : ∀ index ∈ indices, index.1.TellsApart query)
    (validate : Bool) :
    ∃ qp answers results, newQueryProcessor files validate = .ok qp ∧
      processQuery sort qp (query.map CString.bytes) = .ok results ∧
      List.Forall₂ (fun index res => Answers index.1 query res) indices answers ∧
      results.Perm ((indices.zip answers).flatMap fun (index, res) =>
        (searchResults res).filterMap (nameResult index.2)) ∧
      results.Pairwise fun x y => y.rank ≤ x.rank := by
  obtain ⟨word, words, rfl⟩ := List.exists_cons_of_ne_nil hquery
  obtain ⟨qp, answers, results, hopen, hanswers, hrun, hperm⟩ :=
    processIndices_spec word words validate hfiles hwf hapart
  obtain ⟨hsame, hsorted⟩ := hsort results
  refine ⟨qp, answers, sort results, ?_, ?_, hanswers, hsame.trans hperm,
    hsorted.imp fun {x y} hxy => ?_⟩
  · rw [newQueryProcessor, if_neg, hopen]
    rintro rfl
    exact hne (List.forall₂_nil_right_iff.mp hfiles)
  · rw [List.map_cons, processQuery, hrun, ok_bind]
    rfl
  · rw [QueryResult.less, decide_eq_false_iff_not] at hxy
    exact Nat.not_lt.mp hxy

/-- A sorting function. -/
def sortResults (results : List QueryResult) : List QueryResult :=
  results.mergeSort fun x y => !y.less x

theorem sortResults_spec (results : List QueryResult) : (sortResults results).Perm results ∧
    (sortResults results).Pairwise fun x y => y.less x = false := by
  refine ⟨List.mergeSort_perm _ _, ?_⟩
  have hsorted : (sortResults results).Pairwise fun x y => (!y.less x) = true :=
    List.pairwise_mergeSort (fun x y z hxy hyz => by
      simp only [QueryResult.less, Bool.not_eq_true', decide_eq_false_iff_not] at *
      omega) (fun x y => by
      simp only [QueryResult.less, Bool.or_eq_true, Bool.not_eq_true', decide_eq_false_iff_not]
      omega) results
  exact hsorted.imp fun {x y} hxy => by simpa using hxy

/-- Searching two files for two words: both are in both documents of the first file, and only one
is in the second. -/
theorem disk_search_agrees_letters :
    ∃ qp answers results,
      newQueryProcessor [fileImage lettersIndex lettersDocTable, fileImage smallIndex smallDocTable]
        true = .ok qp ∧
      processQuery sortResults qp ([wordA, wordC].map CString.bytes) = .ok results ∧
      List.Forall₂ (fun index res => Answers index.1 [wordA, wordC] res)
        [(lettersIndex, lettersDocTable), (smallIndex, smallDocTable)] answers ∧
      results.Perm (([(lettersIndex, lettersDocTable), (smallIndex, smallDocTable)].zip
        answers).flatMap fun (index, res) =>
          (searchResults res).filterMap (nameResult index.2)) ∧
      results.Pairwise fun x y => y.rank ≤ x.rank := by
  obtain ⟨pos, hrun⟩ := writeIndex_returns fitsFormat_letters (f := ⟨false, [], 0, [], []⟩) rfl rfl
  obtain ⟨pos', hrun'⟩ := writeIndex_returns fitsFormat_small (f := ⟨false, [], 0, [], []⟩) rfl rfl
  have hfiles : List.Forall₂ (fun index file => Written index.1 index.2 file)
      [(lettersIndex, lettersDocTable), (smallIndex, smallDocTable)]
      [fileImage lettersIndex lettersDocTable, fileImage smallIndex smallDocTable] :=
    .cons ⟨_, _, _, rfl, rfl, hrun, rfl⟩ (.cons ⟨_, _, _, rfl, rfl, hrun', rfl⟩ .nil)
  refine disk_search_agrees sortResults sortResults_spec _ (List.cons_ne_nil _ _) _ hfiles
    (fun index hindex => ?_) [wordA, wordC] (List.cons_ne_nil _ _) (fun index hindex => ?_) true
  · rcases List.mem_pair.mp hindex with rfl | rfl
    · exact ⟨wf_lettersIndex, fitsFormat_letters⟩
    · exact ⟨wf_smallIndex, fitsFormat_small⟩
  · intro key set hget word hword hkey
    have hmem : word ∈ [wordA, wordB, wordC] := by
      rcases List.mem_pair.mp hword with rfl | rfl <;> decide
    rcases List.mem_pair.mp hindex with rfl | rfl
    · exact letters_apart hget hmem hkey
    · obtain ⟨rfl, rfl⟩ := get?_smallIndex hget
      exact hashesApart_abc wordA (by decide) word hmem hkey

end MultithreadedWebServer
