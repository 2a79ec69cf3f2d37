import MultithreadedWebServer.DirectoryCrawls
import MultithreadedWebServer.IndexedText
import MultithreadedWebServer.QueryTotality

/-!
# From a directory to the results of a search

`buildfileindex` crawls a directory and writes the index, and a `QueryProcessor` searches the
files that come out. `SourceTree.hits` says what a search should find, in terms of the texts in
the directory alone. Each layer below has its own theorem; here they meet.
-/

namespace MultithreadedWebServer

/-! ## buildfileindex -/

/-- `main` of `buildfileindex`, for the arguments `rootdir` and the file `f`: whether it exits
with success. The tables are what the two pointers hold before `CrawlFileTree` sets them. -/
def buildFileIndex (printFreed : Except Stop PUnit) (tables : DocTable × MemIndex)
    (rootdir : CString) (root : Inode) (f : IndexFile) : Except Stop (Bool × IndexFile) :=
  crawlFileTree (indexing printFreed) rootdir root (f.mallocs, tables) >>=
    fun (crawled, mallocs, dt, idx) =>
      if crawled then
        writeIndex idx dt { f with mallocs := mallocs } >>= fun (idxlen, f) =>
          .ok (decide (idxlen ≠ 0), f)
      else
        -- `Usage`
        .error .exitFailure

/-! ## What a search should find -/

/-- The result of a query for a file with a text: nothing unless every word of the query occurs. -/
def hit (query : List CppString) (path : CString) (text : List UInt8) : Option QueryResult :=
  if ∀ word ∈ query, 0 < occurrences text word then
    some ⟨path.bytes, u32 (query.map (occurrences text)).sum⟩
  else
    none

/-- A directory, and the texts of the files in it. -/
structure SourceTree where
  /-- its path -/
  rootdir : CString
  /-- what `readdir` finds -/
  entries : Listing
  /-- the text of a file -/
  text : HandleCall → List UInt8

/-- The files of a tree. -/
def SourceTree.files (t : SourceTree) : List HandleCall := readableFiles t.rootdir t.entries

/-- The words of the texts of a tree. -/
def SourceTree.words (t : SourceTree) : List CString :=
  t.files.flatMap fun f => textWords (t.text f)

/-- What a search of a tree should find. -/
def SourceTree.hits (t : SourceTree) (query : List CppString) : List QueryResult :=
  t.files.filterMap fun f => hit query f.1 (t.text f)

/-- A tree that the tables and the file format have room for. -/
structure SourceTree.Indexable (t : SourceTree) : Prop where
  /-- every directory can be opened -/
  opens : reachesClosed t.entries = false
  /-- the texts are those of the files -/
  texts : ∀ f ∈ t.files, Supplies f.2 (t.text f)
  /-- a path names one file -/
  paths : (t.files.map Prod.fst).Nodup
  /-- the hashes tell the paths apart -/
  names : HashesApart (t.files.map Prod.fst)
  /-- and the words -/
  apart : HashesApart t.words
  /-- the counters of the tables are wide enough -/
  tables : FitsTables t.files
  /-- a path has a length in 16 bits -/
  shortPaths : ∀ f ∈ t.files, f.1.bytes.length < 2 ^ 16
  /-- and a word -/
  shortWords : ∀ word ∈ t.words, word.bytes.length < 2 ^ 16
  /-- the size of the index file -/
  size : ∀ dt mi, Yields (crawl t.files) (dt, mi) → (fileImage mi dt).length < 2 ^ 32

/-! ## Crawling -/

section Crawl

variable {dirpath : CString} {l : Listing}

/-- A path has a character at least. -/
theorem newfilePath_pos (dirpath name : CString) : 0 < (newfilePath dirpath name).bytes.length := by
  rw [newfilePath]
  split
  · rename_i hlast
    have hmem := List.length_pos_of_mem (List.mem_of_getLast? hlast)
    rw [List.length_append]
    omega
  · rw [List.length_append, List.length_cons]
    omega

theorem readableFiles_pos : ∀ (dirpath : CString) (l : Listing),
    ∀ f ∈ readableFiles dirpath l, 0 < f.1.bytes.length
  | _, .eof, f, hf => absurd hf List.not_mem_nil
  | dirpath, .next name inode rest, f, hf => by
    have ih := readableFiles_pos dirpath rest f
    match inode with
    | .regular file =>
      rw [readableFiles] at hf
      split at hf
      · exact ih hf
      · rcases List.mem_cons.mp hf with rfl | hf
        · exact newfilePath_pos dirpath name
        · exact ih hf
    | .directory false entries =>
      rw [readableFiles] at hf
      split at hf
      · exact ih hf
      · exact ih hf
    | .directory true entries =>
      rw [readableFiles] at hf
      split at hf
      · exact ih hf
      · rcases List.mem_append.mp hf with hf | hf
        · exact readableFiles_pos _ entries f hf
        · exact ih hf
    | .other =>
      rw [readableFiles] at hf
      split at hf
      · exact ih hf
      · exact ih hf

/-- Where every directory can be opened, `HandleDir` handles the readable files, in order. -/
theorem dirActions_of_open : ∀ (dirpath : CString) (l : Listing), reachesClosed l = false →
    dirActions dirpath l = (readableFiles dirpath l).map DirAction.handle
  | _, .eof, _ => rfl
  | dirpath, .next name inode rest, h => by
    have ih := dirActions_of_open dirpath rest
    match inode with
    | .regular file =>
      rw [reachesClosed, ite_self] at h
      rw [dirActions, readableFiles, ih h]
      split
      · rfl
      · rfl
    | .directory false entries =>
      rw [reachesClosed] at h
      rw [dirActions, readableFiles]
      by_cases hdots : isDots name = true
      · rw [if_pos hdots] at h
        rw [if_pos hdots, if_pos hdots, ih h]
      · rw [if_neg hdots] at h
        cases h
    | .directory true entries =>
      rw [reachesClosed] at h
      rw [dirActions, readableFiles]
      by_cases hdots : isDots name = true
      · rw [if_pos hdots] at h
        rw [if_pos hdots, if_pos hdots, ih h]
      · rw [if_neg hdots] at h
        obtain ⟨hentries, hrest⟩ := Bool.or_eq_false_iff.mp h
        rw [if_neg hdots, if_neg hdots, List.map_append, ih hrest,
          dirActions_of_open _ entries hentries]
    | .other =>
      rw [reachesClosed, ite_self] at h
      rw [dirActions, readableFiles, ite_self, ite_self]
      exact ih h

theorem callsOf_map_handle (survives : Bool) : ∀ calls : List HandleCall,
    callsOf survives (calls.map DirAction.handle) = calls
  | [] => rfl
  | call :: calls => congrArg (call :: ·) (callsOf_map_handle survives calls)

/-- No message is printed then, so it does not matter what becomes of one. -/
theorem crawlFileTree_of_open (printFreed : Except Stop PUnit) (rootdir : CString)
    {entries : Listing} (h : reachesClosed entries = false)
    (s : Schedule × DocTable × MemIndex) :
    crawlFileTree (indexing printFreed) rootdir (.directory true entries) s =
      (crawl (readableFiles rootdir entries) s.1).map fun r => (true, r.2, r.1) := by
  have := Run.lawful (Schedule × DocTable × MemIndex)
  have hact : ∀ calls : List HandleCall,
      (calls.map DirAction.handle).forM (indexing printFreed).act =
        (calls.map DirAction.handle).forM (indexing (.ok ⟨⟩)).act := by
    intro calls
    rw [List.forM_eq_forM, List.forM_map, List.forM_map]
    rfl
  have hfiles : handledFiles (.ok ⟨⟩) rootdir (.directory true entries) =
      readableFiles rootdir entries := by
    rw [handledFiles_dirActions, dirActions_of_open rootdir entries h, callsOf_map_handle]
  rw [← hfiles, ← crawlFileTree_crawl, crawlFileTree_dirActions (indexing_sound printFreed),
    crawlFileTree_dirActions (indexing_sound (.ok ⟨⟩)), dirActions_of_open rootdir entries h, hact]
  rfl

end Crawl

/-! ## The postings of a tree -/

section Postings

variable {t : SourceTree} {dt : DocTable} {mi : MemIndex} {adds : List Posting}

theorem SourceTree.mem_words {word : CString} :
    word ∈ t.words ↔ ∃ f ∈ t.files, word ∈ textWords (t.text f) := List.mem_flatMap

theorem SourceTree.Indexable.apart_text (h : t.Indexable) {f : HandleCall} (hf : f ∈ t.files) :
    HashesApart (textWords (t.text f)) := fun w hw w' hw' =>
  h.apart w (SourceTree.mem_words.mpr ⟨f, hf, hw⟩) w' (SourceTree.mem_words.mpr ⟨f, hf, hw'⟩)

/-- The table of a file counts the words of its text. -/
theorem SourceTree.Indexable.counts (h : t.Indexable) {f : HandleCall} (hf : f ∈ t.files)
    {tab : WordHT} (htab : wordTable f.2 = some tab) : Counts tab (t.text f) := by
  have hrecorded := wordTable_supplies (h.texts f hf)
  rw [htab] at hrecorded
  exact hrecorded.counts (h.apart_text hf)

/-- A file with a word has a table. -/
theorem SourceTree.Indexable.table_of_word (h : t.Indexable) {f : HandleCall} (hf : f ∈ t.files)
    {word : CString} (hword : word ∈ textWords (t.text f)) : ∃ tab, wordTable f.2 = some tab := by
  cases htab : wordTable f.2 with
  | some tab => exact ⟨tab, rfl⟩
  | none =>
    have hnil := wordTable_supplies (h.texts f hf)
    rw [htab] at hnil
    have hnone : indexedRuns (t.text f) = [] := hnil
    rw [textWords, hnone] at hword
    cases hword

/-- A numbered file, with its text. -/
structure SourceTree.Numbered (t : SourceTree) (i : ℕ) (f : HandleCall) (tab : WordHT) : Prop where
  /-- it is in the tree -/
  mem : f ∈ t.files
  /-- with this table -/
  table : wordTable f.2 = some tab
  /-- under this number -/
  place : (parsedFiles t.files)[i]? = some (f.1, tab)

theorem SourceTree.exists_numbered {i : ℕ} {p : CString × WordHT}
    (h : (parsedFiles t.files)[i]? = some p) : ∃ file, t.Numbered i (p.1, file) p.2 := by
  obtain ⟨file, hmem, htab⟩ := mem_parsedFiles.mp (List.mem_of_getElem? h)
  exact ⟨file, hmem, htab, h⟩

section Numbered

variable {i : ℕ} {f : HandleCall} {tab : WordHT}

/-- A word has a posting in a document exactly if it is in its text. -/
theorem SourceTree.Numbered.posting_iff (hf : t.Numbered i f tab) (h : t.Indexable)
    (hc : Crawled t.files dt mi adds) {word : CString} :
    (∃ p ∈ adds, p.word = word ∧ p.docid = docIdOf i) ↔ word ∈ textWords (t.text f) := by
  have hdocs := h.tables.docs
  rw [(h.counts hf.mem hf.table).filed]
  constructor
  · rintro ⟨p, hp, hword, hdocid⟩
    obtain ⟨j, g, hg, hsame, hmaps⟩ := (hc.postings _ _ _).mp ⟨p, hp, hword, hdocid, rfl⟩
    have hi := (List.getElem?_eq_some_iff.mp hf.place).1
    have hj := (List.getElem?_eq_some_iff.mp hg).1
    obtain rfl := docIdOf_inj (by omega) (by omega) hsame
    obtain rfl := Option.some.inj (hf.place.symm.trans hg)
    exact ⟨_, hmaps⟩
  · rintro ⟨positions, hmaps⟩
    obtain ⟨p, hp, hword, hdocid, -⟩ := (hc.postings word (docIdOf i) positions).mpr
      ⟨i, _, hf.place, rfl, hmaps⟩
    exact ⟨p, hp, hword, hdocid⟩

/-- The postings of a document count the words of its text. -/
theorem SourceTree.Numbered.hitsIn_eq (hf : t.Numbered i f tab) (h : t.Indexable)
    (hc : Crawled t.files dt mi adds) (word : CString) :
    hitsIn adds word (docIdOf i) = occurrences (t.text f) word.bytes := by
  have hdocs := h.tables.docs
  rw [hitsIn]
  rcases hfind : adds.find? fun p => p.word = word ∧ p.docid = docIdOf i with _ | p
  · rw [hfind]
    refine (Nat.eq_zero_of_not_pos fun hpos => ?_).symm
    obtain ⟨p, hp, hword⟩ := (hf.posting_iff h hc).mpr (occurrences_pos_iff.mp hpos)
    have hnot := List.find?_eq_none.mp hfind p hp
    exact hnot (decide_eq_true hword)
  · rw [hfind]
    have hp := List.mem_of_find?_eq_some hfind
    obtain ⟨hword, hdocid⟩ : p.word = word ∧ p.docid = docIdOf i := by
      simpa using List.find?_some hfind
    obtain ⟨j, g, hg, hsame, hmaps⟩ := (hc.postings _ _ _).mp ⟨p, hp, hword, hdocid, rfl⟩
    have hi := (List.getElem?_eq_some_iff.mp hf.place).1
    have hj := (List.getElem?_eq_some_iff.mp hg).1
    obtain rfl := docIdOf_inj (by omega) (by omega) hsame
    obtain rfl := Option.some.inj (hf.place.symm.trans hg)
    exact (h.counts hf.mem hf.table).length word _ hmaps

/-- What a query says of a document is what it says of its text. -/
theorem SourceTree.Numbered.hit_eq (hf : t.Numbered i f tab) (h : t.Indexable)
    (hc : Crawled t.files dt mi adds) (query : List CString) (result : QueryResult) :
    hit (query.map CString.bytes) f.1 (t.text f) = some result ↔
      HasAll adds query (docIdOf i) ∧
        result = ⟨f.1.bytes, u32 (rankIn adds query (docIdOf i))⟩ := by
  have hall : (∀ word ∈ query.map CString.bytes, 0 < occurrences (t.text f) word) ↔
      HasAll adds query (docIdOf i) := by
    rw [List.forall_mem_map]
    exact forall₂_congr fun word _ => occurrences_pos_iff.trans (hf.posting_iff h hc).symm
  have hsum : (query.map CString.bytes).map (occurrences (t.text f)) =
      query.map (hitsIn adds · (docIdOf i)) := by
    rw [List.map_map]
    exact List.map_congr_left fun word _ => (hf.hitsIn_eq h hc word).symm
  rw [hit, rankIn, hsum]
  by_cases hq : HasAll adds query (docIdOf i)
  · rw [if_pos (hall.mpr hq), Option.some.injEq, and_iff_right hq]
    exact eq_comm
  · rw [if_neg (fun hwords => hq (hall.mp hwords))]
    exact iff_of_false (fun heq => Option.some_ne_none _ heq.symm) fun hq' => hq hq'.1

end Numbered

/-- The words of the index are those of the texts. -/
theorem SourceTree.Indexable.word_iff (h : t.Indexable) (hc : Crawled t.files dt mi adds)
    {word : CString} : word ∈ t.words ↔ ∃ p ∈ adds, p.word = word := by
  constructor
  · intro hword
    obtain ⟨f, hf, hword⟩ := SourceTree.mem_words.mp hword
    obtain ⟨tab, htab⟩ := h.table_of_word hf hword
    obtain ⟨i, hi⟩ := List.mem_iff_getElem?.mp (mem_parsedFiles (f := (f.1, tab)).mpr
      ⟨f.2, hf, htab⟩)
    have hnumbered : t.Numbered i f tab := ⟨hf, htab, hi⟩
    obtain ⟨p, hp, hpword, -⟩ := (hnumbered.posting_iff h hc).mpr hword
    exact ⟨p, hp, hpword⟩
  · rintro ⟨p, hp, rfl⟩
    obtain ⟨i, g, hg, hdocid, -⟩ := (hc.postings _ _ _).mp ⟨p, hp, rfl, rfl, rfl⟩
    obtain ⟨file, hnumbered⟩ := SourceTree.exists_numbered hg
    exact SourceTree.mem_words.mpr ⟨_, hnumbered.mem, (hnumbered.posting_iff h hc).mp
      ⟨p, hp, rfl, hdocid⟩⟩

/-- What the crawl makes of the tree fits the file format. -/
theorem SourceTree.Indexable.fitsFormat (h : t.Indexable) (hc : Crawled t.files dt mi adds)
    (hrun : Yields (crawl t.files) (dt, mi)) : FitsFormat mi dt where
  docs := hc.docs.docs
  names := fun kv hkv => by
    obtain ⟨i, hname, -⟩ := mem_docEntries.mp (hc.docs.toName.mem_iff.mp hkv)
    obtain ⟨g, hg, hpath⟩ := List.mem_map.mp (List.mem_of_getElem? hname)
    obtain ⟨file, hfile, -⟩ := mem_parsedFiles.mp hg
    rw [← hpath]
    exact ⟨readableFiles_pos _ _ _ hfile, h.shortPaths _ hfile⟩
  index := hc.index.wf.toWired
  words := fun key set hget => by
    obtain ⟨p, hp, hword⟩ := hc.index.stored key set hget
    have hmem : set.word ∈ t.words := (h.word_iff hc).mpr ⟨p, hp, hword⟩
    obtain ⟨f, hf, htext⟩ := SourceTree.mem_words.mp hmem
    exact ⟨textWords_ne htext, h.shortWords _ hmem⟩
  size := h.size dt mi hrun

/-! ## Searching the index -/

/-- A result names one document. -/
theorem nameResult_inj (hc : Crawled t.files dt mi adds) (h : t.Indexable) {sr sr' : SearchResult}
    {result : QueryResult} (hsr : result ∈ nameResult dt sr) (hsr' : result ∈ nameResult dt sr') :
    sr = sr' := by
  obtain ⟨name, hname, rfl⟩ := Option.map_eq_some_iff.mp hsr
  obtain ⟨name', hname', heq⟩ := Option.map_eq_some_iff.mp hsr'
  obtain ⟨i, tab, hi, hdocid⟩ := hc.assigns_iff.mp hname
  obtain ⟨j, tab', hj, hdocid'⟩ := hc.assigns_iff.mp hname'
  obtain ⟨hbytes, hrank⟩ := QueryResult.mk.inj heq
  obtain rfl : name' = name := CString.ext hbytes
  have hi' : ((parsedFiles t.files).map Prod.fst)[i]? = some name' := by
    rw [List.getElem?_map, hi]
    rfl
  have hj' : ((parsedFiles t.files).map Prod.fst)[j]? = some name' := by
    rw [List.getElem?_map, hj]
    rfl
  obtain ⟨hilt, higet⟩ := List.getElem?_eq_some_iff.mp hi'
  obtain ⟨hjlt, hjget⟩ := List.getElem?_eq_some_iff.mp hj'
  have hij : i = j := (nodup_parsedFiles h.paths).getElem_inj_iff.mp (higet.trans hjget.symm)
  rw [hij, ← hdocid'] at hdocid
  cases sr
  cases sr'
  exact congrArg₂ SearchResult.mk hdocid hrank.symm

/-- What a search should find has every path once. -/
theorem SourceTree.nodup_hits (h : t.Indexable) (query : List CppString) :
    (t.hits query).Nodup := by
  have hsub : ∀ files : List HandleCall, ((files.filterMap fun f => hit query f.1 (t.text f)).map
      QueryResult.documentName).Sublist (files.map fun f => f.1.bytes) := by
    intro files
    induction files with
    | nil => exact .slnil
    | cons f files ih =>
      rw [List.filterMap_cons, List.map_cons]
      cases hhit : hit query f.1 (t.text f) with
      | none => exact ih.cons _
      | some result =>
        have hname : result.documentName = f.1.bytes := by
          rw [hit] at hhit
          split at hhit
          · rw [← Option.some.inj hhit]
          · cases hhit
        rw [List.map_cons, hname]
        exact ih.cons_cons _
  have hpaths : (t.files.map fun f => f.1.bytes).Nodup := by
    have hmap := h.paths.map (f := CString.bytes) fun _ _ heq => CString.ext heq
    rwa [List.map_map] at hmap
  exact List.Nodup.of_map _ ((hsub t.files).nodup hpaths)

/-- The named survivors of a query are what the search should find. -/
theorem SourceTree.Indexable.hits_perm (h : t.Indexable) (hc : Crawled t.files dt mi adds)
    {word : CString} {words : List CString} {survivors : List SearchResult}
    (hnodup : (survivors.map SearchResult.docid).Nodup)
    (hmem : ∀ sr, sr ∈ survivors ↔ HasAll adds (word :: words) sr.docid ∧
      sr.rank = u32 (rankIn adds (word :: words) sr.docid)) :
    (survivors.filterMap (nameResult dt)).Perm (t.hits ((word :: words).map CString.bytes)) := by
  refine (List.perm_ext_iff_of_nodup (List.Nodup.filterMap (fun _ _ _ => nameResult_inj hc h)
    (.of_map _ hnodup)) (SourceTree.nodup_hits h _)).mpr fun result => ?_
  rw [SourceTree.hits, List.mem_filterMap, List.mem_filterMap]
  constructor
  · rintro ⟨sr, hsr, hname⟩
    obtain ⟨hall, hrank⟩ := (hmem sr).mp hsr
    obtain ⟨name, hassigns, rfl⟩ := Option.map_eq_some_iff.mp hname
    obtain ⟨i, tab, hi, hdocid⟩ := hc.assigns_iff.mp hassigns
    obtain ⟨file, hnumbered⟩ := SourceTree.exists_numbered hi
    rw [hdocid] at hall hrank
    refine ⟨_, hnumbered.mem, (hnumbered.hit_eq h hc _ _).mpr ⟨hall, ?_⟩⟩
    rw [hrank]
  · rintro ⟨f, hf, hhit⟩
    have hpos : 0 < occurrences (t.text f) word.bytes := by
      rw [hit] at hhit
      split at hhit
      · rename_i hwords
        exact hwords _ (List.mem_map_of_mem List.mem_cons_self)
      · cases hhit
    obtain ⟨tab, htab⟩ := h.table_of_word hf (occurrences_pos_iff.mp hpos)
    obtain ⟨i, hi⟩ := List.mem_iff_getElem?.mp (mem_parsedFiles (f := (f.1, tab)).mpr
      ⟨f.2, hf, htab⟩)
    have hnumbered : t.Numbered i f tab := ⟨hf, htab, hi⟩
    obtain ⟨hall, rfl⟩ := (hnumbered.hit_eq h hc _ _).mp hhit
    refine ⟨⟨docIdOf i, u32 (rankIn adds (word :: words) (docIdOf i))⟩,
      (hmem _).mpr ⟨hall, rfl⟩, ?_⟩
    have hassigns : (dtGetDocidTable dt).toFinmap.lookup (docIdOf i) = some f.1 :=
      hc.assigns_iff.mpr ⟨i, tab, hi, rfl⟩
    rw [nameResult, hassigns]
    rfl

end Postings

section Search

/-- A word that is nowhere leaves nothing of the documents. -/
theorem intersectDocIDs_missing {index : HashTableReader × HashTableReader}
    (h : AlwaysAnswers index) :
    ∀ (words : List CppString) (headers : List DocidElementHeader),
    (∃ word ∈ words, lookupWord index.2 word = .ok none) →
    intersectDocIDs index.2 words headers = .ok []
  | [], _, hmiss => by
    obtain ⟨word, hword, -⟩ := hmiss
    cases hword
  | word :: words, headers, hmiss => by
    rw [intersectDocIDs]
    rcases h.words word with hnone | ⟨docs, cur, hsome, hlist⟩
    · rw [hnone]
      rfl
    · rw [hsome, ok_bind]
      dsimp only
      rw [hlist, ok_bind]
      refine intersectDocIDs_missing h words _ ?_
      obtain ⟨missing, hmem, hnone⟩ := hmiss
      rcases List.mem_cons.mp hmem with rfl | hmem
      · rw [hsome] at hnone
        cases hnone
      · exact ⟨missing, hmem, hnone⟩

theorem processIndex_missing {index : HashTableReader × HashTableReader} (h : AlwaysAnswers index)
    {word : CppString} {words : List CppString}
    (hmiss : ∃ missing ∈ word :: words, lookupWord index.2 missing = .ok none) :
    processIndex index.1 index.2 word words = .ok [] := by
  rw [processIndex]
  rcases h.words word with hnone | ⟨docs, cur, hsome, hlist⟩
  · rw [hnone]
    rfl
  · obtain ⟨missing, hmem, hnone⟩ := hmiss
    have hmem : missing ∈ words := by
      rcases List.mem_cons.mp hmem with rfl | hmem
      · rw [hsome] at hnone
        cases hnone
      · exact hmem
    rw [hsome, ok_bind]
    dsimp only
    rw [hlist, ok_bind, if_neg (List.ne_nil_of_mem hmem),
      intersectDocIDs_missing h words cur ⟨missing, hmem, hnone⟩]
    rfl

variable {t : SourceTree} {dt : DocTable} {mi : MemIndex} {adds : List Posting}

/-- The readers of the index file. -/
def indexReaders (mi : MemIndex) (dt : DocTable) : HashTableReader × HashTableReader :=
  (readerAt (fileImage mi dt) 16 (dtGetDocidTable dt).chains,
    readerAt (fileImage mi dt) (16 + (docTableImage dt).length) mi.table.chains)

/-- For words of the index `ProcessQuery` finds what it should find. -/
theorem SourceTree.Indexable.processIndex_words (h : t.Indexable) (hc : Crawled t.files dt mi adds)
    (hfits : FitsFormat mi dt) {word : CString} {words : List CString}
    (hquery : ∀ w ∈ word :: words, w ∈ t.words) :
    ∃ results, processIndex (indexReaders mi dt).1 (indexReaders mi dt).2 word.bytes
        (words.map CString.bytes) = .ok results ∧
      results.Perm (t.hits ((word :: words).map CString.bytes)) := by
  have hmi := hc.index.wf
  have hadds : ∀ p ∈ adds, p.word ∈ t.words := fun p hp => (h.word_iff hc).mpr ⟨p, hp, rfl⟩
  have hapart : mi.TellsApart (word :: words) := by
    intro key set hget w hw hkey
    obtain ⟨p, hp, hword⟩ := hc.index.stored key set hget
    exact h.apart _ (hword ▸ hadds p hp) w (hquery w hw) hkey
  have hfinds : FindsWords ListsFew (indexReaders mi dt).2 mi :=
    findsWords_fileImage hfits fun key set offset hget hat =>
      listsFew_of_table (hmi.docIDs key set hget) hat
        fun kv hkv => (hmi.lists key set hget kv hkv).1
  rcases hfinds.lookup_word hmi.toWired (hapart.word List.mem_cons_self) with
    ⟨hempty, -⟩ | ⟨set, docs, hget, hlookup, ⟨headers, hlist, hheaders⟩, -⟩
  · obtain ⟨p, hp, hpword⟩ := (h.word_iff hc).mp (hquery word List.mem_cons_self)
    have hfiled := (hc.index.filed (wordKey word) p.docid p.positions).mpr
      ⟨p, hp, by rw [hpword], rfl, rfl⟩
    rw [hempty] at hfiled
    cases hfiled
  · obtain ⟨final, hfinal, hperm⟩ := processIndex_found hfinds (readsDocs_fileImage hfits)
      hmi.toWired (fun key set hget w hw => hapart key set hget w (List.mem_cons_of_mem _ hw))
      hlookup hlist hheaders.nodup
    refine ⟨_, hfinal, h.hits_perm hc ?_ fun sr => ?_⟩
    · refine (hperm.map _).nodup_iff.mpr (List.Nodup.sublist (docids_filterMap
        (fun _ _ => keepAll_docid words) _) ?_)
      rw [List.map_map]
      exact hheaders.nodup
    · have hfirst :
          FirstResults (mi.postings (wordKey word)) (set.docIDs.entries.map firstResult) := by
        rw [MemIndex.postings_of_some hget]
        exact firstResults_entries (hmi.docIDs _ set hget)
      have hsame := hheaders.firstResults_perm hfirst
        fun docid list hl => (hmi.toWired.posting_wf hl).1
      rw [(hperm.trans (hsame.filterMap _)).mem_iff]
      exact mem_survivors_iff hc.index.toIndexes h.apart hadds hquery hfirst

/-- For every query `ProcessQuery` finds in the index what it should find. -/
theorem SourceTree.Indexable.processIndex_hits (h : t.Indexable) (hc : Crawled t.files dt mi adds)
    (hfits : FitsFormat mi dt) (word : CppString) (words : List CppString) :
    ∃ results, processIndex (indexReaders mi dt).1 (indexReaders mi dt).2 word words = .ok results ∧
      results.Perm (t.hits (word :: words)) := by
  by_cases hquery : ∀ q ∈ word :: words, ∃ w ∈ t.words, w.bytes = q
  · obtain ⟨w, hw, rfl⟩ := hquery word List.mem_cons_self
    obtain ⟨ws, rfl, hws⟩ : ∃ ws : List CString, ws.map CString.bytes = words ∧
        ∀ w ∈ ws, w ∈ t.words := by
      have hrest : ∀ q ∈ words, ∃ w ∈ t.words, w.bytes = q := fun q hq =>
        hquery q (List.mem_cons_of_mem _ hq)
      clear hquery
      induction words with
      | nil => exact ⟨[], rfl, fun w hw => absurd hw List.not_mem_nil⟩
      | cons q qs ih =>
        obtain ⟨ws, rfl, hws⟩ := ih fun q' hq' => hrest q' (List.mem_cons_of_mem _ hq')
        obtain ⟨w', hw', rfl⟩ := hrest q List.mem_cons_self
        exact ⟨w' :: ws, rfl, List.forall_mem_cons.mpr ⟨hw', hws⟩⟩
    exact h.processIndex_words hc hfits (List.forall_mem_cons.mpr ⟨hw, hws⟩)
  · push Not at hquery
    obtain ⟨missing, hmem, hnot⟩ := hquery
    have hfinds : FindsWords (fun _ _ => True) (indexReaders mi dt).2 mi :=
      findsWords_fileImage hfits fun _ _ _ _ _ => trivial
    have hnone : lookupWord (indexReaders mi dt).2 missing = .ok none := by
      refine hfinds.missing missing fun key set hget => ?_
      obtain ⟨p, hp, hword⟩ := hc.index.stored key set hget
      rw [← hword]
      exact hnot p.word ((h.word_iff hc).mpr ⟨p, hp, rfl⟩)
    refine ⟨[], processIndex_missing (alwaysAnswers_fileImage hfits) ⟨missing, hmem, hnone⟩, ?_⟩
    have hnil : t.hits (word :: words) = [] := by
      refine List.filterMap_eq_nil_iff.mpr fun f hf => ?_
      rw [hit, if_neg]
      intro hall
      obtain ⟨w, hw, hbytes⟩ := exists_of_occurrences_pos (hall missing hmem)
      exact hnot w (SourceTree.mem_words.mpr ⟨f, hf, hw⟩) hbytes
    rw [hnil]

end Search

/-! ## The two programs -/

/-- The index file of a tree is written, and searching it finds what it should find. -/
theorem SourceTree.Indexable.built {t : SourceTree} (h : t.Indexable)
    (printFreed : Except Stop PUnit) (tables : DocTable × MemIndex) {f : IndexFile}
    (hio : f.verdicts = []) (hmallocs : f.mallocs = []) :
    ∃ mi dt f', buildFileIndex printFreed tables t.rootdir (.directory true t.entries) f =
        .ok (true, f') ∧ f'.content = fileImage mi dt ∧ FitsFormat mi dt ∧
      ∀ word words, ∃ results,
        processIndex (indexReaders mi dt).1 (indexReaders mi dt).2 word words =
        .ok results ∧ results.Perm (t.hits (word :: words)) := by
  have hkeys : (t.files.map fun f => wordKey f.1).Nodup := by
    refine List.Nodup.map_on (fun f hf f' hf' hkey => ?_) (List.Nodup.of_map _ h.paths)
    exact List.inj_on_of_nodup_map h.paths hf hf' (h.names _ (List.mem_map_of_mem hf) _
      (List.mem_map_of_mem hf') hkey)
  obtain ⟨dt, mi, adds, hrun, hc⟩ := crawl_yields hkeys h.tables
  have hfits := h.fitsFormat hc hrun
  obtain ⟨pos, hwrite⟩ := writeIndex_returns hfits (f := { f with mallocs := [] }) hio rfl
  refine ⟨mi, dt, quiet (fileImage mi dt) pos, ?_, rfl, hfits, h.processIndex_hits hc hfits⟩
  have hcrawl : crawl t.files f.mallocs = .ok ((dt, mi), []) := by
    rw [hmallocs]
    exact hrun
  have hsize : (fileImage mi dt).length ≠ 0 := by
    rw [length_fileImage]
    omega
  have hwrite : writeIndex mi dt { f with mallocs := [] } =
      .ok ((fileImage mi dt).length, quiet (fileImage mi dt) pos) := hwrite
  rw [buildFileIndex, crawlFileTree_of_open printFreed t.rootdir h.opens]
  show (Except.map _ (crawl t.files f.mallocs) >>= _) = _
  rw [hcrawl]
  show (writeIndex mi dt { f with mallocs := [] } >>= _) = _
  rw [hwrite]
  show Except.ok (decide _, _) = _
  rw [decide_eq_true hsize]

/-- The content of an index file that `buildfileindex` has made of a tree, when no call of the C
library failed. -/
def Built (t : SourceTree) (file : List UInt8) : Prop :=
  ∃ printFreed tables f f', f.verdicts = [] ∧ f.mallocs = [] ∧
    buildFileIndex printFreed tables t.rootdir (.directory true t.entries) f = .ok (true, f') ∧
      f'.content = file

/-- The pair of readers finds in an index file what a search of the tree should find. -/
def FindsHits (index : HashTableReader × HashTableReader) (t : SourceTree) : Prop :=
  ∀ word words, ∃ results, processIndex index.1 index.2 word words = .ok results ∧
    results.Perm (t.hits (word :: words))

section Search

variable {trees : List SourceTree} {files : List (List UInt8)}

/-- The constructor of `QueryProcessor` opens the files of some trees. -/
theorem openIndices_built (validate : Bool) (hfiles : List.Forall₂ Built trees files)
    (h : ∀ t ∈ trees, t.Indexable) :
    ∃ qp, openIndices validate files = .ok qp ∧ List.Forall₂ FindsHits qp trees := by
  induction hfiles with
  | nil => exact ⟨[], rfl, .nil⟩
  | @cons t file trees files hfile _ ih =>
    obtain ⟨ht, hrest⟩ := List.forall_mem_cons.mp h
    obtain ⟨qp, hopen, hqp⟩ := ih hrest
    obtain ⟨printFreed, tables, f, f', hio, hmallocs, hrun, rfl⟩ := hfile
    obtain ⟨mi, dt, f'', hrun', hcontent, hfits, hfinds⟩ := ht.built printFreed tables hio hmallocs
    obtain ⟨-, rfl⟩ := Prod.mk.inj (Except.ok.inj (hrun.symm.trans hrun'))
    obtain ⟨fir, hfir, hdtr, hitr⟩ := readers_fileImage hfits validate
    refine ⟨indexReaders mi dt :: qp, ?_, .cons hfinds hqp⟩
    rw [hcontent, openIndices, hfir, ok_bind, hdtr, ok_bind, hitr, ok_bind, hopen, ok_bind]
    rfl

/-- The loop over the indices finds what should be found in all of them. -/
theorem processIndices_hits {qp : QueryProcessor} (h : List.Forall₂ FindsHits qp trees)
    (word : CppString) (words : List CppString) :
    ∃ results, processIndices word words qp = .ok results ∧
      results.Perm (trees.flatMap fun t => t.hits (word :: words)) := by
  induction h with
  | nil => exact ⟨[], rfl, .nil⟩
  | @cons index t qp trees hindex _ ih =>
    obtain ⟨results, hrun, hperm⟩ := hindex word words
    obtain ⟨rest, hrest, hpermRest⟩ := ih
    refine ⟨results ++ rest, ?_, ?_⟩
    · rw [processIndices, hrun, ok_bind, hrest, ok_bind]
      rfl
    · rw [List.flatMap_cons]
      exact hperm.append hpermRest

/-- The answer of `ProcessQuery` to every query. -/
theorem processQuery_hits {sort : List QueryResult → List QueryResult}
    (hsort : ∀ results, (sort results).Perm results ∧
      (sort results).Pairwise fun x y => y.less x = false)
    {qp : QueryProcessor} (h : List.Forall₂ FindsHits qp trees) {query : List CppString}
    (hquery : query ≠ []) : ∃ results, processQuery sort qp query = .ok results ∧
      results.Perm (trees.flatMap fun t => t.hits query) ∧
        results.Pairwise fun x y => y.rank ≤ x.rank := by
  obtain ⟨word, words, rfl⟩ := List.exists_cons_of_ne_nil hquery
  obtain ⟨results, hrun, hperm⟩ := processIndices_hits h word words
  obtain ⟨hsame, hsorted⟩ := hsort results
  refine ⟨sort results, ?_, hsame.trans hperm, hsorted.imp fun {x y} hxy => ?_⟩
  · rw [processQuery, hrun, ok_bind]
    rfl
  · rw [QueryResult.less, decide_eq_false_iff_not] at hxy
    exact Nat.not_lt.mp hxy

/-- A tree in which `readdir` finds the entries of every directory in some other order. -/
inductive SameTree : SourceTree → SourceTree → Prop where
  /-- at any depth -/
  | reordered (t : SourceTree) {entries : Listing} (h : Reordered t.entries entries) :
    SameTree t { t with entries := entries }

/-- What a search should find does not depend on the order. -/
theorem SameTree.hits_perm {t t' : SourceTree} (h : SameTree t t') (query : List CppString) :
    (t.hits query).Perm (t'.hits query) := by
  cases h with
  | reordered h => exact (h.readableFiles_perm t.rootdir).filterMap _

theorem hits_perm_of_sameTrees {trees' : List SourceTree} (h : List.Forall₂ SameTree trees trees')
    (query : List CppString) :
    (trees.flatMap fun t => t.hits query).Perm (trees'.flatMap fun t => t.hits query) := by
  induction h with
  | nil => exact .nil
  | cons ht _ ih =>
    rw [List.flatMap_cons, List.flatMap_cons]
    exact (ht.hits_perm query).append ih

end Search

/-- From directories to search results: `buildfileindex` writes an index file for each tree, and
a `QueryProcessor` over the files answers every query with the files in whose texts all words of
the query occur, each once, ranked by the number of occurrences, best rank first. -/
theorem search_finds_files (trees : List SourceTree) (hne : trees ≠ [])
    (h : ∀ t ∈ trees, t.Indexable) (sort : List QueryResult → List QueryResult)
    (hsort : ∀ results, (sort results).Perm results ∧
      (sort results).Pairwise fun x y => y.less x = false) :
    (∀ t ∈ trees, ∀ printFreed tables f, f.verdicts = [] → f.mallocs = [] → ∃ f',
      buildFileIndex printFreed tables t.rootdir (.directory true t.entries) f = .ok (true, f')) ∧
    ∀ files validate, List.Forall₂ Built trees files → ∃ qp,
      newQueryProcessor files validate = .ok qp ∧
      ∀ query, query ≠ [] → ∃ results, processQuery sort qp query = .ok results ∧
        results.Perm (trees.flatMap fun t => t.hits query) ∧
          results.Pairwise fun x y => y.rank ≤ x.rank := by
  constructor
  · intro t ht printFreed tables f hio hmallocs
    obtain ⟨mi, dt, f', hrun, -⟩ := (h t ht).built printFreed tables hio hmallocs
    exact ⟨f', hrun⟩
  · intro files validate hfiles
    obtain ⟨qp, hopen, hqp⟩ := openIndices_built validate hfiles h
    refine ⟨qp, ?_, fun query hquery => processQuery_hits hsort hqp hquery⟩
    rw [newQueryProcessor, if_neg, hopen]
    rintro rfl
    exact hne (List.forall₂_nil_right_iff.mp hfiles)

/-- The answers of a search do not depend on the order in which `readdir` found the entries when
the indices were built, although the numbers of the documents and the index files do: they are
the same up to the order of results with one rank, and show the same ranks in the same order. -/
theorem search_ignores_readdir_order (trees trees' : List SourceTree)
    (hsame : List.Forall₂ SameTree trees trees') (hne : trees ≠ [])
    (h : ∀ t ∈ trees, t.Indexable) (h' : ∀ t ∈ trees', t.Indexable)
    (sort : List QueryResult → List QueryResult)
    (hsort : ∀ results, (sort results).Perm results ∧
      (sort results).Pairwise fun x y => y.less x = false)
    (files files' : List (List UInt8)) (hfiles : List.Forall₂ Built trees files)
    (hfiles' : List.Forall₂ Built trees' files') (validate validate' : Bool) :
    ∃ qp qp', newQueryProcessor files validate = .ok qp ∧
      newQueryProcessor files' validate' = .ok qp' ∧
        ∀ query, query ≠ [] → ∃ results results', processQuery sort qp query = .ok results ∧
          processQuery sort qp' query = .ok results' ∧ results.Perm results' ∧
            results.map QueryResult.rank = results'.map QueryResult.rank := by
  have hfilesne : files ≠ [] := by
    rintro rfl
    exact hne (List.forall₂_nil_right_iff.mp hfiles)
  have hfilesne' : files' ≠ [] := by
    rintro rfl
    rw [List.forall₂_nil_right_iff.mp hfiles'] at hsame
    exact hne (List.forall₂_nil_right_iff.mp hsame)
  obtain ⟨qp, hopen, hqp⟩ := openIndices_built validate hfiles h
  obtain ⟨qp', hopen', hqp'⟩ := openIndices_built validate' hfiles' h'
  refine ⟨qp, qp', ?_, ?_, fun query hquery => ?_⟩
  · rw [newQueryProcessor, if_neg hfilesne, hopen]
  · rw [newQueryProcessor, if_neg hfilesne', hopen']
  · obtain ⟨results, hrun, hperm, hsorted⟩ := processQuery_hits hsort hqp hquery
    obtain ⟨results', hrun', hperm', hsorted'⟩ := processQuery_hits hsort hqp' hquery
    have hboth : results.Perm results' :=
      hperm.trans ((hits_perm_of_sameTrees hsame query).trans hperm'.symm)
    refine ⟨results, results', hrun, hrun', hboth, ?_⟩
    exact (hboth.map QueryResult.rank).eq_of_pairwise (fun x y _ _ hxy hyx => le_antisymm hyx hxy)
      (List.pairwise_map.mpr hsorted) (List.pairwise_map.mpr hsorted')

/-- A directory with two files, which have the line `"a"`. -/
def pairTree (first second : CString) : SourceTree where
  rootdir := wordA
  entries := .next first (.regular (.ofContent lineA))
    (.next second (.regular (.ofContent lineA)) .eof)
  text := fun _ => lineA

/-- The size of its index file, for both orders. -/
theorem size_pairTree :
    (crawl (pairTree wordA wordB).files []).toOption.map
      (fun r => (fileImage r.1.2 r.1.1).length) = some 9841 ∧
    (crawl (pairTree wordB wordA).files []).toOption.map
      (fun r => (fileImage r.1.2 r.1.1).length) = some 9841 := by
  decide +kernel

theorem indexable_pairTree (first second : CString)
    (h : first = wordA ∧ second = wordB ∨ first = wordB ∧ second = wordA) :
    (pairTree first second).Indexable where
  opens := by rcases h with ⟨rfl, rfl⟩ | ⟨rfl, rfl⟩ <;> rfl
  texts := fun f hf => by
    have hfile : f.2 = .ofContent lineA := by
      rcases h with ⟨rfl, rfl⟩ | ⟨rfl, rfl⟩ <;>
        rcases List.mem_cons.mp hf with rfl | hf <;>
          first | rfl | rw [List.mem_singleton.mp hf]
    rw [hfile]
    exact .held (FileSource.holds_ofContent (by decide)) (show lineA.length < 2 ^ 32 by decide)
  paths := by rcases h with ⟨rfl, rfl⟩ | ⟨rfl, rfl⟩ <;> decide
  names := by
    unfold HashesApart
    rcases h with ⟨rfl, rfl⟩ | ⟨rfl, rfl⟩ <;> decide
  apart := by
    unfold HashesApart
    rcases h with ⟨rfl, rfl⟩ | ⟨rfl, rfl⟩ <;> decide +kernel
  tables := by
    rcases h with ⟨rfl, rfl⟩ | ⟨rfl, rfl⟩ <;> exact ⟨by decide +kernel, by decide +kernel⟩
  shortPaths := by rcases h with ⟨rfl, rfl⟩ | ⟨rfl, rfl⟩ <;> decide
  shortWords := by rcases h with ⟨rfl, rfl⟩ | ⟨rfl, rfl⟩ <;> decide +kernel
  size := fun dt mi hrun => by
    have hsize : (crawl (pairTree first second).files []).toOption.map
        (fun r => (fileImage r.1.2 r.1.1).length) = some 9841 := by
      rcases h with ⟨rfl, rfl⟩ | ⟨rfl, rfl⟩
      · exact size_pairTree.1
      · exact size_pairTree.2
    rw [show crawl (pairTree first second).files [] = .ok ((dt, mi), []) from hrun] at hsize
    have hlen : (fileImage mi dt).length = 9841 := Option.some.inj hsize
    rw [hlen]
    decide

/-- The two files as `readdir` finds them. -/
def smallTree : SourceTree := pairTree wordA wordB

theorem indexable_smallTree : smallTree.Indexable :=
  indexable_pairTree wordA wordB (.inl ⟨rfl, rfl⟩)

/-- The index file of a tree can be built. -/
theorem SourceTree.Indexable.exists_built {t : SourceTree} (h : t.Indexable) :
    ∃ file, Built t file := by
  have hkeys : (([] : List HandleCall).map fun f => wordKey f.1).Nodup := List.nodup_nil
  obtain ⟨dt, mi, adds, -, -⟩ := crawl_yields hkeys ⟨by decide, by decide⟩
  obtain ⟨mi', dt', f', hrun, -⟩ := h.built (.ok ⟨⟩) (dt, mi) (f := ⟨false, [], 0, [], []⟩) rfl rfl
  exact ⟨f'.content, .ok ⟨⟩, (dt, mi), ⟨false, [], 0, [], []⟩, f', rfl, rfl, hrun, rfl⟩

/-- The index file of the small tree, searched for its word. -/
theorem search_finds_files_small : ∃ file, Built smallTree file ∧
    ∃ qp, newQueryProcessor [file] true = .ok qp ∧
      ∃ results, processQuery sortResults qp [ascii "a"] = .ok results ∧
        results.Perm ([smallTree].flatMap fun t => t.hits [ascii "a"]) := by
  obtain ⟨file, hbuilt⟩ := indexable_smallTree.exists_built
  obtain ⟨-, hsearch⟩ := search_finds_files [smallTree] (by decide)
    (List.forall_mem_singleton.mpr indexable_smallTree) sortResults sortResults_spec
  obtain ⟨qp, hopen, hanswer⟩ := hsearch [file] true (.cons hbuilt .nil)
  obtain ⟨results, hresults, hperm, -⟩ := hanswer [ascii "a"] (List.cons_ne_nil _ _)
  exact ⟨file, hbuilt, qp, hopen, results, hresults, hperm⟩

/-- It finds both files, with the rank 1. -/
example : smallTree.hits [ascii "a"] = [⟨ascii "a/a", 1⟩, ⟨ascii "a/b", 1⟩] := by
  decide +kernel

/-- The two files, found in the two orders. -/
theorem search_ignores_readdir_order_small : ∃ file file',
    Built (pairTree wordA wordB) file ∧ Built (pairTree wordB wordA) file' ∧
    ∃ qp qp', newQueryProcessor [file] true = .ok qp ∧ newQueryProcessor [file'] true = .ok qp' ∧
      ∃ results results', processQuery sortResults qp [ascii "a"] = .ok results ∧
        processQuery sortResults qp' [ascii "a"] = .ok results' ∧ results.Perm results' := by
  have h := indexable_pairTree wordA wordB (.inl ⟨rfl, rfl⟩)
  have h' := indexable_pairTree wordB wordA (.inr ⟨rfl, rfl⟩)
  obtain ⟨file, hbuilt⟩ := h.exists_built
  obtain ⟨file', hbuilt'⟩ := h'.exists_built
  have hsame : SameTree (pairTree wordA wordB) (pairTree wordB wordA) :=
    .reordered _ (.swap wordA wordB _ _ .eof)
  obtain ⟨qp, qp', hqp, hqp', hall⟩ := search_ignores_readdir_order [pairTree wordA wordB]
    [pairTree wordB wordA] (.cons hsame .nil) (List.cons_ne_nil _ _)
    (List.forall_mem_singleton.mpr h) (List.forall_mem_singleton.mpr h') sortResults
    sortResults_spec [file] [file'] (.cons hbuilt .nil) (.cons hbuilt' .nil) true true
  obtain ⟨results, results', hrun, hrun', hperm, -⟩ := hall [ascii "a"] (List.cons_ne_nil _ _)
  exact ⟨file, file', hbuilt, hbuilt', qp, qp', hqp, hqp', results, results', hrun, hrun', hperm⟩

end MultithreadedWebServer
