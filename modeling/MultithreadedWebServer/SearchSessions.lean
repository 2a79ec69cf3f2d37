import MultithreadedWebServer.DocTableRuns
import MultithreadedWebServer.FileSearchShell
import MultithreadedWebServer.IndexTeardown
import MultithreadedWebServer.ShellPasses

/-!
# searchshell, from a directory to the end of the input

`searchshell` searches the tables that `CrawlFileTree` has made, without an index file. What it
should find is the same as for the index file, `SourceTree.hits`, as long as the hashes tell the
words of the query from those of the directory, since no word is compared.
-/

namespace MultithreadedWebServer

/-- `main` of `searchshell`, for the argument `rootdir`: what it prints until it exits with
success. -/
def searchShell (printFreed : Except Stop PUnit) (tables : DocTable × MemIndex)
    (rootdir : CString) (root : Inode) (mallocs : Schedule) (stdin : List UInt8) :
    Except Stop CppString :=
  crawlFileTree (indexing printFreed) rootdir root (mallocs, tables) >>=
    fun (crawled, mallocs, doctable, index) =>
      if crawled then
        shellLoop index doctable (stdin.length + 1) stdin mallocs >>= fun (printed, _) =>
          freeMemIndex index ⟨index.records, [], []⟩ >>= fun _ =>
            freeDocTable doctable ⟨[], []⟩ >>= fun _ =>
              .ok (ascii "Indexing '" ++ rootdir.bytes ++ ascii "'\n" ++ printed)
      else
        .error .verify333

/-! ## The query -/

section Query

variable {t : SourceTree} {dt : DocTable} {mi : MemIndex} {adds : List Posting}

/-- A word is in few documents. -/
theorem Crawled.card_postings {files : List (CString × FileSource)} (hc : Crawled files dt mi adds)
    (key : UInt64) : (mi.postings key).keys.card ≤ (parsedFiles files).length := by
  have hsub : (mi.postings key).keys ⊆
      (Finset.range (parsedFiles files).length).image docIdOf := by
    intro docid hdocid
    rw [Finmap.mem_keys, ← Finmap.lookup_isSome, Option.isSome_iff_exists] at hdocid
    obtain ⟨list, hlist⟩ := hdocid
    obtain ⟨p, hp, -, rfl, -⟩ := (hc.index.filed _ _ _).mp hlist
    obtain ⟨i, hi, hdocid⟩ := hc.docid_lt hp
    rw [hdocid]
    exact Finset.mem_image_of_mem _ (Finset.mem_range.mpr hi)
  exact (Finset.card_le_card hsub).trans (Finset.card_image_le.trans (Finset.card_range _).le)

/-- Every document of the index has a name. -/
theorem Crawled.exists_name {files : List (CString × FileSource)} (hc : Crawled files dt mi adds)
    {p : Posting} (hp : p ∈ adds) (rank : ℕ) : (nameResult dt ⟨p.docid, rank⟩).isSome = true := by
  obtain ⟨i, f, hf, hdocid, -⟩ := (hc.postings _ _ _).mp ⟨p, hp, rfl, rfl, rfl⟩
  have hassigns : (dtGetDocidTable dt).toFinmap.lookup p.docid = some f.1 :=
    hc.assigns_iff.mpr ⟨i, f.2, hf, hdocid⟩
  rw [nameResult, hassigns]
  rfl

theorem forall₂_filterMap {α β : Type} {f : α → Option β} : ∀ {xs : List α},
    (∀ x ∈ xs, (f x).isSome = true) → List.Forall₂ (fun x y => f x = some y) xs (xs.filterMap f)
  | [], _ => .nil
  | x :: xs, h => by
    obtain ⟨hx, hxs⟩ := List.forall_mem_cons.mp h
    obtain ⟨y, hy⟩ := Option.isSome_iff_exists.mp hx
    rw [List.filterMap_cons_some hy]
    exact .cons hy (forall₂_filterMap hxs)

/-- What `MIProcessQuery` finds in the tables of a tree, with the names of the documents. -/
structure Finds (t : SourceTree) (dt : DocTable) (query : List CString)
    (res : Option (LinkedList SearchResult)) (results : List QueryResult) : Prop where
  /-- a list of results is not empty -/
  list : ∀ list, res = some list → list.WF ∧ list.toList ≠ []
  /-- every document has a name -/
  names : List.Forall₂ (fun sr result => nameResult dt sr = some result) (searchResults res) results
  /-- the results are what a search of the tree should find -/
  hits : results.Perm (t.hits (query.map CString.bytes))
  /-- best rank first -/
  ranked : results.Pairwise fun x y => y.rank ≤ x.rank

/-- A result that the index and the query allow. -/
def Allowed (adds : List Posting) (query : List CString) (sr : SearchResult) : Prop :=
  HasAll adds query sr.docid ∧ sr.rank = u32 (rankIn adds query sr.docid)

/-- An answer with the results that are allowed is what should be found. -/
theorem SourceTree.Indexable.finds_of_allowed (h : t.Indexable) (hc : Crawled t.files dt mi adds)
    {word : CString} {words : List CString} {res : Option (LinkedList SearchResult)}
    (hlist : ∀ list, res = some list → list.WF ∧ list.toList ≠ [])
    (hnodup : ((searchResults res).map SearchResult.docid).Nodup)
    (hmem : ∀ sr, sr ∈ searchResults res ↔ Allowed adds (word :: words) sr)
    (hord : RankOrdered (searchResults res)) :
    Finds t dt (word :: words) res ((searchResults res).filterMap (nameResult dt)) where
  list := hlist
  names := forall₂_filterMap fun sr hsr => by
    obtain ⟨p, hp, -, hdocid⟩ := ((hmem sr).mp hsr).1 word List.mem_cons_self
    have hname := hc.exists_name hp sr.rank
    rwa [hdocid] at hname
  hits := h.hits_perm hc hnodup hmem
  ranked := by
    refine List.Pairwise.filterMap _ (fun sr sr' hle r hr r' hr' => ?_) hord
    obtain ⟨name, -, rfl⟩ := Option.map_eq_some_iff.mp hr
    obtain ⟨name', -, rfl⟩ := Option.map_eq_some_iff.mp hr'
    exact hle

/-- `MIProcessQuery` finds what it should find. -/
theorem SourceTree.Indexable.miProcessQuery_finds (h : t.Indexable)
    (hc : Crawled t.files dt mi adds) (hfew : (parsedFiles t.files).length < 2 ^ 31)
    {word : CString} {words : List CString} (hapart : HashesApart (t.words ++ word :: words)) :
    ∃ res results, Yields (miProcessQuery mi (word :: words)) res ∧
      Finds t dt (word :: words) res results := by
  have hadds : ∀ p ∈ adds, p.word ∈ t.words ++ word :: words := fun p hp =>
    List.mem_append_left _ ((h.word_iff hc).mpr ⟨p, hp, rfl⟩)
  have hquery : ∀ w ∈ word :: words, w ∈ t.words ++ word :: words := fun w hw =>
    List.mem_append_right _ hw
  have hindexes := hc.index.toIndexes
  -- an answer `NULL` is right when nothing is allowed
  have hnull : (∀ sr, ¬ Allowed adds (word :: words) sr) →
      Finds t dt (word :: words) none ((searchResults none).filterMap (nameResult dt)) :=
    fun hnone => h.finds_of_allowed hc (fun list hsome => absurd hsome (Option.some_ne_none _).symm)
      List.nodup_nil (fun sr => iff_of_false List.not_mem_nil (hnone sr)) List.Pairwise.nil
  rcases miProcessQuery_first hindexes.wf word words with
    ⟨hempty, hrun⟩ | ⟨first, hwf, hne, hfirst, hrun⟩
  · refine ⟨none, _, hrun, hnull fun sr hsr => ?_⟩
    exact not_hasAll ⟨word, List.mem_cons_self, hindexes.nowhere hempty⟩ ⟨sr.docid, hsr.1⟩
  · have hmem : ∀ sr, sr ∈ first.toList.filterMap (keepAll mi words) ↔
        Allowed adds (word :: words) sr := fun sr =>
      mem_survivors_iff hindexes hapart hadds hquery hfirst
    have hlt : first.toList.length < 2 ^ 31 := by
      rw [hfirst.length]
      exact Nat.lt_of_le_of_lt (hc.card_postings _) hfew
    rcases intersectWords_yields hindexes.wf.toWired words hwf hne hlt with
      ⟨hnil, hrun'⟩ | ⟨hkept, list, hrun', hwf', hperm, hord⟩
    · refine ⟨none, _, hrun.trans hrun', hnull fun sr hsr => ?_⟩
      have hin := (hmem sr).mpr hsr
      rw [hnil] at hin
      cases hin
    · refine ⟨some list, _, hrun.trans hrun', h.finds_of_allowed hc ?_ ?_ (fun sr => ?_) hord⟩
      · rintro _ ⟨⟩
        refine ⟨hwf', fun hnil => hkept ?_⟩
        rw [hnil] at hperm
        exact hperm.symm.eq_nil
      · exact (hperm.map _).nodup_iff.mpr
          (hfirst.nodup.sublist (docids_filterMap (fun _ _ => keepAll_docid words) _))
      · exact hperm.mem_iff.trans (hmem sr)

/-! ## The output -/

/-- `DTLookupDocID` finds the name of a result. -/
theorem Registered.lookup_named {names : List CString} (h : Registered dt names)
    (hroom : names.length < 2 ^ 32) {sr : SearchResult} {result : QueryResult}
    (hname : nameResult dt sr = some result) :
    ∃ name, Yields (dtLookupDocID dt sr.docid) (some name) ∧ result = ⟨name.bytes, sr.rank⟩ := by
  obtain ⟨name, hlookup, rfl⟩ := Option.map_eq_some_iff.mp hname
  obtain ⟨i, hi, hdocid⟩ := h.lookup_iff.mp hlookup
  have hlt := (List.getElem?_eq_some_iff.mp hi).1
  have hne : sr.docid ≠ 0 := hdocid ▸ docIdOf_ne_zero (by omega)
  have hrun := h.lookup_docid hroom hne
  rw [hdocid, toNat_docIdOf (by omega), Nat.add_sub_cancel, hi, ← hdocid] at hrun
  exact ⟨name, hrun, rfl⟩

/-- The loop of `PrintLinkedList` prints a line for each result that is left. -/
theorem printResults_yields {names : List CString} (h : Registered dt names)
    (hroom : names.length < 2 ^ 32) {ll : LinkedList SearchResult} :
    ∀ {post pre : List (Addr × SearchResult)} {a : Addr} {sr : SearchResult}
      {results : List QueryResult} {fuel : ℕ}, Repr ll (pre ++ (a, sr) :: post) →
      post.length < fuel →
      List.Forall₂ (fun sr result => nameResult dt sr = some result) (sr :: post.map Prod.snd)
        results →
      Yields (printResults ll dt fuel ⟨some a⟩) (results.flatMap shellLine)
  | _, _, _, _, _, 0, _, hfuel, _ => absurd hfuel (Nat.not_lt_zero _)
  | [], pre, a, sr, _, fuel + 1, hrepr, _, .cons hname .nil => by
    obtain ⟨name, hlookup, rfl⟩ := h.lookup_named hroom hname
    rw [printResults, llIteratorGetPayload_spec hrepr, Run.pure_bind]
    refine Run.Returns.bind hlookup ?_
    dsimp only
    rw [llIteratorNext_spec hrepr, Run.pure_bind, List.flatMap_cons, List.flatMap_nil,
      List.append_nil]
    rfl
  | (b, sr') :: post, pre, a, sr, result :: results, fuel + 1, hrepr, hfuel, .cons hname hrest => by
    obtain ⟨name, hlookup, rfl⟩ := h.lookup_named hroom hname
    have hnext : Repr ll ((pre ++ [(a, sr)]) ++ (b, sr') :: post) := by
      rwa [List.append_assoc]
    have ih := printResults_yields h hroom hnext (Nat.lt_of_succ_lt_succ hfuel) hrest
    rw [printResults, llIteratorGetPayload_spec hrepr, Run.pure_bind]
    refine Run.Returns.bind hlookup ?_
    dsimp only
    rw [llIteratorNext_spec hrepr, Run.pure_bind]
    exact ih.bind rfl

/-- `PrintLinkedList` prints a line for each result. -/
theorem printLinkedList_yields {names : List CString} (h : Registered dt names)
    (hroom : names.length < 2 ^ 32) {ll : LinkedList SearchResult} (hwf : ll.WF)
    (hne : ll.toList ≠ []) {results : List QueryResult}
    (hnames : List.Forall₂ (fun sr result => nameResult dt sr = some result) ll.toList results) :
    Yields (printLinkedList ll dt) (results.flatMap shellLine) := by
  have hrepr : Repr ll ll.cells := hwf
  rcases hcells : ll.cells with _ | ⟨⟨a, sr⟩, post⟩
  · exact absurd (by rw [LinkedList.toList, hcells]; rfl) hne
  · rw [hcells] at hrepr
    rw [LinkedList.toList, hcells] at hnames
    refine Run.Returns.bind (llMakeIterator_yields hrepr) ?_
    have hfirst : Repr ll ([] ++ (a, sr) :: post) := hrepr
    refine printResults_yields h hroom hfirst ?_ hnames
    rw [hrepr.count, List.length_cons]
    omega

/-! ## Lines -/

/-- The words of a line: those of the string in the buffer without its last character. -/
def lineWords (line : List UInt8) : List CString := wordsOf (lineString line).dropLast

/-- What should be printed for a line: nothing if it has no word, and otherwise a line for every
file in which all its words occur, best rank first. -/
def Prints (t : SourceTree) (line : List UInt8) (printed : CppString) : Prop :=
  if lineWords line = [] then printed = []
  else ∃ results : List QueryResult, results.Perm (t.hits ((lineWords line).map CString.bytes)) ∧
    (results.Pairwise fun x y => y.rank ≤ x.rank) ∧ printed = results.flatMap shellLine

/-- The passes over a line find its words, where they agree. -/
theorem splitQuery_yields {line : List UInt8} (h : joinedEnd (lineString line) = true) :
    Yields (splitQuery line) ((lineWords line).length, (lineWords line).map some) := by
  have hne : lineString line ≠ [] := by
    intro hnil
    rw [hnil] at h
    cases h
  have hrun := splitQuery_attempt hne []
  have hlengths := length_wordsOf_dropLast hne
  rw [if_pos h, Nat.add_zero] at hlengths
  rw [List.tail_nil, served_nil, if_pos ⟨verdict_nil, rfl⟩, if_pos h, hlengths] at hrun
  rw [partlyStored, List.replicate_zero, List.append_nil, List.drop_nil] at hrun
  exact hrun

/-- What is printed for a line is what should be printed. -/
theorem SourceTree.Indexable.processLine_prints (h : t.Indexable)
    (hc : Crawled t.files dt mi adds) (hfew : (parsedFiles t.files).length < 2 ^ 31)
    {line : List UInt8} (hlen : line.length < usrInputSize)
    (hjoined : joinedEnd (lineString line) = true)
    (hapart : HashesApart (t.words ++ lineWords line)) :
    ∃ printed, Yields (processLine mi dt line) printed ∧ Prints t line printed := by
  have hsplit := splitQuery_yields hjoined
  have hshort : (lineWords line).length % 2 ^ 8 = (lineWords line).length := by
    have hdropped : (lineString line).dropLast.length ≤ line.length := by
      rw [List.length_dropLast]
      exact (Nat.sub_le _ _).trans (length_lineString_le line)
    exact Nat.mod_eq_of_lt (length_wordsOf_lt (Nat.lt_of_le_of_lt hdropped hlen))
  have hfree : freeWords ((lineWords line).map some) (lineWords line).length 0 = pure ⟨⟩ :=
    freeWords_map (lineWords line) []
  have hquery : ∀ {res : Option (LinkedList SearchResult)},
      Yields (miProcessQuery mi (lineWords line)) res →
      Yields (miProcessQueryArray mi ((lineWords line).map some)
        ((lineWords line).length % 2 ^ 8)) res := by
    intro res hres
    rwa [hshort, miProcessQueryArray_eq]
  rcases hwords : lineWords line with _ | ⟨word, words⟩
  · refine ⟨[], ?_, by rw [Prints, if_pos hwords]⟩
    rw [hwords] at hsplit hfree hquery
    have hnone : Yields (miProcessQuery mi []) none := rfl
    refine hsplit.bind ((hquery hnone).bind ?_)
    dsimp only
    rw [hfree]
    rfl
  · rw [hwords] at hsplit hfree hquery hapart
    obtain ⟨res, results, hres, hfinds⟩ := h.miProcessQuery_finds hc hfew hapart
    have hdocs := h.tables.docs
    rw [← List.length_map (f := Prod.fst)] at hdocs
    refine ⟨results.flatMap shellLine, ?_, ?_⟩
    · refine hsplit.bind ((hquery hres).bind ?_)
      cases res with
      | none =>
        obtain rfl := List.forall₂_nil_left_iff.mp hfinds.names
        dsimp only
        rw [hfree]
        rfl
      | some list =>
        obtain ⟨hwf, hne⟩ := hfinds.list list rfl
        refine Run.Returns.bind (printLinkedList_yields hc.docs hdocs hwf hne hfinds.names) ?_
        rw [freeLinkedList_spec hwf, Run.pure_bind, hfree]
        rfl
    · rw [Prints, hwords, if_neg (List.cons_ne_nil _ _)]
      exact ⟨results, hfinds.hits, hfinds.ranked, rfl⟩

theorem length_takeLine_rest_le : ∀ (n : ℕ) (stdin : List UInt8),
    (takeLine n stdin).2.length ≤ stdin.length
  | 0, _ => Nat.le_refl _
  | _ + 1, [] => Nat.le_refl _
  | n + 1, c :: stdin => by
    rw [takeLine]
    split
    · exact Nat.le_succ _
    · exact Nat.le_succ_of_le (length_takeLine_rest_le n stdin)

/-- `fgets` takes something off the input. -/
theorem fgets_shorter {stdin line rest : List UInt8}
    (h : fgets usrInputSize stdin = some (line, rest)) : rest.length < stdin.length := by
  rw [fgets] at h
  split at h
  · cases h
  · rename_i hne
    obtain ⟨c, stdin, rfl⟩ := List.exists_cons_of_ne_nil hne
    have hrest : (takeLine 255 (c :: stdin)).2 = rest := congrArg Prod.snd (Option.some.inj h)
    rw [← hrest, takeLine]
    split
    · exact Nat.lt_succ_self _
    · exact Nat.lt_succ_of_le (length_takeLine_rest_le 254 stdin)

/-- The loop prompts for every line, and once more. -/
theorem SourceTree.Indexable.shellLoop_prints (h : t.Indexable)
    (hc : Crawled t.files dt mi adds) (hfew : (parsedFiles t.files).length < 2 ^ 31) :
    ∀ (fuel : ℕ) {stdin : List UInt8}, stdin.length < fuel →
      (∀ line ∈ linesOf fuel stdin, joinedEnd (lineString line) = true ∧
        HashesApart (t.words ++ lineWords line)) →
      ∃ replies, Yields (shellLoop mi dt fuel stdin)
          (replies.flatMap (ascii "enter query:\n" ++ ·) ++ ascii "enter query:\n") ∧
        List.Forall₂ (Prints t) (linesOf fuel stdin) replies
  | 0, _, hfuel, _ => absurd hfuel (Nat.not_lt_zero _)
  | fuel + 1, stdin, hfuel, hlines => by
    rw [shellLoop]
    rw [linesOf] at hlines ⊢
    rcases hgets : fgets usrInputSize stdin with _ | ⟨line, rest⟩
    · exact ⟨[], rfl, .nil⟩
    · rw [hgets] at hlines
      obtain ⟨⟨hjoined, hapart⟩, hlines⟩ := List.forall_mem_cons.mp hlines
      have hlen := length_lt_of_fgets (by decide) hgets
      have hshorter := fgets_shorter hgets
      obtain ⟨printed, hrun, hprints⟩ := h.processLine_prints hc hfew hlen hjoined hapart
      obtain ⟨replies, hrest, hreplies⟩ := h.shellLoop_prints hc hfew fuel
        (Nat.lt_of_lt_of_le hshorter (Nat.le_of_lt_succ hfuel)) hlines
      refine ⟨printed :: replies, hrun.bind (hrest.bind ?_), .cons hprints hreplies⟩
      simp only [List.flatMap_cons, List.append_assoc]
      rfl

end Query

/-! ## A session -/

section Session

variable {t : SourceTree} {stdin : List UInt8} {printFreed : Except Stop PUnit}
  {tables : DocTable × MemIndex}

/-- The lines of a session. -/
def sessionLines (stdin : List UInt8) : List (List UInt8) := linesOf (stdin.length + 1) stdin

/-- What `searchshell` prints in a session with these replies. -/
def sessionOutput (rootdir : CString) (replies : List CppString) : CppString :=
  ascii "Indexing '" ++ rootdir.bytes ++ ascii "'\n" ++
    (replies.flatMap (ascii "enter query:\n" ++ ·) ++ ascii "enter query:\n")

/-- The tables of a tree, for the loop of `main`. -/
theorem SourceTree.Indexable.exists_crawled (h : t.Indexable) (printFreed : Except Stop PUnit)
    (tables : DocTable × MemIndex) :
    ∃ dt mi adds, Crawled t.files dt mi adds ∧
      crawlFileTree (indexing printFreed) t.rootdir (.directory true t.entries) ([], tables) =
        .ok (true, [], dt, mi) := by
  have hkeys : (t.files.map fun f => wordKey f.1).Nodup := by
    refine List.Nodup.map_on (fun f hf f' hf' hkey => ?_) (List.Nodup.of_map _ h.paths)
    exact List.inj_on_of_nodup_map h.paths hf hf' (h.names _ (List.mem_map_of_mem hf) _
      (List.mem_map_of_mem hf') hkey)
  obtain ⟨dt, mi, adds, hrun, hc⟩ := crawl_yields hkeys h.tables
  refine ⟨dt, mi, adds, hc, ?_⟩
  have hcrawl : crawl t.files [] = .ok ((dt, mi), []) := hrun
  rw [crawlFileTree_of_open printFreed t.rootdir h.opens]
  show Except.map _ (crawl t.files []) = _
  rw [hcrawl]
  rfl

/-- The exit of `searchshell` frees the tables. -/
theorem searchShell_of_loop {dt : DocTable} {mi : MemIndex} {adds : List Posting}
    (hc : Crawled t.files dt mi adds) (hcrawl : crawlFileTree (indexing printFreed) t.rootdir
      (.directory true t.entries) ([], tables) = .ok (true, [], dt, mi)) {out : CppString} :
    searchShell printFreed tables t.rootdir (.directory true t.entries) [] stdin = .ok out ↔
      ∃ printed mallocs, shellLoop mi dt (stdin.length + 1) stdin [] = .ok (printed, mallocs) ∧
        out = ascii "Indexing '" ++ t.rootdir.bytes ++ ascii "'\n" ++ printed := by
  obtain ⟨sets, left, -, hfree, -⟩ := hc.index.wf.toWired.freeMemIndex_returns
  obtain ⟨freed, docids, hfreeDocs, -⟩ := hc.docs.freeDocTable_returns
  have hfree : freeMemIndex mi ⟨mi.records, [], []⟩ = .ok (⟨⟩, _) := hfree
  have hfreeDocs : freeDocTable dt ⟨[], []⟩ = .ok (⟨⟩, _) := hfreeDocs
  rw [searchShell, hcrawl, ok_bind]
  dsimp only
  rw [if_pos rfl]
  cases hloop : shellLoop mi dt (stdin.length + 1) stdin [] with
  | error e =>
    refine iff_of_false (fun heq => ?_) ?_
    · cases heq
    · rintro ⟨printed, mallocs, heq, -⟩
      cases heq
  | ok r =>
    obtain ⟨printed, mallocs⟩ := r
    rw [ok_bind]
    dsimp only
    rw [hfree, ok_bind, hfreeDocs, ok_bind]
    constructor
    · intro heq
      exact ⟨printed, mallocs, rfl, (Except.ok.inj heq).symm⟩
    · rintro ⟨printed', mallocs', heq, rfl⟩
      obtain ⟨rfl, -⟩ := Prod.mk.inj (Except.ok.inj heq)
      rfl


/-- The replies to the lines of a session, where the passes over every line agree. -/
theorem SourceTree.Indexable.searchShell_prints (h : t.Indexable) (hfew : t.files.length < 2 ^ 31)
    (printFreed : Except Stop PUnit) (tables : DocTable × MemIndex)
    (hlines : ∀ line ∈ sessionLines stdin, joinedEnd (lineString line) = true ∧
      HashesApart (t.words ++ lineWords line)) :
    ∃ replies, searchShell printFreed tables t.rootdir (.directory true t.entries) [] stdin =
        .ok (sessionOutput t.rootdir replies) ∧
      List.Forall₂ (Prints t) (sessionLines stdin) replies := by
  obtain ⟨dt, mi, adds, hc, hcrawl⟩ := h.exists_crawled printFreed tables
  have hparsed : (parsedFiles t.files).length < 2 ^ 31 :=
    Nat.lt_of_le_of_lt (List.length_filterMap_le _ _) hfew
  obtain ⟨replies, hrun, hreplies⟩ :=
    h.shellLoop_prints hc hparsed (stdin.length + 1) (Nat.lt_succ_self _) hlines
  exact ⟨replies, (searchShell_of_loop hc hcrawl).mpr ⟨_, _, hrun, rfl⟩, hreplies⟩

end Session

/-- A session of `searchshell` over a directory: it comes to the end of the input, and exits after
it has freed its tables, exactly if no line ends in a character that is a word of its own; then
it prompts for each line and prints the files in which all words of the line occur, with their
ranks, best rank first. -/
theorem searchshell_session (t : SourceTree) (h : t.Indexable) (hfew : t.files.length < 2 ^ 31)
    (printFreed : Except Stop PUnit) (tables : DocTable × MemIndex) (stdin : List UInt8)
    (hapart : ∀ line ∈ sessionLines stdin, HashesApart (t.words ++ lineWords line)) :
    ((∃ out,
        searchShell printFreed tables t.rootdir (.directory true t.entries) [] stdin = .ok out) ↔
      ∀ line ∈ sessionLines stdin, joinedEnd (lineString line) = true) ∧
    ∀ out, searchShell printFreed tables t.rootdir (.directory true t.entries) [] stdin = .ok out →
      ∃ replies, List.Forall₂ (Prints t) (sessionLines stdin) replies ∧
        out = sessionOutput t.rootdir replies := by
  have hjoined : ∀ {out},
      searchShell printFreed tables t.rootdir (.directory true t.entries) [] stdin = .ok out →
      ∀ line ∈ sessionLines stdin, joinedEnd (lineString line) = true := by
    intro out hrun
    obtain ⟨dt, mi, adds, hc, hcrawl⟩ := h.exists_crawled printFreed tables
    obtain ⟨printed, mallocs, hloop, -⟩ := (searchShell_of_loop hc hcrawl).mp hrun
    exact shellLoop_returns _ hloop
  have hprints := fun (hall : ∀ line ∈ sessionLines stdin, joinedEnd (lineString line) = true) =>
    h.searchShell_prints hfew printFreed tables
      fun line hline => ⟨hall line hline, hapart line hline⟩
  refine ⟨⟨fun ⟨out, hrun⟩ => hjoined hrun, fun hall => ?_⟩, fun out hrun => ?_⟩
  · obtain ⟨replies, hrun, -⟩ := hprints hall
    exact ⟨_, hrun⟩
  · obtain ⟨replies, hrun', hreplies⟩ := hprints (hjoined hrun)
    exact ⟨replies, hreplies, Except.ok.inj (hrun.symm.trans hrun')⟩

/-- Two queries over two files that have the line `"a"`. -/
theorem searchshell_session_small : ∃ tables out,
    searchShell (.ok ⟨⟩) tables smallTree.rootdir (.directory true smallTree.entries) []
        (ascii "a\na b\n") = .ok out ∧
      ∃ replies, List.Forall₂ (Prints smallTree) [ascii "a\n", ascii "a b\n"] replies ∧
        out = sessionOutput smallTree.rootdir replies := by
  have hlines : sessionLines (ascii "a\na b\n") = [ascii "a\n", ascii "a b\n"] := by decide
  have hapart : ∀ line ∈ sessionLines (ascii "a\na b\n"),
      HashesApart (smallTree.words ++ lineWords line) := by
    rw [hlines, List.forall_mem_cons, List.forall_mem_singleton]
    unfold HashesApart
    decide +kernel
  obtain ⟨hexits, hprints⟩ := searchshell_session smallTree indexable_smallTree (by decide)
    (.ok ⟨⟩) (⟨HashTable.fresh _ 1, HashTable.fresh _ 1, 0⟩, ⟨HashTable.fresh _ 1, Arena.empty⟩)
    (ascii "a\na b\n") hapart
  have hjoined : ∀ line ∈ sessionLines (ascii "a\na b\n"),
      joinedEnd (lineString line) = true := by
    rw [hlines]
    decide
  obtain ⟨out, hrun⟩ := hexits.mpr hjoined
  have hout := hprints out hrun
  rw [hlines] at hout
  exact ⟨_, out, hrun, hout⟩

end MultithreadedWebServer
