import MultithreadedWebServer.MemIndexQuery

/-!
# Ranked conjunctive search

What a search over a collection of postings should return is stated on the collection
alone: the documents that have a posting for every query word, each with the number of
positions summed over the query. `SearchExact` says that a result of `MIProcessQuery`
is that. An index built by `MIAddPostingList` is tied to its collection by `Indexes`.

`MIProcessQuery` counts its result list with an `int`. So its answer is exact as long
as the first query word has fewer than `2 ^ 31` documents; beyond that the further
words are looked up but nothing is filtered.
-/

namespace MultithreadedWebServer

/-! ## Collections of postings -/

/-- What `MIAddPostingList` is called with: a word, a document and the non-empty list
of the positions of the word in it. -/
structure Posting where
  /-- the word -/
  word : CString
  /-- the document -/
  docid : UInt64
  /-- where the word occurs -/
  positions : LinkedList UInt64
  /-- the list is a list -/
  wf : positions.WF
  /-- and not empty -/
  nonempty : positions.toList ≠ []

/-- A sequence of `MIAddPostingList` calls. -/
def addPostings : List Posting → MemIndex → Run Schedule MemIndex
  | [], index => pure index
  | p :: ps, index => do
    let (_, index) ← miAddPostingList index p.word p.docid p.positions
    addPostings ps index

/-- `AllocateMemIndex` and then a sequence of `MIAddPostingList` calls. -/
def buildIndex (adds : List Posting) : Run Schedule MemIndex := do
  let index ← allocateMemIndex
  addPostings adds index

/-- The document has a posting for every query word. -/
def HasAll (adds : List Posting) (query : List CString) (docid : UInt64) : Prop :=
  ∀ word ∈ query, ∃ p ∈ adds, p.word = word ∧ p.docid = docid

/-- The length of the posting list of a word in a document, 0 without a posting. -/
def hitsIn (adds : List Posting) (word : CString) (docid : UInt64) : ℕ :=
  match adds.find? fun p => p.word = word ∧ p.docid = docid with
  | some p => p.positions.toList.length
  | none => 0

/-- The rank of a document: the hits of every query position, summed. -/
def rankIn (adds : List Posting) (query : List CString) (docid : UInt64) : ℕ :=
  (query.map (hitsIn adds · docid)).sum

/-- A result is `NULL` if no document has all words, and otherwise lists the documents
that do, each once, with its rank, best rank first. -/
def SearchExact (adds : List Posting) (query : List CString) :
    Option (LinkedList SearchResult) → Prop
  | none => ¬ ∃ docid, HasAll adds query docid
  | some list => list.WF ∧ (∃ docid, HasAll adds query docid) ∧
      (list.toList.map SearchResult.docid).Nodup ∧
      (∀ docid, docid ∈ list.toList.map SearchResult.docid ↔ HasAll adds query docid) ∧
      (∀ sr ∈ list.toList, sr.rank = rankIn adds query sr.docid) ∧ RankOrdered list.toList

/-! ## Building the index -/

/-- The index holds the postings of the collection and nothing else. -/
structure Indexes (index : MemIndex) (adds : List Posting) : Prop where
  /-- the index invariant -/
  wf : index.WF
  /-- what is filed is a posting, and every posting is filed -/
  filed : ∀ key docid list, (index.postings key).lookup docid = some list ↔
    ∃ p ∈ adds, wordKey p.word = key ∧ p.docid = docid ∧ p.positions = list
  /-- the keys of the outer table are those of the words -/
  words : index.keys = (adds.map fun p => wordKey p.word).toFinset

section Search

variable {index : MemIndex} {adds : List Posting}

theorem Indexes.has_iff (h : Indexes index adds) {word : CString} {docid : UInt64} :
    index.Has word docid ↔ ∃ p ∈ adds, wordKey p.word = wordKey word ∧ p.docid = docid := by
  rw [MemIndex.Has, Option.isSome_iff_exists]
  constructor
  · rintro ⟨list, hl⟩
    obtain ⟨p, hp, hkey, hdoc, -⟩ := (h.filed _ _ _).mp hl
    exact ⟨p, hp, hkey, hdoc⟩
  · rintro ⟨p, hp, hkey, hdoc⟩
    exact ⟨p.positions, (h.filed _ _ _).mpr ⟨p, hp, hkey, hdoc, rfl⟩⟩

/-- The documents of a key, as a finite set. -/
theorem Indexes.docs_eq (h : Indexes index adds) (key : UInt64) :
    (index.postings key).keys =
      ((adds.filter fun p => wordKey p.word = key).map Posting.docid).toFinset := by
  ext docid
  rw [Finmap.mem_keys, ← Finmap.lookup_isSome, Option.isSome_iff_exists]
  simp only [List.mem_toFinset, List.mem_map, List.mem_filter, decide_eq_true_eq]
  constructor
  · rintro ⟨list, hl⟩
    obtain ⟨p, hp, hkey, hdoc, -⟩ := (h.filed _ _ _).mp hl
    exact ⟨p, ⟨hp, hkey⟩, hdoc⟩
  · rintro ⟨p, ⟨hp, hkey⟩, hdoc⟩
    exact ⟨p.positions, (h.filed _ _ _).mpr ⟨p, hp, hkey, hdoc, rfl⟩⟩

/-- Key and document identify a posting of the collection. -/
def DistinctPostings (adds : List Posting) : Prop :=
  (adds.map fun p => (wordKey p.word, p.docid)).Nodup

/-- The documents of a key differ. -/
theorem DistinctPostings.nodup_docids (hd : DistinctPostings adds) (key : UInt64) :
    ((adds.filter fun p => wordKey p.word = key).map Posting.docid).Nodup := by
  refine List.Nodup.map_on ?_ ((List.Nodup.of_map _ hd).filter _)
  intro p hp q hq heq
  simp only [List.mem_filter, decide_eq_true_eq] at hp hq
  exact List.inj_on_of_nodup_map hd hp.1 hq.1 (Prod.ext (hp.2.trans hq.2.symm) heq)

/-- The documents of a key, counted. -/
theorem Indexes.card_docs (h : Indexes index adds) (hd : DistinctPostings adds) (key : UInt64) :
    (index.postings key).keys.card = (adds.filter fun p => wordKey p.word = key).length := by
  rw [h.docs_eq key, List.toFinset_card_of_nodup (hd.nodup_docids key), List.length_map]

/-- Postings that an index has room for, no two of them for the same hash and document. -/
structure Postable (adds : List Posting) : Prop where
  /-- a hash and a document have one posting -/
  distinct : DistinctPostings adds
  /-- fewer than `2 ^ 32` hashes -/
  words : (adds.map fun p => wordKey p.word).toFinset.card < 2 ^ 32
  /-- and documents a hash -/
  docs : ∀ key, (adds.filter fun p => wordKey p.word = key).length < 2 ^ 32

/-- What comes first is postable, too. -/
theorem Postable.left {ps : List Posting} (h : Postable (adds ++ ps)) : Postable adds where
  distinct := by
    have hd := h.distinct
    rw [DistinctPostings, List.map_append] at hd
    exact (List.nodup_append.mp hd).1
  words := by
    refine Nat.lt_of_le_of_lt (Finset.card_le_card fun key hkey => ?_) h.words
    rw [List.mem_toFinset] at hkey ⊢
    rw [List.map_append]
    exact List.mem_append_left _ hkey
  docs := fun key => by
    have hdocs := h.docs key
    rw [List.filter_append, List.length_append] at hdocs
    omega

/-- One call of `MIAddPostingList` adds one posting to the collection. -/
theorem Indexes.add {p : Posting} (h : Indexes index adds) (hp : Postable (adds ++ [p])) :
    ∃ index', Yields (miAddPostingList index p.word p.docid p.positions) (1, index') ∧
      Indexes index' (adds ++ [p]) := by
  have hkeys : insert (wordKey p.word) index.keys =
      ((adds ++ [p]).map fun p => wordKey p.word).toFinset := by
    ext key
    simp [h.words]
  have hnew : (index.postings (wordKey p.word)).lookup p.docid = none := by
    rw [Option.eq_none_iff_forall_ne_some]
    intro list hl
    obtain ⟨q, hq, hkey, hdoc, -⟩ := (h.filed _ _ _).mp hl
    have hd := hp.distinct
    rw [DistinctPostings, List.map_append] at hd
    refine (List.nodup_append.mp hd).2.2 _ (List.mem_map.mpr ⟨q, hq, rfl⟩) _
      (List.mem_map.mpr ⟨p, List.mem_singleton_self p, rfl⟩) ?_
    exact Prod.ext hkey hdoc
  have hroom : (insert (wordKey p.word) index.keys).card < 2 ^ 32 := by
    rw [hkeys]
    exact hp.words
  have hdocs := hp.docs (wordKey p.word)
  rw [List.filter_append, List.length_append, List.filter_singleton, decide_eq_true rfl,
    ← h.card_docs hp.left.distinct] at hdocs
  obtain ⟨index', hrun, hwf', hpost, hkeys'⟩ :=
    miAddPostingList_yields h.wf hroom hdocs hnew p.wf p.nonempty
  refine ⟨index', hrun, hwf', fun key docid list => ?_, hkeys'.trans hkeys⟩
  rw [hpost]
  have hold := h.filed key docid list
  by_cases hk : key = wordKey p.word
  · rw [if_pos hk]
    by_cases hdoc : docid = p.docid
    · rw [hdoc, Finmap.lookup_insert]
      constructor
      · rintro heq
        exact ⟨p, by simp, hk.symm, rfl, Option.some.inj heq⟩
      · rintro ⟨q, hq, hkey, hqdoc, hlist⟩
        rcases List.mem_append.mp hq with hq | hq
        · have hfound := (h.filed key p.docid list).mpr ⟨q, hq, hkey, hqdoc, hlist⟩
          rw [hk, hnew] at hfound
          cases hfound
        · obtain rfl := List.mem_singleton.mp hq
          rw [hlist]
    · rw [Finmap.lookup_insert_of_ne _ hdoc, hold]
      constructor
      · rintro ⟨q, hq, hrest⟩
        exact ⟨q, List.mem_append.mpr (.inl hq), hrest⟩
      · rintro ⟨q, hq, hkey, hqdoc, hlist⟩
        rcases List.mem_append.mp hq with hq | hq
        · exact ⟨q, hq, hkey, hqdoc, hlist⟩
        · obtain rfl := List.mem_singleton.mp hq
          exact absurd hqdoc.symm hdoc
  · rw [if_neg hk, hold]
    constructor
    · rintro ⟨q, hq, hrest⟩
      exact ⟨q, List.mem_append.mpr (.inl hq), hrest⟩
    · rintro ⟨q, hq, hkey, hrest⟩
      rcases List.mem_append.mp hq with hq | hq
      · exact ⟨q, hq, hkey, hrest⟩
      · obtain rfl := List.mem_singleton.mp hq
        exact absurd hkey.symm hk

/-- A sequence of calls adds a sequence of postings. -/
theorem addPostings_yields {done : List Posting} (ps : List Posting) (h : Indexes index done)
    (hp : Postable (done ++ ps)) :
    ∃ index', Yields (addPostings ps index) index' ∧ Indexes index' (done ++ ps) := by
  induction ps generalizing done index with
  | nil => exact ⟨index, rfl, by simpa using h⟩
  | cons p ps ih =>
    have hcons : done ++ p :: ps = (done ++ [p]) ++ ps := by simp
    rw [hcons] at hp ⊢
    obtain ⟨index₁, hadd, h₁⟩ := h.add hp.left
    obtain ⟨index', hrun, h'⟩ := ih h₁ hp
    exact ⟨index', hadd.bind hrun, h'⟩

/-- The word hashes tell the words of a list apart. -/
def HashesApart (words : List CString) : Prop :=
  ∀ w ∈ words, ∀ w' ∈ words, wordKey w = wordKey w' → w = w'

/-- A collection fits the counters: fewer than `2 ^ 32` words, and documents a word. -/
structure FitsCounters (adds : List Posting) : Prop where
  /-- the words -/
  words : (adds.map Posting.word).toFinset.card < 2 ^ 32
  /-- the documents of each word -/
  docs : ∀ word, (adds.filter fun p => p.word = word).length < 2 ^ 32

theorem HashesApart.filter_eq {words : List CString} (h : HashesApart words)
    (hadds : ∀ p ∈ adds, p.word ∈ words) {word : CString} (hw : word ∈ words) :
    (adds.filter fun p => wordKey p.word = wordKey word) = adds.filter fun p => p.word = word := by
  refine List.filter_congr fun p hp => ?_
  rw [decide_eq_decide]
  exact ⟨fun hk => h _ (hadds p hp) _ hw hk, fun he => by rw [he]⟩

/-- Where the hashes tell the words apart, a collection that fits the counters is postable. -/
theorem postable_of_fits (hd : (adds.map fun p => (p.word, p.docid)).Nodup)
    {words : List CString} (hinj : HashesApart words) (hadds : ∀ p ∈ adds, p.word ∈ words)
    (hfits : FitsCounters adds) : Postable adds where
  distinct := by
    refine List.Nodup.map_on ?_ (List.Nodup.of_map _ hd)
    intro p hp q hq heq
    obtain ⟨hkey, hdoc⟩ := Prod.mk.inj heq
    have hword := hinj _ (hadds p hp) _ (hadds q hq) hkey
    exact List.inj_on_of_nodup_map hd hp hq (Prod.ext hword hdoc)
  words := by
    have himage : (adds.map fun p => wordKey p.word).toFinset =
        (adds.map Posting.word).toFinset.image wordKey := by
      ext key
      simp
    rw [himage]
    exact Nat.lt_of_le_of_lt Finset.card_image_le hfits.words
  docs := by
    intro key
    by_cases hex : ∃ p ∈ adds, wordKey p.word = key
    · obtain ⟨p, hp, rfl⟩ := hex
      rw [hinj.filter_eq hadds (hadds p hp)]
      exact hfits.docs p.word
    · have hnil : (adds.filter fun p => wordKey p.word = key) = [] :=
        List.filter_eq_nil_iff.mpr fun p hp hk => hex ⟨p, hp, by simpa using hk⟩
      rw [hnil]
      exact Nat.two_pow_pos 32

/-- From `AllocateMemIndex` on, distinct postings make an index of the collection. -/
theorem buildIndex_yields (hd : (adds.map fun p => (p.word, p.docid)).Nodup)
    {words : List CString} (hinj : HashesApart words) (hadds : ∀ p ∈ adds, p.word ∈ words)
    (hfits : FitsCounters adds) :
    DistinctPostings adds ∧ ∃ index, Yields (buildIndex adds) index ∧ Indexes index adds := by
  have hp := postable_of_fits hd hinj hadds hfits
  obtain ⟨index₀, halloc, hwf, hempty, hkeys⟩ := allocateMemIndex_yields
  have h₀ : Indexes index₀ [] := ⟨hwf, fun key docid list => by simp [hempty], by simp [hkeys]⟩
  obtain ⟨index, hrun, h⟩ := addPostings_yields adds h₀ hp
  exact ⟨hp.distinct, index, halloc.bind hrun, h⟩

/-! ## Reading off a query -/

variable {words : List CString}

theorem Indexes.has_word (h : Indexes index adds) (hinj : HashesApart words)
    (hadds : ∀ p ∈ adds, p.word ∈ words) {word : CString} (hw : word ∈ words) {docid : UInt64} :
    index.Has word docid ↔ ∃ p ∈ adds, p.word = word ∧ p.docid = docid := by
  rw [h.has_iff]
  constructor
  · rintro ⟨p, hp, hkey, hdoc⟩
    exact ⟨p, hp, hinj _ (hadds p hp) _ hw hkey, hdoc⟩
  · rintro ⟨p, hp, rfl, hdoc⟩
    exact ⟨p, hp, rfl, hdoc⟩

/-- The index and the collection count alike. -/
theorem Indexes.hits_eq (h : Indexes index adds) (hinj : HashesApart words)
    (hadds : ∀ p ∈ adds, p.word ∈ words) {word : CString} (hw : word ∈ words) (docid : UInt64) :
    index.hits word docid = hitsIn adds word docid := by
  rw [MemIndex.hits, hitsIn]
  rcases hfind : adds.find? fun p => p.word = word ∧ p.docid = docid with _ | p
  · have hnone : (index.postings (wordKey word)).lookup docid = none := by
      rw [Option.eq_none_iff_forall_ne_some]
      intro list hl
      obtain ⟨p, hp, hkey, hdoc, -⟩ := (h.filed _ _ _).mp hl
      have hnot := List.find?_eq_none.mp hfind p hp
      exact hnot (by simpa using ⟨hinj _ (hadds p hp) _ hw hkey, hdoc⟩)
    rw [hnone, hfind]
  · have hp := List.mem_of_find?_eq_some hfind
    obtain ⟨hword, hdoc⟩ : p.word = word ∧ p.docid = docid := by
      simpa using List.find?_some hfind
    have hsome : (index.postings (wordKey word)).lookup docid = some p.positions :=
      (h.filed _ _ _).mpr ⟨p, hp, by rw [hword], hdoc, rfl⟩
    rw [hsome, hfind]
    exact p.wf.numElements_eq

/-- A word with a posting in a document has a hit there. -/
theorem hitsIn_pos {word : CString} {docid : UInt64}
    (h : ∃ p ∈ adds, p.word = word ∧ p.docid = docid) : 0 < hitsIn adds word docid := by
  obtain ⟨p, hp, hword, hdoc⟩ := h
  rw [hitsIn]
  rcases hfind : adds.find? fun p => p.word = word ∧ p.docid = docid with _ | q
  · have hnot := List.find?_eq_none.mp hfind p hp
    exact absurd (by simpa using ⟨hword, hdoc⟩) hnot
  · rw [hfind]
    exact List.length_pos_iff.mpr q.nonempty

/-- Dropping results and changing ranks keeps the documents in order. -/
theorem docids_filterMap {f : SearchResult → Option SearchResult}
    (hf : ∀ sr sr', f sr = some sr' → sr'.docid = sr.docid) :
    ∀ results : List SearchResult, ((results.filterMap f).map SearchResult.docid).Sublist
      (results.map SearchResult.docid)
  | [] => .refl _
  | sr :: results => by
    have ih := docids_filterMap hf results
    rcases hsr : f sr with _ | sr'
    · rw [List.filterMap_cons_none hsr]
      exact ih.cons _
    · rw [List.filterMap_cons_some hsr, List.map_cons, List.map_cons, hf sr sr' hsr]
      exact ih.cons_cons _

section Results

variable {word : CString} {rest : List CString} {results : List SearchResult}

/-- What is left of the first results is what the collection says. -/
theorem mem_survivors_iff (h : Indexes index adds) (hinj : HashesApart words)
    (hadds : ∀ p ∈ adds, p.word ∈ words) (hquery : ∀ w ∈ word :: rest, w ∈ words)
    (hfirst : FirstResults (index.postings (wordKey word)) results) {sr' : SearchResult} :
    sr' ∈ results.filterMap (keepAll index rest) ↔
      HasAll adds (word :: rest) sr'.docid ∧
        sr'.rank = u32 (rankIn adds (word :: rest) sr'.docid) := by
  obtain ⟨hword, hrest⟩ := List.forall_mem_cons.mp hquery
  have hhas : ∀ d, index.Has word d ↔ ∃ p ∈ adds, p.word = word ∧ p.docid = d :=
    fun d => h.has_word hinj hadds hword
  have hall : ∀ d, (∀ w ∈ rest, index.Has w d) ↔ HasAll adds rest d := fun d =>
    ⟨fun hw w hmem => (h.has_word hinj hadds (hrest w hmem)).mp (hw w hmem),
      fun hw w hmem => (h.has_word hinj hadds (hrest w hmem)).mpr (hw w hmem)⟩
  have hsum : ∀ d, (rest.map (index.hits · d)).sum = rankIn adds rest d := fun d => by
    rw [rankIn, List.map_congr_left fun w hw => h.hits_eq hinj hadds (hrest w hw) d]
  have hrank : ∀ sr ∈ results, sr.rank < 2 ^ 32 ∧ sr.rank = hitsIn adds word sr.docid := by
    intro sr hsr
    obtain ⟨list, hl, hr⟩ := (hfirst.mem sr).mp hsr
    have hwf : list.WF := (h.wf.toWired.posting_wf hl).1
    refine ⟨?_, ?_⟩
    · rw [hr, numElementsInLinkedList, hwf.count]
      exact hwf.small
    · rw [hr, ← h.hits_eq hinj hadds hword, MemIndex.hits, hl]
  rw [List.mem_filterMap]
  constructor
  · rintro ⟨sr, hsr, hkeep⟩
    obtain ⟨hlt, hhits⟩ := hrank sr hsr
    obtain ⟨hw, rfl⟩ := (keepAll_eq_some_iff rest hlt).mp hkeep
    obtain ⟨list, hl, -⟩ := (hfirst.mem sr).mp hsr
    refine ⟨List.forall_mem_cons.mpr ⟨(hhas _).mp (Option.isSome_of_eq_some hl),
      (hall _).mp hw⟩, ?_⟩
    rw [rankIn, List.map_cons, List.sum_cons, ← hhits, hsum]
    rfl
  · rintro ⟨hq, hr⟩
    obtain ⟨hw, hrestall⟩ := List.forall_mem_cons.mp hq
    obtain ⟨list, hl⟩ := Option.isSome_iff_exists.mp ((hhas _).mpr hw)
    have hsr : (⟨sr'.docid, numElementsInLinkedList list⟩ : SearchResult) ∈ results :=
      (hfirst.mem _).mpr ⟨list, hl, rfl⟩
    obtain ⟨hlt, hhits⟩ := hrank _ hsr
    refine ⟨_, hsr, (keepAll_eq_some_iff rest hlt).mpr ⟨(hall _).mpr hrestall, ?_⟩⟩
    rw [hhits, hsum]
    rw [rankIn, List.map_cons, List.sum_cons] at hr
    rw [rankIn, ← hr]

/-- The filtered results are the exact answer. -/
theorem searchExact_of_survivors (h : Indexes index adds) (hinj : HashesApart words)
    (hadds : ∀ p ∈ adds, p.word ∈ words) (hquery : ∀ w ∈ word :: rest, w ∈ words)
    (hrank : ∀ docid, HasAll adds (word :: rest) docid → rankIn adds (word :: rest) docid < 2 ^ 32)
    (hfirst : FirstResults (index.postings (wordKey word)) results) {res : List SearchResult}
    (hperm : res.Perm (results.filterMap (keepAll index rest))) :
    (res.map SearchResult.docid).Nodup ∧
      (∀ docid, docid ∈ res.map SearchResult.docid ↔ HasAll adds (word :: rest) docid) ∧
      ∀ sr ∈ res, sr.rank = rankIn adds (word :: rest) sr.docid := by
  have hmem : ∀ sr, sr ∈ res ↔ HasAll adds (word :: rest) sr.docid ∧
      sr.rank = u32 (rankIn adds (word :: rest) sr.docid) := fun sr => by
    rw [hperm.mem_iff]
    exact mem_survivors_iff h hinj hadds hquery hfirst
  refine ⟨?_, fun docid => ?_, fun sr hsr => ?_⟩
  · exact (hperm.map _).nodup_iff.mpr
      (hfirst.nodup.sublist (docids_filterMap (fun _ _ => keepAll_docid rest) _))
  · rw [List.mem_map]
    constructor
    · rintro ⟨sr, hsr, rfl⟩
      exact ((hmem sr).mp hsr).1
    · intro hall
      exact ⟨⟨docid, u32 (rankIn adds (word :: rest) docid)⟩, (hmem _).mpr ⟨hall, rfl⟩, rfl⟩
  · obtain ⟨hall, hr⟩ := (hmem sr).mp hsr
    rw [hr, u32_of_lt (hrank _ hall)]

/-- The unfiltered results are wrong as soon as there is a further word: whatever
document has all words, its rank lacks the hits of the further ones. -/
theorem not_searchExact_of_first (h : Indexes index adds) (hinj : HashesApart words)
    (hadds : ∀ p ∈ adds, p.word ∈ words) (hword : word ∈ words) (hne : rest ≠ [])
    (hfirst : FirstResults (index.postings (wordKey word)) results)
    {list : LinkedList SearchResult} (hperm : list.toList.Perm results) :
    ¬ SearchExact adds (word :: rest) (some list) := by
  rintro ⟨-, ⟨docid, hall⟩, -, hdocs, hranks, -⟩
  obtain ⟨sr, hsr, rfl⟩ := List.mem_map.mp ((hdocs docid).mpr hall)
  obtain ⟨l, hl, hr⟩ := (hfirst.mem sr).mp (hperm.mem_iff.mp hsr)
  have hhits : sr.rank = hitsIn adds word sr.docid := by
    rw [hr, ← h.hits_eq hinj hadds hword, MemIndex.hits, hl]
  have hrank := hranks sr hsr
  obtain ⟨w, ws, rfl⟩ := List.exists_cons_of_ne_nil hne
  have hpos : 0 < hitsIn adds w sr.docid := hitsIn_pos (hall w (by simp))
  rw [hhits, rankIn, List.map_cons, List.sum_cons, List.map_cons, List.sum_cons] at hrank
  omega

end Results

/-! ## The query -/

section Main

variable {word : CString} {rest : List CString}

/-- A word that nothing is filed under is in no posting. -/
theorem Indexes.nowhere (h : Indexes index adds) {w : CString}
    (hempty : index.postings (wordKey w) = ∅) : ∀ p ∈ adds, p.word ≠ w := by
  rintro p hp rfl
  have hl := (h.filed (wordKey p.word) p.docid p.positions).mpr ⟨p, hp, rfl, rfl, rfl⟩
  rw [hempty] at hl
  cases hl

/-- With a word that is in no posting, no document has all words. -/
theorem not_hasAll {query : List CString} (h : ∃ w ∈ query, ∀ p ∈ adds, p.word ≠ w) :
    ¬ ∃ docid, HasAll adds query docid := by
  obtain ⟨w, hw, habsent⟩ := h
  rintro ⟨docid, hall⟩
  obtain ⟨p, hp, rfl, -⟩ := hall w hw
  exact habsent p hp rfl

/-- What `MIProcessQuery` gets right: everything, as long as there is no further word,
or a word that is nowhere, or the results of the first word fit an `int`. -/
theorem searchExact_of_fits (h : Indexes index adds) (hdp : DistinctPostings adds)
    (hinj : HashesApart words) (hadds : ∀ p ∈ adds, p.word ∈ words)
    (hquery : ∀ w ∈ word :: rest, w ∈ words)
    (hrank : ∀ docid, HasAll adds (word :: rest) docid → rankIn adds (word :: rest) docid < 2 ^ 32)
    (hfits : rest = [] ∨ (∃ w ∈ word :: rest, ∀ p ∈ adds, p.word ≠ w) ∨
      (adds.filter fun p => p.word = word).length < 2 ^ 31) :
    ∃ res, Yields (miProcessQuery index (word :: rest)) res ∧
      SearchExact adds (word :: rest) res := by
  obtain ⟨hword, hrest⟩ := List.forall_mem_cons.mp hquery
  rcases miProcessQuery_first h.wf word rest with
    ⟨hempty, hrun⟩ | ⟨list₀, hwf₀, hne₀, hfirst, hrun⟩
  · exact ⟨none, hrun, not_hasAll ⟨word, by simp, h.nowhere hempty⟩⟩
  have hmem : ∀ sr, sr ∈ list₀.toList.filterMap (keepAll index rest) ↔
      HasAll adds (word :: rest) sr.docid ∧
        sr.rank = u32 (rankIn adds (word :: rest) sr.docid) :=
    fun sr => mem_survivors_iff h hinj hadds hquery hfirst
  -- an answer with the surviving results is exact
  have hsome : ∀ list : LinkedList SearchResult, list.WF →
      list.toList.Perm (list₀.toList.filterMap (keepAll index rest)) →
      list₀.toList.filterMap (keepAll index rest) ≠ [] → RankOrdered list.toList →
      SearchExact adds (word :: rest) (some list) := by
    intro list hwf hperm hne hord
    obtain ⟨hnodup, hdocs, hranks⟩ :=
      searchExact_of_survivors h hinj hadds hquery hrank hfirst hperm
    obtain ⟨sr, hsr⟩ := List.exists_mem_of_ne_nil _ hne
    exact ⟨hwf, ⟨sr.docid, ((hmem sr).mp hsr).1⟩, hnodup, hdocs, hranks, hord⟩
  by_cases hlt : list₀.toList.length < 2 ^ 31
  · rcases intersectWords_yields h.wf.toWired rest hwf₀ hne₀ hlt with
      ⟨hnil, hrun'⟩ | ⟨hne, list, hrun', hwf, hperm, hord⟩
    · refine ⟨none, hrun.trans hrun', ?_⟩
      rintro ⟨docid, hall⟩
      have hin := (hmem ⟨docid, u32 (rankIn adds (word :: rest) docid)⟩).mpr ⟨hall, rfl⟩
      rw [hnil] at hin
      cases hin
    · exact ⟨some list, hrun.trans hrun', hsome list hwf hperm hne hord⟩
  · have hge := Nat.not_lt.mp hlt
    rcases intersectWords_unfiltered h.wf rest hwf₀ hge with
      ⟨⟨w, hw, hempty⟩, hrun'⟩ | ⟨hall, list, hrun', hwf, hperm, hord⟩
    · exact ⟨none, hrun.trans hrun', not_hasAll ⟨w, List.mem_cons_of_mem _ hw, h.nowhere hempty⟩⟩
    · -- only a single-word query is left
      have hnil : rest = [] := by
        rcases hfits with hnil | ⟨w, hw, habsent⟩ | hcount
        · exact hnil
        · exfalso
          have hpost : index.postings (wordKey w) ≠ ∅ := by
            rcases List.mem_cons.mp hw with rfl | hw
            · intro hempty
              obtain ⟨sr, hsr⟩ := List.exists_mem_of_ne_nil _ hne₀
              obtain ⟨l, hl, -⟩ := (hfirst.mem sr).mp hsr
              rw [hempty] at hl
              cases hl
            · exact hall w hw
          refine hpost (Finmap.ext_lookup fun docid => ?_)
          rw [Finmap.lookup_empty, Option.eq_none_iff_forall_ne_some]
          intro l hl
          obtain ⟨p, hp, hkey, -⟩ := (h.filed _ _ _).mp hl
          exact habsent p hp (hinj _ (hadds p hp) _ (hquery w hw) hkey)
        · rw [hfirst.length, h.card_docs hdp, hinj.filter_eq hadds hword] at hge
          omega
      subst hnil
      have hsame : list₀.toList.filterMap (keepAll index []) = list₀.toList := by
        simp [keepAll, List.filterMap_some]
      exact ⟨some list, hrun.trans hrun',
        hsome list hwf (by rw [hsame]; exact hperm) (by rw [hsame]; exact hne₀) hord⟩

/-- What it gets wrong: with `2 ^ 31` documents or more for the first word and every
word somewhere, the further words do not filter. -/
theorem not_searchExact_of_crowd (h : Indexes index adds) (hdp : DistinctPostings adds)
    (hinj : HashesApart words) (hadds : ∀ p ∈ adds, p.word ∈ words)
    (hquery : ∀ w ∈ word :: rest, w ∈ words) (hne : rest ≠ [])
    (hall : ∀ w ∈ word :: rest, ∃ p ∈ adds, p.word = w)
    (hcrowd : 2 ^ 31 ≤ (adds.filter fun p => p.word = word).length) :
    ∃ res, Yields (miProcessQuery index (word :: rest)) res ∧
      ¬ SearchExact adds (word :: rest) res := by
  obtain ⟨hword, hrest⟩ := List.forall_mem_cons.mp hquery
  have hsomewhere : ∀ w ∈ word :: rest, index.postings (wordKey w) ≠ ∅ := by
    intro w hw hempty
    obtain ⟨p, hp, hpw⟩ := hall w hw
    exact h.nowhere hempty p hp hpw
  rcases miProcessQuery_first h.wf word rest with ⟨hempty, -⟩ | ⟨list₀, hwf₀, -, hfirst, hrun⟩
  · exact absurd hempty (hsomewhere word (by simp))
  have hge : 2 ^ 31 ≤ list₀.toList.length := by
    rwa [hfirst.length, h.card_docs hdp, hinj.filter_eq hadds hword]
  rcases intersectWords_unfiltered h.wf rest hwf₀ hge with
    ⟨⟨w, hw, hempty⟩, -⟩ | ⟨-, list, hrun', -, hperm, -⟩
  · exact absurd hempty (hsomewhere w (List.mem_cons_of_mem _ hw))
  · exact ⟨some list, hrun.trans hrun',
      not_searchExact_of_first h hinj hadds hword hne hfirst hperm⟩

end Main

end Search

/-- Ranked conjunctive search is exact precisely when the query has one word, or a word
that is in no posting, or a first word with fewer than `2 ^ 31` documents: the loop over
the result list counts with an `int`. -/
theorem miProcessQuery_exact_iff (adds : List Posting) (word : CString) (rest : List CString)
    (hdistinct : (adds.map fun p => (p.word, p.docid)).Nodup) (hfits : FitsCounters adds)
    (hinj : HashesApart (adds.map Posting.word ++ word :: rest))
    (hrank : ∀ docid, HasAll adds (word :: rest) docid →
      rankIn adds (word :: rest) docid < 2 ^ 32) :
    ∃ index res, Yields (buildIndex adds) index ∧
      Yields (miProcessQuery index (word :: rest)) res ∧
      (SearchExact adds (word :: rest) res ↔
        rest = [] ∨ (∃ w ∈ word :: rest, ∀ p ∈ adds, p.word ≠ w) ∨
          (adds.filter fun p => p.word = word).length < 2 ^ 31) := by
  have hadds : ∀ p ∈ adds, p.word ∈ adds.map Posting.word ++ word :: rest := fun p hp =>
    List.mem_append.mpr (.inl (List.mem_map.mpr ⟨p, hp, rfl⟩))
  have hquery : ∀ w ∈ word :: rest, w ∈ adds.map Posting.word ++ word :: rest := fun w hw =>
    List.mem_append.mpr (.inr hw)
  obtain ⟨hdp, index, hbuild, h⟩ := buildIndex_yields hdistinct hinj hadds hfits
  by_cases hok : rest = [] ∨ (∃ w ∈ word :: rest, ∀ p ∈ adds, p.word ≠ w) ∨
      (adds.filter fun p => p.word = word).length < 2 ^ 31
  · obtain ⟨res, hrun, hexact⟩ := searchExact_of_fits h hdp hinj hadds hquery hrank hok
    exact ⟨index, res, hbuild, hrun, iff_of_true hexact hok⟩
  · obtain ⟨hne, hrestok⟩ := not_or.mp hok
    obtain ⟨hall, hcrowd⟩ := not_or.mp hrestok
    obtain ⟨res, hrun, hwrong⟩ := not_searchExact_of_crowd h hdp hinj hadds hquery hne
      (by
        intro w hw
        by_contra hno
        exact hall ⟨w, hw, fun p hp he => hno ⟨p, hp, he⟩⟩)
      (Nat.not_lt.mp hcrowd)
    exact ⟨index, res, hbuild, hrun, iff_of_false hwrong hok⟩

/-! ## Concrete collections -/

/-- Posting lists of bounded length bound the ranks. -/
theorem rankIn_le {adds : List Posting} {k : ℕ}
    (h : ∀ p ∈ adds, p.positions.toList.length ≤ k) (docid : UInt64) :
    ∀ query : List CString, rankIn adds query docid ≤ query.length * k
  | [] => Nat.zero_le _
  | word :: words => by
    have ih := rankIn_le h docid words
    have hword : hitsIn adds word docid ≤ k := by
      rw [hitsIn]
      rcases hfind : adds.find? fun p => p.word = word ∧ p.docid = docid with _ | p
      · rw [hfind]
        exact Nat.zero_le k
      · rw [hfind]
        exact h p (List.mem_of_find?_eq_some hfind)
    rw [rankIn] at ih
    rw [rankIn, List.map_cons, List.sum_cons, List.length_cons, Nat.succ_mul]
    omega

/-- A list with two elements. -/
def LinkedList.two {α : Type} (x y : α) : LinkedList α :=
  ⟨2, some 0, some 1, ⟨[some ⟨x, some 1, none⟩, some ⟨y, none, some 0⟩]⟩⟩

theorem repr_two {α : Type} (x y : α) : Repr (LinkedList.two x y) [(0, x), (1, y)] :=
  ⟨⟨rfl, rfl, trivial⟩, by simp, rfl, rfl, rfl, Nat.lt_of_le_of_lt (Nat.le_refl 2) (by decide)⟩

/-- The list with the position 0. -/
def onePosition : LinkedList UInt64 := ⟨1, some 0, some 0, ⟨[some ⟨0, none, none⟩]⟩⟩

theorem repr_onePosition : Repr onePosition [(0, 0)] :=
  ⟨⟨rfl, trivial⟩, by decide, rfl, rfl, rfl, by decide⟩

/-- A word at the start of a document. -/
def startPosting (word : CString) (docid : UInt64) : Posting where
  word := word
  docid := docid
  positions := onePosition
  wf := repr_onePosition.wf
  nonempty := by rw [repr_onePosition.toList_eq]; decide

theorem length_startPosting (word : CString) (docid : UInt64) :
    (startPosting word docid).positions.toList.length = 1 := by
  change onePosition.toList.length = 1
  rw [repr_onePosition.toList_eq]
  rfl

/-- `"a"`. -/
def wordA : CString := ⟨[97], by decide⟩

/-- `"b"`. -/
def wordB : CString := ⟨[98], by decide⟩

theorem hashesApart_ab : HashesApart [wordA, wordB] := by
  intro w hw w' hw' h
  simp only [List.mem_cons, List.not_mem_nil, or_false] at hw hw'
  rcases hw with rfl | rfl <;> rcases hw' with rfl | rfl
  · rfl
  · exact absurd h (by decide)
  · exact absurd h (by decide)
  · rfl

/-- A word at two places of a document. -/
def twicePosting (word : CString) (docid : UInt64) : Posting where
  word := word
  docid := docid
  positions := LinkedList.two 0 4
  wf := (repr_two 0 4).wf
  nonempty := by rw [(repr_two 0 4).toList_eq]; decide

/-- `"a"` and `"b"` in document 1, at three places, and in document 2, at two, and `"a"` alone in
document 3. -/
def abPostings : List Posting :=
  [startPosting wordA 3, startPosting wordA 2, startPosting wordB 2, twicePosting wordA 1,
    startPosting wordB 1]

theorem abPostings_cases {p : Posting} (hp : p ∈ abPostings) :
    p.word ∈ [wordA, wordB] ∧ p.positions.toList.length ≤ 2 := by
  simp only [abPostings, List.mem_cons, List.not_mem_nil, or_false] at hp
  rcases hp with rfl | rfl | rfl | rfl | rfl
  · exact ⟨List.mem_cons_self, (length_startPosting _ _).le.trans (by decide)⟩
  · exact ⟨List.mem_cons_self, (length_startPosting _ _).le.trans (by decide)⟩
  · exact ⟨List.mem_cons_of_mem _ List.mem_cons_self,
      (length_startPosting _ _).le.trans (by decide)⟩
  · refine ⟨List.mem_cons_self, ?_⟩
    change (LinkedList.two (0 : UInt64) 4).toList.length ≤ 2
    rw [(repr_two _ _).toList_eq]
    exact Nat.le_refl 2
  · exact ⟨List.mem_cons_of_mem _ List.mem_cons_self,
      (length_startPosting _ _).le.trans (by decide)⟩

/-- Both words, queried: one document has rank 3, one has rank 2, and one does not have both. -/
theorem miProcessQuery_exact_iff_ab :
    ∃ index res, Yields (buildIndex abPostings) index ∧
      Yields (miProcessQuery index [wordA, wordB]) res ∧
      SearchExact abPostings [wordA, wordB] res ∧ rankIn abPostings [wordA, wordB] 1 = 3 ∧
      rankIn abPostings [wordA, wordB] 2 = 2 := by
  have hinj : HashesApart (abPostings.map Posting.word ++ [wordA, wordB]) := by
    have hmem : ∀ w ∈ abPostings.map Posting.word ++ [wordA, wordB], w ∈ [wordA, wordB] := by
      intro w hw
      rcases List.mem_append.mp hw with hw | hw
      · obtain ⟨p, hp, rfl⟩ := List.mem_map.mp hw
        exact (abPostings_cases hp).1
      · exact hw
    exact fun w hw w' hw' => hashesApart_ab w (hmem w hw) w' (hmem w' hw')
  have hfits : FitsCounters abPostings :=
    ⟨Nat.lt_of_le_of_lt (List.toFinset_card_le _) (by decide),
      fun word => Nat.lt_of_le_of_lt (List.length_filter_le _ _) (by decide)⟩
  have hrank (docid : UInt64) : rankIn abPostings [wordA, wordB] docid ≤ 2 * 2 :=
    rankIn_le (fun p hp => (abPostings_cases hp).2) docid _
  obtain ⟨index, res, hbuild, hrun, hiff⟩ := miProcessQuery_exact_iff abPostings wordA [wordB]
    (by decide) hfits hinj fun docid _ => Nat.lt_of_le_of_lt (hrank docid) (by decide)
  have hfew : (abPostings.filter fun p => p.word = wordA).length < 2 ^ 31 :=
    Nat.lt_of_le_of_lt (List.length_filter_le _ _) (by decide)
  exact ⟨index, res, hbuild, hrun, hiff.mpr (.inr (.inr hfew)), by decide, by decide⟩

/-- `"a"` in the documents 0 to `n - 1`, and `"b"` in document 0. -/
def crowd (n : ℕ) : List Posting :=
  (List.range n).map (fun d => startPosting wordA (UInt64.ofNat d)) ++ [startPosting wordB 0]

theorem mem_crowd {n : ℕ} {p : Posting} (hp : p ∈ crowd n) :
    (p.word = wordA ∨ p.word = wordB) ∧ p.positions.toList.length = 1 := by
  rcases List.mem_append.mp hp with hp | hp
  · obtain ⟨d, -, rfl⟩ := List.mem_map.mp hp
    exact ⟨.inl rfl, length_startPosting _ _⟩
  · rw [List.mem_singleton.mp hp]
    exact ⟨.inr rfl, length_startPosting _ _⟩

theorem crowd_distinct {n : ℕ} (hn : n ≤ 2 ^ 31) :
    ((crowd n).map fun p => (p.word, p.docid)).Nodup := by
  rw [crowd, List.map_append, List.map_map]
  refine List.nodup_append.mpr ⟨?_, List.pairwise_singleton _ _, ?_⟩
  · refine List.Nodup.map_on (fun d hd e he h => ?_) List.nodup_range
    have hnat := congrArg UInt64.toNat (Prod.mk.inj h).2
    simp only [startPosting, UInt64.toNat_ofNat'] at hnat
    rw [List.mem_range] at hd he
    omega
  · intro x hx y hy hxy
    obtain ⟨d, -, rfl⟩ := List.mem_map.mp hx
    rw [List.map_singleton, List.mem_singleton] at hy
    rw [hy] at hxy
    exact absurd (Prod.mk.inj hxy).1 (show ¬ wordA = wordB by decide)

theorem crowd_fits {n : ℕ} (hn : n ≤ 2 ^ 31) : FitsCounters (crowd n) where
  words := by
    have hsub : ((crowd n).map Posting.word).toFinset ⊆ {wordA, wordB} := by
      intro w hw
      rw [List.mem_toFinset, List.mem_map] at hw
      obtain ⟨p, hp, rfl⟩ := hw
      rw [Finset.mem_insert, Finset.mem_singleton]
      exact (mem_crowd hp).1
    have htwo : ({wordA, wordB} : Finset CString).card ≤ 2 := Finset.card_le_two
    have hle := Finset.card_le_card hsub
    omega
  docs := fun word => by
    have hle := List.length_filter_le (fun p : Posting => decide (p.word = word)) (crowd n)
    rw [crowd, List.length_append, List.length_map, List.length_range, List.length_singleton] at hle
    exact Nat.lt_of_le_of_lt hle (by omega)

/-- With `2 ^ 31` documents for the first word the query `a b` does not answer with
document 0 alone: it lists them all. -/
theorem miProcessQuery_crowd_inexact :
    ((crowd (2 ^ 31)).map fun p => (p.word, p.docid)).Nodup ∧ FitsCounters (crowd (2 ^ 31)) ∧
      HashesApart ((crowd (2 ^ 31)).map Posting.word ++ [wordA, wordB]) ∧
      (∀ docid, rankIn (crowd (2 ^ 31)) [wordA, wordB] docid < 2 ^ 32) ∧
      ∃ index res, Yields (buildIndex (crowd (2 ^ 31))) index ∧
        Yields (miProcessQuery index [wordA, wordB]) res ∧
        ¬ SearchExact (crowd (2 ^ 31)) [wordA, wordB] res := by
  generalize hn : 2 ^ 31 = n
  have hle : n ≤ 2 ^ 31 := hn.ge
  have hword : ∀ p ∈ crowd n, p.word ∈ [wordA, wordB] := fun p hp => by
    simpa using (mem_crowd hp).1
  have hapart : HashesApart ((crowd n).map Posting.word ++ [wordA, wordB]) := by
    have hmem : ∀ w ∈ (crowd n).map Posting.word ++ [wordA, wordB], w ∈ [wordA, wordB] := by
      intro w hw
      rcases List.mem_append.mp hw with hw | hw
      · obtain ⟨p, hp, rfl⟩ := List.mem_map.mp hw
        exact hword p hp
      · exact hw
    exact fun w hw w' hw' => hashesApart_ab w (hmem w hw) w' (hmem w' hw')
  have hrank : ∀ docid, rankIn (crowd n) [wordA, wordB] docid < 2 ^ 32 := fun docid =>
    Nat.lt_of_le_of_lt (rankIn_le (k := 1) (fun p hp => (mem_crowd hp).2.le) _ _) (by decide)
  refine ⟨crowd_distinct hle, crowd_fits hle, hapart, hrank, ?_⟩
  obtain ⟨hdp, index, hbuild, h⟩ :=
    buildIndex_yields (crowd_distinct hle) hashesApart_ab hword (crowd_fits hle)
  have hcount : n ≤ ((crowd n).filter fun p => p.word = wordA).length := by
    have hself : ((List.range n).map fun d => startPosting wordA (UInt64.ofNat d)).filter
        (fun p => p.word = wordA) =
          (List.range n).map fun d => startPosting wordA (UInt64.ofNat d) := by
      refine List.filter_eq_self.mpr fun p hp => ?_
      obtain ⟨d, -, rfl⟩ := List.mem_map.mp hp
      exact decide_eq_true rfl
    rw [crowd, List.filter_append, hself, List.length_append, List.length_map, List.length_range]
    exact Nat.le_add_right n _
  have hall : ∀ w ∈ [wordA, wordB], ∃ p ∈ crowd n, p.word = w := by
    intro w hw
    rcases List.mem_cons.mp hw with rfl | hw
    · have hpos : 0 < n := by omega
      refine ⟨startPosting wordA (UInt64.ofNat 0), List.mem_append.mpr (.inl ?_), rfl⟩
      exact List.mem_map.mpr ⟨0, List.mem_range.mpr hpos, rfl⟩
    · rw [List.mem_singleton.mp hw]
      exact ⟨startPosting wordB 0, by simp [crowd], rfl⟩
  obtain ⟨res, hrun, hwrong⟩ := not_searchExact_of_crowd h hdp hashesApart_ab hword
    (fun w hw => hw) (by decide) hall (hn ▸ hcount)
  exact ⟨index, res, hbuild, hrun, hwrong⟩

end MultithreadedWebServer
